/-!
# Slices by bytes

A text is encoded with one to four bytes for each character, and positions in it count bytes. A slice is cut between two
positions; where one of them is beyond the end or inside a character there is no slice, and a `Misslice` is the fault.
-/

namespace Ecma.Text

/-- The bytes of characters (`as_bytes`). -/
def bytes (cs : List Char) : List UInt8 := cs.flatMap String.utf8EncodeChar

def byteAt? (cs : List Char) (i : Nat) : Option UInt8 := (bytes cs)[i]?

/-- The characters of the first `n` bytes and those of the others. -/
def divide? : List Char → Nat → Option (List Char × List Char)
  | cs, 0 => some ([], cs)
  | [], _ + 1 => none
  | c :: cs, n + 1 =>
    if c.utf8Size ≤ n + 1 then (divide? cs (n + 1 - c.utf8Size)).map fun (front, back) => (c :: front, back) else none

/-- Two positions that are not both between characters. -/
structure Misslice where
  start : Nat
  stop : Nat
deriving DecidableEq

/-- The characters between two positions. -/
def slice (cs : List Char) (start stop : Nat) : Except Misslice (List Char) :=
  match (divide? cs stop).bind fun (front, _) => divide? front start with
  | some (_, middle) => .ok middle
  | none => .error ⟨start, stop⟩

end Ecma.Text
