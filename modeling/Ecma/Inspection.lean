import Ecma.Reference
import Ecma.Text.Quoted

/-!
# Inspection

Values and references as diagnostics show them, with their types. No code runs.
-/

namespace Ecma

/-- A value with its type. -/
def Store.inspect (s : Store) : Value → String
  | .undefined => "Undefined"
  | .null => "Null"
  | .boolean b => "Boolean(" ++ (if b then "true" else "false") ++ ")"
  | .number x => "Number(" ++ Number.inspect x ++ ")"
  | .string t => "String(" ++ Text.quoted t.toString ++ ")"
  | .object o => "Object(" ++ s.classTag o ++ ")"

/-- Where a reference looks for its name. -/
def Store.inspectBase (s : Store) : ReferenceBase → String
  | .unresolvable => "Unresolvable"
  | .scope _ => "Environment"
  | .value v => "Value(" ++ s.inspect v ++ ")"

end Ecma
