import Ecma.Coercion

/-!
# Reporting what nothing caught

How a fault or a thrown value that reaches the host is put into a report. An error object is reported by its name and
message, and any other object as text.
-/

namespace Ecma

namespace Abrupt

/-- The message of a fault, or the thrown value as it stands in messages. -/
def message (s : Store) : Abrupt → String
  | fault f => f.message
  | thrown v => s.describe v

/-- The report that can be given without running any code. -/
def summary (s : Store) : Abrupt → Report
  | fault f => f.report
  | thrown v => .uncaught (s.describe v)

end Abrupt

/-- The text of a property, if it holds some. -/
def Store.textProperty (s : Store) (o : ObjectRef) (name : String) : String :=
  match s.dataValue? o name with
  | some (.string t) => t.toString
  | _ => ""

/-- The report of an error object, by its name. -/
def Report.ofError (name message : String) : Report :=
  match name with
  | "TypeError" => .typeError message
  | "ReferenceError" => .referenceError message
  | "RangeError" => .rangeError message
  | "SyntaxError" => .syntaxError message
  | _ => .uncaught (if message.isEmpty then name else name ++ ": " ++ message)

/-- The report of what nothing caught (`thrown_to_js_error`). An object that is no error is shown as text, if it can
be. -/
def Abrupt.report (E : Engine) : Abrupt → Action Report
  | .fault f => pure f.report
  | .thrown (.object o) => do
    if ← .read fun s => (s.object o).isError then
      .read fun s => .ofError (s.textProperty o "name") (s.textProperty o "message")
    else
      match ← ((Value.object o).toText E).attempt with
      | .ok t => pure (.uncaught t.toString)
      | .error _ => .read fun s => .uncaught (s.describe (.object o))
  | .thrown v => .read fun s => .uncaught (s.describe v)

end Ecma
