import Ecma.Call

/-!
# The engine that runs programs

Each level of evaluation is done with the engine of the level below, so a budget bounds how deep evaluation goes and how
often a loop goes round. Whatever code the engine runs shows on the path of the run.
-/

namespace Ecma

/-- The engine with a budget. -/
def Engine.ofBudget : Nat → Engine
  | 0 => .spent
  | n + 1 =>
    { budget := n + 1
      call := fun f this args => (Ecma.call (ofBudget n) f this args).watched
      put := fun o name v throw => (o.put (ofBudget n) name v throw).watched
      expr := fun e => (e.evaluate (ofBudget n)).watched
      stmt := fun labels stmt => (stmt.evaluate (ofBudget n) labels).watched }

end Ecma
