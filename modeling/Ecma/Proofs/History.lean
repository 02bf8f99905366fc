import Ecma.Machine

/-!
# Histories

What happens when a host runs one unit of code after the other on one machine: the answers it gets, the faults that are
raised on the way, and the stores that code begins and ends on, those inside getters, conversions and generator bodies
included.
-/

namespace Ecma

/-- What a host gives a machine to run. -/
inductive CodeUnit where
  | global (p : Program)
  | eval (p : Program)

/-- What running a unit does. -/
def CodeUnit.action (E : Engine) : CodeUnit → Action (Except Report String)
  | global p => (p.evaluate E).observe E
  | eval p => (p.evaluateEval E false).observe E

/-- The store that code begins or ends on. -/
def Moment.store? : Moment → Option Store
  | reached s => some s
  | raised _ | noted _ _ => none

namespace Machine

/-- Runs a unit within a budget. -/
def runUnit (m : Machine) (budget : Nat) : CodeUnit → Option (Except Report String) × Machine
  | .global p => m.run budget p
  | .eval p => m.runEval budget p

/-- The machine when units have run in turn, each within its budget. -/
def after (m : Machine) : List (Nat × CodeUnit) → Machine
  | [] => m
  | (budget, u) :: rest => (m.runUnit budget u).2.after rest

/-- The answers that the host gets. -/
def answers (m : Machine) : List (Nat × CodeUnit) → List (Option (Except Report String))
  | [] => []
  | (budget, u) :: rest => (m.runUnit budget u).1 :: (m.runUnit budget u).2.answers rest

/-- What happens while the units run. -/
def moments (m : Machine) : List (Nat × CodeUnit) → List Moment
  | [] => []
  | (budget, u) :: rest =>
    (u.action (.ofBudget budget)).path m.config m.store ++ (m.runUnit budget u).2.moments rest

/-- The stores of a history in order: before each unit, while it runs, and at the end. -/
def states (m : Machine) : List (Nat × CodeUnit) → List Store
  | [] => [m.store]
  | (budget, u) :: rest =>
    m.store :: ((u.action (.ofBudget budget)).path m.config m.store).filterMap Moment.store? ++
      (m.runUnit budget u).2.states rest

variable {m : Machine} {budget : Nat} {u : CodeUnit}

theorem runUnit_eq : m.runUnit budget u = m.perform (u.action (.ofBudget budget)) := by cases u <;> rfl

@[simp] theorem config_runUnit : (m.runUnit budget u).2.config = m.config := by
  rw [runUnit_eq, perform]
  split <;> rfl

/-- The machine keeps the store that the run left. -/
theorem store_runUnit : (m.runUnit budget u).2.store = ((u.action (.ofBudget budget)) m.config m.store).store := by
  rw [runUnit_eq, perform]
  split <;> simp_all [Outcome.store]

theorem answer_runUnit {answer : Except Report String} (h : (m.runUnit budget u).1 = some answer) :
    ∃ s, (u.action (.ofBudget budget)) m.config m.store = .value answer s ∧ (m.runUnit budget u).2.store = s := by
  rw [runUnit_eq, perform] at h ⊢
  split at h <;> simp_all

end Machine

end Ecma
