import Ecma.Engine.Budget
import Ecma.Evaluate.Program
import Ecma.Report
import Ecma.Store.Initial

/-!
# Machines

What a host works with: a store that lasts, and programs that run on it one after the other. The value of a program
comes back as text, and a failure as a report.
-/

namespace Ecma

/-- Turns the end of a run into an answer for the host: its value as text, or a report. -/
def Action.observe (E : Engine) (x : Action Value) : Action (Except Report String) := do
  match ← (do (← x).toText E : Action Text).attempt with
  | .ok t => pure (.ok t.toString)
  | .error e => .error <$> e.report E

/-- A runtime: its settings and its store. -/
structure Machine where
  config : Config
  store : Store

namespace Machine

/-- A fresh runtime. -/
def new (config : Config) : Machine := ⟨config, .initial⟩

/-- A budget that no program which ends on a real machine can spend. -/
def ampleBudget : Nat := Nat.pow 2 62

/-- Carries out an action. There is no answer when it throws or exhausts its budget. -/
def perform {α : Type} (m : Machine) (x : Action α) : Option α × Machine :=
  match x m.config m.store with
  | .value a s => (some a, { m with store := s })
  | .abrupt _ s | .exhausted s => (none, { m with store := s })

/-- Runs a program as global code, within a budget. -/
def run (m : Machine) (budget : Nat) (p : Program) : Option (Except Report String) × Machine :=
  m.perform ((p.evaluate (.ofBudget budget)).observe (.ofBudget budget))

/-- Runs a program as eval code that no code called, within a budget. -/
def runEval (m : Machine) (budget : Nat) (p : Program) : Option (Except Report String) × Machine :=
  m.perform ((p.evaluateEval (.ofBudget budget) false).observe (.ofBudget budget))

end Machine

end Ecma
