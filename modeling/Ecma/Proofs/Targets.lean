import Ecma.Engine.Budget

/-!
# Where jumps lead

A jump without a label leads to the loop around it, and one with a label to the statement around it that carries the
label, which has to be a loop if it is to go on. Where every jump of a body leads somewhere, no statement of the body ends
with a jump that the statements around it do not take up, whatever the statements do; and in the queue of a generator the
jumps of each step lead to a boundary further on.
-/

namespace Ecma

/-- Where jumps may lead. -/
structure Targets where
  /-- There is a loop around. -/
  loop : Bool
  /-- The labels of the statements around. -/
  breaks : List String
  /-- The labels of the loops around. -/
  continues : List String

namespace Targets

/-- Outside of all loops and labels. -/
def nowhere : Targets := ⟨false, [], []⟩

/-- In a statement that carries a label. -/
def labelled (T : Targets) (name : String) : Targets := { T with breaks := name :: T.breaks }

/-- In a loop that carries labels. -/
def looped (T : Targets) (labels : List String) : Targets := ⟨true, T.breaks, labels ++ T.continues⟩

/-- There is somewhere to go on after such an end of a statement. -/
def allows (T : Targets) : Completion → Bool
  | .normal _ | .returns _ => true
  | .breaks none | .continues none => T.loop
  | .breaks (some l) => T.breaks.contains l
  | .continues (some l) => T.continues.contains l

theorem nowhere_allows (r : Completion) : nowhere.allows r = !r.isJump := by
  cases r with
  | normal | returns => rfl
  | breaks l | continues l => cases l <;> rfl

end Targets

mutual

/-- Every jump of a statement that carries labels leads somewhere. -/
def Stmt.aimed (T : Targets) (labels : List String) : Stmt → Bool
  | .breaks l => T.allows (.breaks l)
  | .continues l => T.allows (.continues l)
  | .ifElse _ consequent alternate => Stmt.aimedAll T consequent && Stmt.aimedAll T alternate
  | .block body | .withObject _ body => Stmt.aimedAll T body
  | .whileLoop _ body | .doWhile body _ | .forLoop _ _ _ body | .forIn _ _ body => Stmt.aimedAll (T.looped labels) body
  | .label name body => body.aimed (T.labelled name) (labels ++ [name])
  | .tryCatch body none finalizer => Stmt.aimedAll T body && Stmt.aimedAll T finalizer
  | .tryCatch body (some (.mk _ handler)) finalizer =>
    Stmt.aimedAll T body && Stmt.aimedAll T handler && Stmt.aimedAll T finalizer
  | _ => true

/-- Every jump of some statements leads somewhere. -/
def Stmt.aimedAll (T : Targets) : List Stmt → Bool
  | [] => true
  | s :: rest => s.aimed T [] && Stmt.aimedAll T rest

end

/-- Whenever an action gives a value, something holds of that. -/
def Action.Gives {α : Type} (x : Action α) (P : α → Prop) : Prop := ∀ c s a t, x c s = .value a t → P a

namespace Action.Gives

variable {α β : Type} {x : Action α} {f : α → Action β} {P : α → Prop} {Q : β → Prop}

theorem any : x.Gives fun _ => True := fun _ _ _ _ _ => trivial

theorem pure {a : α} (h : P a) : (Pure.pure a : Action α).Gives P := by
  intro c s b t run
  cases run
  exact h

theorem fail {f : Fault} : (Action.fail f : Action α).Gives P := fun _ _ _ _ run => nomatch run

theorem rethrow {e : Abrupt} : (Action.rethrow e : Action α).Gives P := fun _ _ _ _ run => nomatch run

theorem throwValue {v : Value} : (Action.throwValue v : Action α).Gives P := fun _ _ _ _ run => nomatch run

theorem exhaust : (Action.exhaust : Action α).Gives P := fun _ _ _ _ run => nomatch run

theorem bind (hx : x.Gives P) (hf : ∀ a, P a → (f a).Gives Q) : (x >>= f).Gives Q := by
  intro c s b t run
  change (x c s).bind _ = _ at run
  cases first : x c s with
  | value a u =>
    rw [first] at run
    exact hf a (hx c s a u first) c u b t run
  | abrupt | exhausted =>
    rw [first] at run
    cases run

/-- It is enough to look at what comes last. -/
theorem after (hf : ∀ a, (f a).Gives Q) : (x >>= f).Gives Q := any.bind fun a _ => hf a

theorem ite {p : Prop} [Decidable p] {y : Action α} (pos : x.Gives P) (neg : y.Gives P) :
    (if p then x else y).Gives P := by
  split
  · exact pos
  · exact neg

theorem attempt (hx : x.Gives P) : x.attempt.Gives fun r => ∀ a, r = .ok a → P a := by
  intro c s r t run a ok
  subst ok
  change (x c s).attempted = _ at run
  cases ended : x c s with
  | value b u =>
    rw [ended] at run
    cases run
    exact hx c s a t ended
  | abrupt | exhausted =>
    rw [ended] at run
    cases run

theorem ensuring {cleanup : Store → Store} (hx : x.Gives P) : (x.ensuring cleanup).Gives P := by
  intro c s a t run
  change (x c s).cleaned cleanup = _ at run
  cases ended : x c s with
  | value b u =>
    rw [ended] at run
    cases run
    exact hx c s a u ended
  | abrupt | exhausted =>
    rw [ended] at run
    cases run

theorem inScope {e : ScopeRef} (hx : x.Gives P) : (x.inScope e).Gives P := after fun _ => ensuring hx

theorem watched (hx : x.Gives P) : x.watched.Gives P := hx

theorem ofExcept {r : Except Abrupt α} (h : ∀ a, r = .ok a → P a) : (Action.ofExcept r).Gives P := by
  cases r with
  | ok a => exact pure (h a rfl)
  | error e => exact rethrow

end Action.Gives

/-- Running a statement whose jumps lead somewhere ends where there is somewhere to go on. -/
def Engine.Aims (E : Engine) : Prop :=
  ∀ {T labels stmt}, Stmt.aimed T labels stmt = true → (E.stmt labels stmt).Gives fun r => T.allows r = true

/-- A loop goes on, or there is somewhere to go on after it. -/
def Turn.Fits (T : Targets) : Turn → Prop
  | again _ => True
  | leave c => T.allows c = true

/-- A loop takes up what leads to it, and passes on the rest. -/
theorem Completion.turn_fits {T : Targets} {labels : List String} {c : Completion} (last : Option Value)
    (allowed : (T.looped labels).allows c = true) : (c.turn labels last).Fits T := by
  cases c with
  | normal v => trivial
  | returns v => rfl
  | breaks l =>
    cases l with
    | none => rfl
    | some l =>
      rw [turn]
      split
      · rfl
      · exact allowed
  | continues l =>
    cases l with
    | none => trivial
    | some l =>
      rw [turn]
      split
      · trivial
      next other =>
        have outside : labels.contains l = false := by simpa using other
        have found : (labels ++ T.continues).contains l = true := allowed
        rw [List.contains_append, outside, Bool.false_or] at found
        exact found

namespace Stmt

variable {E : Engine} {T : Targets} {labels : List String} {body : List Stmt} {last : Option Value}

theorem aimedAll_cons {s : Stmt} {rest : List Stmt} :
    aimedAll T (s :: rest) = true ↔ s.aimed T [] = true ∧ aimedAll T rest = true := Bool.and_eq_true_iff

/-- Whether a jump out of a body is seen makes no difference to how the body runs. -/
theorem evaluateBody_run (E : Engine) (body : List Stmt) : (evaluateBody E body).run = (evaluateList E body).run := by
  funext c s
  show (evaluateList E body c s).bind _ = _
  cases evaluateList E body c s with
  | value r t => cases r <;> rfl
  | abrupt => rfl
  | exhausted => rfl

theorem goRound_gives {turn : Option Value → Action Turn} (fits : ∀ last, (turn last).Gives (Turn.Fits T))
    (budget : Nat) : (goRound turn budget last).Gives fun r => T.allows r = true := by
  induction budget generalizing last with
  | zero => exact .exhaust
  | succ budget ih =>
    refine .bind (fits last) fun next fit => ?_
    cases next with
    | again last => exact ih
    | leave c => exact .pure fit

variable (H : E.Aims)
include H

theorem evaluateFrom_gives (aimed : aimedAll T body = true) :
    (evaluateFrom E body last).Gives fun r => T.allows r = true := by
  induction body generalizing last with
  | nil => exact .pure rfl
  | cons stmt rest ih =>
    obtain ⟨first, others⟩ := aimedAll_cons.1 aimed
    refine .bind (H first) fun r allowed => ?_
    cases r with
    | normal v => exact ih others
    | returns | breaks | continues => exact .pure allowed

theorem evaluateList_gives (aimed : aimedAll T body = true) :
    (evaluateList E body).Gives fun r => T.allows r = true := evaluateFrom_gives H aimed

/-- What a loop makes of its body. -/
theorem turn_gives (aimed : aimedAll (T.looped labels) body = true) (last : Option Value) :
    (do return (← evaluateList E body).turn labels last : Action Turn).Gives (Turn.Fits T) :=
  .bind (evaluateList_gives H aimed) fun _ allowed => .pure (Completion.turn_fits last allowed)

theorem whileTurn_gives {test : Expr} (aimed : aimedAll (T.looped labels) body = true) (last : Option Value) :
    (whileTurn E labels test body last).Gives (Turn.Fits T) :=
  .after fun _ => .ite (turn_gives H aimed last) (.pure rfl)

theorem doTurn_gives {test : Expr} (aimed : aimedAll (T.looped labels) body = true) (last : Option Value) :
    (doTurn E labels body test last).Gives (Turn.Fits T) := by
  refine .bind (evaluateList_gives H aimed) fun r allowed => ?_
  have fits := Completion.turn_fits last allowed
  split
  · exact .after fun _ => .ite (.pure trivial) (.pure rfl)
  · exact .pure fits

theorem forTurn_gives {test update : Option Expr} (aimed : aimedAll (T.looped labels) body = true) (last : Option Value) :
    (forTurn E labels test update body last).Gives (Turn.Fits T) := by
  refine .after fun _ => .ite (.bind (evaluateList_gives H aimed) fun r allowed => ?_) (.pure rfl)
  have fits := Completion.turn_fits last allowed
  dsimp only
  split
  · cases update with
    | none => exact .pure trivial
    | some e => exact .after fun _ => .pure trivial
  · exact .pure fits

theorem visitKeys_gives {target : ForInTarget} {o : ObjectRef} (aimed : aimedAll (T.looped labels) body = true)
    (keys : List String) : (visitKeys E labels target o body keys last).Gives fun r => T.allows r = true := by
  induction keys generalizing last with
  | nil => exact .pure rfl
  | cons key rest ih =>
    refine .after fun _ => .ite (.after fun _ => .after fun _ => .bind (evaluateList_gives H aimed) fun r allowed => ?_) ih
    have fits := Completion.turn_fits last allowed
    split
    · exact ih
    next left =>
      rw [left] at fits
      exact .pure fits

theorem evaluateCatch_gives {clause : CatchClause} {e : Abrupt} (aimed : aimedAll T clause.body = true) :
    (evaluateCatch E clause e).Gives fun r => ∀ c, r = .ok c → T.allows c = true :=
  .after fun _ => .ite .fail (.after fun _ => .after fun _ => .after fun _ => .after fun _ => .after fun _ =>
    .inScope (.attempt (evaluateList_gives H aimed)))

/-- A `finally` block ends the statement itself, or lets it end as it did. -/
theorem evaluateFinally_gives {finalizer : List Stmt} {before : Except Abrupt Completion}
    (aimed : aimedAll T finalizer = true) (allowed : ∀ c, before = .ok c → T.allows c = true) :
    (evaluateFinally E finalizer before).Gives fun r => T.allows r = true := by
  refine .bind (evaluateList_gives H aimed) fun r allowed' => ?_
  cases r with
  | normal v => exact .ofExcept allowed
  | returns | breaks | continues => exact .pure allowed'

theorem evaluateTry_gives {handler : Option CatchClause} {finalizer : List Stmt} (aimed : aimedAll T body = true)
    (caught : ∀ clause, handler = some clause → aimedAll T clause.body = true) (last : aimedAll T finalizer = true) :
    (evaluateTry E body handler finalizer).Gives fun r => T.allows r = true := by
  refine .bind (.attempt (evaluateList_gives H aimed)) fun r allowed => ?_
  cases r with
  | ok c => exact evaluateFinally_gives H last fun c' ok => allowed c' ok
  | error e =>
    refine .ite .rethrow ?_
    cases handler with
    | none => exact evaluateFinally_gives H last nofun
    | some clause =>
      exact .bind (evaluateCatch_gives H (caught clause rfl)) fun r allowed => evaluateFinally_gives H last allowed

theorem evaluate_gives {stmt : Stmt} (aimed : stmt.aimed T labels = true) :
    (stmt.evaluate E labels).Gives fun r => T.allows r = true := by
  cases stmt with
  | empty | function => exact .pure rfl
  | expr e => exact .after fun _ => .pure rfl
  | declare declarators => exact .after fun _ => .pure rfl
  | returns value =>
    cases value with
    | none => exact .pure rfl
    | some e => exact .after fun _ => .pure rfl
  | ifElse test consequent alternate =>
    obtain ⟨first, second⟩ := Bool.and_eq_true_iff.1 aimed
    exact .after fun _ => .ite (evaluateList_gives H first) (evaluateList_gives H second)
  | block body => exact evaluateList_gives H aimed
  | whileLoop test body => exact goRound_gives (whileTurn_gives H aimed) _
  | doWhile body test => exact goRound_gives (doTurn_gives H aimed) _
  | forLoop init test update body => exact .after fun _ => goRound_gives (forTurn_gives H aimed) _
  | forIn target object body =>
    exact .after fun _ => .ite (.pure rfl) (.after fun _ => .after fun _ => visitKeys_gives H aimed _)
  | breaks l => exact .pure aimed
  | continues l => exact .pure aimed
  | label name body =>
    refine .bind (H (T := T.labelled name) aimed) fun r allowed => ?_
    cases r with
    | breaks l =>
      cases l with
      | none => exact .pure allowed
      | some l =>
        dsimp only
        refine .pure ?_
        split
        · rfl
        next other =>
          have found : (name :: T.breaks).contains l = true := allowed
          simpa [Targets.allows, other] using found
    | continues l =>
      cases l with
      | none | some => exact .pure allowed
    | normal | returns => exact .pure rfl
  | throws e => exact .after fun _ => .throwValue
  | tryCatch body handler finalizer =>
    cases handler with
    | none =>
      obtain ⟨first, last⟩ := Bool.and_eq_true_iff.1 aimed
      exact evaluateTry_gives H first nofun last
    | some clause =>
      obtain ⟨param, handler⟩ := clause
      obtain ⟨both, last⟩ := Bool.and_eq_true_iff.1 aimed
      obtain ⟨first, caught⟩ := Bool.and_eq_true_iff.1 both
      exact evaluateTry_gives H first (fun clause same => by cases same; exact caught) last
  | withObject object body =>
    exact .after fun _ => .ite .fail (.after fun _ => .after fun _ => .after fun _ => .after fun _ =>
      .inScope (evaluateList_gives H aimed))
  | yields => exact .fail

end Stmt

theorem Engine.aims_ofBudget (n : Nat) : (Engine.ofBudget n).Aims := by
  induction n with
  | zero => exact fun _ => .exhaust
  | succ n ih => exact fun aimed => .watched (Stmt.evaluate_gives ih aimed)

namespace GeneratorStep

def isBoundary : GeneratorStep → Bool
  | run _ => false
  | boundary _ => true

/-- Where the jumps of a step may lead that has others after it. -/
def targets (rest : List GeneratorStep) : Targets := ⟨rest.any isBoundary, [], []⟩

/-- Every jump of some steps leads to a boundary. -/
def aimed : List GeneratorStep → Bool
  | [] => true
  | step :: rest => step.stmt.aimed (targets rest) [] && aimed rest

variable {step : GeneratorStep} {rest : List GeneratorStep} {body : List Stmt}

theorem aimed_cons : aimed (step :: rest) = true ↔ step.stmt.aimed (targets rest) [] = true ∧ aimed rest = true :=
  Bool.and_eq_true_iff

/-- A body that is laid out brings no boundary of its own. -/
theorem targets_ofBody : targets (ofBody body ++ rest) = targets rest := by
  induction body with
  | nil => rfl
  | cons s body ih => exact ih

theorem aimed_ofBody_append :
    aimed (ofBody body ++ rest) = true ↔ Stmt.aimedAll (targets rest) body = true ∧ aimed rest = true := by
  induction body with
  | nil => exact ⟨fun h => ⟨rfl, h⟩, fun h => h.2⟩
  | cons s body ih =>
    show aimed (run s :: (ofBody body ++ rest)) = true ↔ _
    rw [aimed_cons, targets_ofBody, ih, Stmt.aimedAll_cons, and_assoc]
    rfl

theorem aimed_ofBody : aimed (ofBody body) = Stmt.aimedAll .nowhere body := by
  have split : aimed (ofBody body ++ []) = true ↔ _ := aimed_ofBody_append
  rw [List.append_nil] at split
  rw [Bool.eq_iff_iff, split]
  exact and_iff_left rfl

/-- The body of a loop is laid out before a boundary, to which its jumps lead. -/
theorem aimed_whileLoop {test : Expr} (aimed : Stmt.aimed (targets rest) [] (.whileLoop test body) = true)
    (others : GeneratorStep.aimed rest = true) :
    GeneratorStep.aimed (ofBody body ++ boundary (.whileLoop test body) :: rest) = true :=
  aimed_ofBody_append.2 ⟨aimed, aimed_cons.2 ⟨aimed, others⟩⟩

/-- A jump leads to the next boundary. -/
theorem exists_jump? (keepLoop : Bool) (loop : (targets rest).loop = true) (others : aimed rest = true) :
    ∃ left, jump? keepLoop rest = some left ∧ aimed left = true := by
  induction rest with
  | nil => cases loop
  | cons step rest ih =>
    obtain ⟨first, later⟩ := aimed_cons.1 others
    cases step with
    | run s => exact ih loop later
    | boundary s =>
      cases keepLoop with
      | true => exact ⟨_, rfl, others⟩
      | false => exact ⟨_, rfl, later⟩

end GeneratorStep

end Ecma
