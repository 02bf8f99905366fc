import Ecma.Proofs.Generator.Reference

/-!
# The queue of a generator and structured evaluation

What a body does and what its queue does are each below the other, once the budget of the other is large enough. The
proofs follow the body, for any queue behind it: whatever a statement is followed by, as long as that does what the
queue does next, the statement followed by it does what the queue does with the statement in front.
-/

namespace Ecma

/-- Whatever a statement ends with, this does what the queue does next. -/
def Continues (E : Engine) (rest : List GeneratorStep) (k : Completion → Emitter Value) : Prop :=
  ∀ c, (k c).Within fun budget => (GeneratorStep.next rest c).run (flow E budget)

/-- Statements that come before the queue go on to it. -/
theorem Continues.proceed {E : Engine} {rest : List GeneratorStep} {k : Completion → Emitter Value} {body : List Stmt}
    {onward : Option Value → Emitter Value} (follows : Continues E rest k)
    (next : ∀ v, (onward v).Within fun budget => flow E budget (GeneratorStep.ofBody body ++ rest)) :
    Continues E (GeneratorStep.ofBody body ++ rest) (Completion.proceed onward k) := by
  intro c
  have later (abnormal : ∀ v, c ≠ .normal v) :
      (k c).Within fun budget => (GeneratorStep.next (GeneratorStep.ofBody body ++ rest) c).run (flow E budget) := by
    rw [GeneratorStep.next_ofBody body abnormal]
    exact follows c
  cases c with
  | normal v => exact next v
  | returns v => exact later nofun
  | breaks l => exact later nofun
  | continues l => exact later nofun

theorem Continues.concluded (E : Engine) : Continues E [] fun c => .lift c.concluded := by
  intro c d s
  refine ⟨1, ?_⟩
  show Emission.Below Eq (Emitter.lift c.concluded d s) ((GeneratorStep.next [] c).run (flow E 1) d s)
  rw [GeneratorStep.run_next_nil]
  exact .same _

section Within

variable {E : Engine} {rest : List GeneratorStep} {k : Completion → Emitter Value}

/-- What a `while` loop does when the end of its body is reached. -/
theorem while_within {test : Expr} {body : List Stmt}
    (inner : ∀ {rest k}, Continues E rest k →
      (Stmt.emitFrom E body none >>= k).Within fun budget => flow E budget (GeneratorStep.ofBody body ++ rest))
    (follows : Continues E rest k) {step : GeneratorStep} (same : step.stmt = .whileLoop test body) (rounds : Nat)
    (last : Option Value) :
    (Emitter.goRound (Emitter.whileTurn E test (Stmt.emitFrom E body none)) rounds last >>= k).Within
      fun budget => flow E budget (step :: rest) := by
  induction rounds generalizing step last with
  | zero => exact fun c s => ⟨0, .exhausted List.nil_prefix⟩
  | succ rounds ih =>
    refine .of_succ ?_
    rw [Emitter.goRound_while]
    simp only [flow_while same]
    refine .bind fun v => ?_
    split
    · refine inner fun c => ?_
      cases c with
      | normal v => exact ih rfl (later v last)
      | returns v => exact follows (.returns v)
      | breaks l =>
        cases l with
        | none => exact follows (.normal last)
        | some l => exact follows (.breaks (some l))
      | continues l =>
        cases l with
        | none => exact ih rfl last
        | some l => exact follows (.continues (some l))
    · exact follows (.normal last)

theorem whole_within {stmt : Stmt} {step : GeneratorStep} (same : step.stmt = stmt)
    (whole : GeneratorStep.effect E stmt = .ends <$> E.stmt [] stmt) (follows : Continues E rest k) :
    (Emitter.lift (E.stmt [] stmt) >>= k).Within fun budget => flow E budget (step :: rest) := by
  refine .of_succ ?_
  simp only [flow_whole same whole]
  exact .bind follows

mutual

/-- A statement and what follows it do nothing that the queue does not do. -/
theorem emit_within (stmt : Stmt) {rest : List GeneratorStep} {k : Completion → Emitter Value}
    (follows : Continues E rest k) {step : GeneratorStep} (same : step.stmt = stmt) :
    (stmt.emit E >>= k).Within fun budget => flow E budget (step :: rest) := by
  cases stmt with
  | yields value =>
    refine .of_succ ?_
    simp only [flow_yields same, emit_yields]
    exact .bind fun _ => follows (.normal none)
  | block body =>
    refine .of_succ ?_
    simp only [flow, same]
    exact emitFrom_within body follows none
  | ifElse test consequent alternate =>
    refine .of_succ ?_
    simp only [flow_ifElse same, emit_ifElse]
    refine .bind fun v => ?_
    split
    · exact emitFrom_within consequent follows none
    · exact emitFrom_within alternate follows none
  | whileLoop test body => exact while_within (emitFrom_within body · none) follows same E.budget none
  | _ => exact whole_within same rfl follows

theorem emitFrom_within (body : List Stmt) {rest : List GeneratorStep} {k : Completion → Emitter Value}
    (follows : Continues E rest k) (last : Option Value) :
    (Stmt.emitFrom E body last >>= k).Within fun budget => flow E budget (GeneratorStep.ofBody body ++ rest) := by
  match body with
  | [] => exact follows (.normal last)
  | stmt :: body =>
    rw [Stmt.emitFrom_cons]
    exact emit_within stmt (follows.proceed fun v => emitFrom_within body follows (later v last)) rfl

end

end Within

theorem Next.run_below {f g : List GeneratorStep → Emitter Value} (next : Next) (h : ∀ steps, (f steps).Below (g steps)) :
    (next.run f).Below (next.run g) := by
  cases next with
  | go steps => exact h steps
  | yields v steps => exact .bind (.refl _) fun _ => h steps
  | returns v => exact .refl _
  | fails f => exact .refl _

section Below

variable {E E' : Engine}

theorem effect_below (larger : E.Below E') (stmt : Stmt) :
    (Emitter.lift (GeneratorStep.effect E stmt)).Below (.lift (GeneratorStep.effect E' stmt)) := by
  have expr (e : Expr) (f : Value → Effect) :
      (Emitter.lift (f <$> E.expr e)).Below (.lift (f <$> E'.expr e)) := by
    rw [Emitter.lift_map, Emitter.lift_map]
    exact .bind (larger.expr e) fun _ => .refl _
  have whole : (Emitter.lift (Effect.ends <$> E.stmt [] stmt)).Below (.lift (Effect.ends <$> E'.stmt [] stmt)) := by
    rw [Emitter.lift_map, Emitter.lift_map]
    exact .bind (larger.stmt [] stmt) fun _ => .refl _
  cases stmt with
  | yields value =>
    cases value with
    | none => exact .refl _
    | some e => exact expr e .yields
  | block body => exact .refl _
  | ifElse test consequent alternate => exact expr test _
  | whileLoop test body => exact expr test _
  | _ => exact whole

theorem flow_below (larger : E.Below E') {budget budget' : Nat} (le : budget ≤ budget') (steps : List GeneratorStep) :
    (flow E budget steps).Below (flow E' budget' steps) := by
  induction budget generalizing budget' steps with
  | zero => exact .exhaust _
  | succ budget ih =>
    obtain ⟨budget', rfl⟩ : ∃ n, budget' = n + 1 := ⟨budget' - 1, by omega⟩
    cases steps with
    | nil => exact .refl _
    | cons step rest =>
      exact .bind (effect_below larger step.stmt) fun _ => Next.run_below _ fun steps => ih (by omega) steps

/-- Whatever a statement ends with, what the queue does next is within this. -/
def Covers (E : Engine) (budget : Nat) (rest : List GeneratorStep) (k : Completion → Emitter Value) : Prop :=
  ∀ c, ((GeneratorStep.next rest c).run (flow E budget)).Below (k c)

theorem Covers.concluded (self : E.Below E) (budget : Nat) : Covers E budget [] fun c => .lift c.concluded := by
  intro c
  show Emitter.Below _ (.lift c.concluded)
  rw [← GeneratorStep.run_next_nil E budget]
  exact Next.run_below _ fun steps => flow_below self (Nat.le_succ _) steps

variable {budget : Nat} {rest : List GeneratorStep} {k : Completion → Emitter Value}

theorem Covers.pred (self : E.Below E) (covers : Covers E (budget + 1) rest k) : Covers E budget rest k :=
  fun c => .trans (Next.run_below _ fun steps => flow_below self (Nat.le_succ _) steps) (covers c)

theorem Covers.proceed {body : List Stmt} {onward : Option Value → Emitter Value} (covers : Covers E budget rest k)
    (next : ∀ v, (flow E budget (GeneratorStep.ofBody body ++ rest)).Below (onward v)) :
    Covers E budget (GeneratorStep.ofBody body ++ rest) (Completion.proceed onward k) := by
  intro c
  have later (abnormal : ∀ v, c ≠ .normal v) :
      ((GeneratorStep.next (GeneratorStep.ofBody body ++ rest) c).run (flow E budget)).Below (k c) := by
    rw [GeneratorStep.next_ofBody body abnormal]
    exact covers c
  cases c with
  | normal v => exact next v
  | returns v => exact later nofun
  | breaks l => exact later nofun
  | continues l => exact later nofun

theorem flow_below_while (larger : E.Below E') (self : E.Below E) {test : Expr} {body : List Stmt}
    (inner : ∀ {budget rest k}, budget ≤ E'.budget → Covers E budget rest k →
      (flow E budget (GeneratorStep.ofBody body ++ rest)).Below (Stmt.emitFrom E' body none >>= k))
    (enough : budget ≤ E'.budget) (covers : Covers E budget rest k) {step : GeneratorStep}
    (same : step.stmt = .whileLoop test body) {rounds : Nat} (le : budget ≤ rounds) (last : Option Value) :
    (flow E budget (step :: rest)).Below
      (Emitter.goRound (Emitter.whileTurn E' test (Stmt.emitFrom E' body none)) rounds last >>= k) := by
  induction budget generalizing step rounds last with
  | zero => exact .exhaust _
  | succ budget ih =>
    obtain ⟨rounds, rfl⟩ : ∃ n, rounds = n + 1 := ⟨rounds - 1, by omega⟩
    rw [flow_while same, Emitter.goRound_while]
    have before := covers.pred self
    refine .bind (larger.expr test) fun v => ?_
    split
    · refine inner (by omega) fun c => ?_
      cases c with
      | normal v => exact ih (by omega) before rfl (by omega) (later v last)
      | returns v => exact before (.returns v)
      | breaks l =>
        cases l with
        | none => exact before (.normal last)
        | some l => exact before (.breaks (some l))
      | continues l =>
        cases l with
        | none => exact ih (by omega) before rfl (by omega) last
        | some l => exact before (.continues (some l))
    · exact before (.normal last)

mutual

/-- What the queue does with a statement in front is within the statement and what follows it. -/
theorem flow_below_emit (larger : E.Below E') (self : E.Below E) (stmt : Stmt) {budget : Nat}
    {rest : List GeneratorStep} {k : Completion → Emitter Value} (enough : budget ≤ E'.budget)
    (covers : Covers E budget rest k) {step : GeneratorStep} (same : step.stmt = stmt) :
    (flow E budget (step :: rest)).Below (stmt.emit E' >>= k) := by
  cases budget with
  | zero => exact .exhaust _
  | succ budget =>
    have before := covers.pred self
    have enough' : budget ≤ E'.budget := by omega
    have yielding (value : Option Expr) : (Emitter.yielding E value).Below (Emitter.yielding E' value) := by
      cases value with
      | none => exact .refl _
      | some e => exact .bind (larger.expr e) fun _ => .refl _
    cases stmt with
    | yields value =>
      rw [flow_yields same, emit_yields]
      exact .bind (yielding value) fun _ => before (.normal none)
    | block body =>
      rw [flow, same]
      exact flow_below_emitFrom larger self body enough' before none
    | ifElse test consequent alternate =>
      rw [flow_ifElse same, emit_ifElse]
      refine .bind (larger.expr test) fun v => ?_
      split
      · exact flow_below_emitFrom larger self consequent enough' before none
      · exact flow_below_emitFrom larger self alternate enough' before none
    | whileLoop test body =>
      exact flow_below_while larger self (fun le covers => flow_below_emitFrom larger self body le covers none) enough
        covers same enough none
    | _ =>
      rw [flow_whole same rfl]
      exact .bind (larger.stmt [] _) before

theorem flow_below_emitFrom (larger : E.Below E') (self : E.Below E) (body : List Stmt) {budget : Nat}
    {rest : List GeneratorStep} {k : Completion → Emitter Value} (enough : budget ≤ E'.budget)
    (covers : Covers E budget rest k) (last : Option Value) :
    (flow E budget (GeneratorStep.ofBody body ++ rest)).Below (Stmt.emitFrom E' body last >>= k) := by
  match body with
  | [] => exact covers (.normal last)
  | stmt :: body =>
    rw [Stmt.emitFrom_cons]
    have others (v : Option Value) := flow_below_emitFrom larger self body enough covers (later v last)
    exact flow_below_emit larger self stmt enough (covers.proceed others) rfl

end

end Below

end Ecma
