import Ecma.Proofs.Generator.Reference

/-!
# Bodies without a yield

A body in which no `yield` is reached through blocks, branches and `while` loops does as a generator what it does as a
function. The two differ in the levels at which an engine runs their statements: a function runs each nested statement
one level further down.
-/

namespace Ecma

mutual

/-- No `yield` is reached through blocks, branches and `while` loops. -/
def Stmt.yieldFree : Stmt → Bool
  | .yields _ => false
  | .block body | .whileLoop _ body => Stmt.yieldFreeAll body
  | .ifElse _ consequent alternate => Stmt.yieldFreeAll consequent && Stmt.yieldFreeAll alternate
  | _ => true

/-- The same of a list of statements. -/
def Stmt.yieldFreeAll : List Stmt → Bool
  | [] => true
  | stmt :: rest => stmt.yieldFree && Stmt.yieldFreeAll rest

end

namespace Emitter

variable {α : Type}

theorem lift_goRound (turn : Option Value → Action Turn) (budget : Nat) (last : Option Value) :
    lift (Ecma.goRound turn budget last) = goRound (fun last => lift (turn last)) budget last := by
  induction budget generalizing last with
  | zero => rfl
  | succ budget ih =>
    rw [Ecma.goRound, goRound, lift_bind]
    refine bind_congr fun t => ?_
    cases t with
    | again last => exact ih last
    | leave c => rfl

theorem lift_whileTurn (E : Engine) (test : Expr) (body : List Stmt) (last : Option Value) :
    lift (Stmt.whileTurn E [] test body last) = whileTurn E test (lift (Stmt.evaluateFrom E body none)) last := by
  rw [Stmt.whileTurn, whileTurn, lift_bind]
  refine bind_congr fun v => ?_
  split
  · rw [lift_bind]
    rfl
  · rfl

namespace Below

theorem goRound {turn turn' : Option Value → Emitter Turn} (h : ∀ last, (turn last).Below (turn' last))
    {budget budget' : Nat} (le : budget ≤ budget') (last : Option Value) :
    (Emitter.goRound turn budget last).Below (Emitter.goRound turn' budget' last) := by
  induction budget generalizing budget' last with
  | zero => exact .exhaust _
  | succ budget ih =>
    obtain ⟨budget', rfl⟩ : ∃ n, budget' = n + 1 := ⟨budget' - 1, by omega⟩
    refine .bind (h last) fun t => ?_
    cases t with
    | again last => exact ih (by omega) last
    | leave c => exact .refl _

theorem whileTurn {E E' : Engine} (larger : E.Below E') (test : Expr) {body body' : Emitter Completion}
    (h : body.Below body') (last : Option Value) :
    (Emitter.whileTurn E test body last).Below (Emitter.whileTurn E' test body' last) := by
  refine .bind (larger.expr test) fun v => ?_
  split
  · exact .bind h fun _ => .refl _
  · exact .refl _

theorem proceed {onward onward' : Option Value → Emitter α} (otherwise : Completion → Emitter α)
    (h : ∀ v, (onward v).Below (onward' v)) (c : Completion) :
    (c.proceed onward otherwise).Below (c.proceed onward' otherwise) := by
  cases c with
  | normal v => exact h v
  | returns v => exact .refl _
  | breaks l => exact .refl _
  | continues l => exact .refl _

end Below

end Emitter

theorem Stmt.lift_evaluateFrom_cons (E : Engine) (stmt : Stmt) (rest : List Stmt) (last : Option Value) :
    Emitter.lift (Stmt.evaluateFrom E (stmt :: rest) last) = .lift (E.stmt [] stmt) >>=
      Completion.proceed (fun v => .lift (Stmt.evaluateFrom E rest (later v last))) pure := by
  rw [Stmt.evaluateFrom, Emitter.lift_bind]
  refine bind_congr fun c => ?_
  cases c <;> rfl

theorem Stmt.emitFrom_cons_pure (E : Engine) (stmt : Stmt) (rest : List Stmt) (last : Option Value) :
    Stmt.emitFrom E (stmt :: rest) last = stmt.emit E >>=
      Completion.proceed (fun v => Stmt.emitFrom E rest (later v last)) pure := by
  rw [Stmt.emitFrom]
  refine bind_congr fun c => ?_
  cases c <;> rfl

mutual

/-- A statement without a `yield` does nothing that it does not do in a generator. -/
theorem stmt_below_emit (stmt : Stmt) (free : stmt.yieldFree) {n m : Nat} (le : n ≤ m) :
    (Emitter.lift ((Engine.ofBudget n).stmt [] stmt)).Below (stmt.emit (.ofBudget m)) := by
  cases n with
  | zero => exact .exhaust _
  | succ n =>
    have larger : (Engine.ofBudget n).Below (.ofBudget m) := Engine.below_ofBudget (by omega)
    have whole :
        (Emitter.lift ((Engine.ofBudget (n + 1)).stmt [] stmt)).Below (.lift ((Engine.ofBudget m).stmt [] stmt)) :=
      (Engine.below_ofBudget le).stmt [] stmt
    show (Emitter.lift (stmt.evaluate (.ofBudget n) [])).Below _
    cases stmt with
    | yields value => cases free
    | block body => exact evaluateFrom_below_emitFrom body free (by omega) none
    | ifElse test consequent alternate =>
      rw [Stmt.yieldFree, Bool.and_eq_true] at free
      rw [Stmt.evaluate, Emitter.lift_bind, Stmt.emit]
      refine .bind (larger.expr test) fun v => ?_
      split
      · exact evaluateFrom_below_emitFrom consequent free.1 (by omega) none
      · exact evaluateFrom_below_emitFrom alternate free.2 (by omega) none
    | whileLoop test body =>
      rw [Stmt.evaluate, Emitter.lift_goRound, Stmt.emit]
      refine .goRound (fun last => ?_) larger.budget none
      rw [Emitter.lift_whileTurn]
      exact .whileTurn larger test (evaluateFrom_below_emitFrom body free (by omega) none) last
    | _ => exact whole

theorem evaluateFrom_below_emitFrom (body : List Stmt) (free : Stmt.yieldFreeAll body) {n m : Nat} (le : n ≤ m)
    (last : Option Value) :
    (Emitter.lift (Stmt.evaluateFrom (.ofBudget n) body last)).Below (Stmt.emitFrom (.ofBudget m) body last) := by
  match body with
  | [] => exact .refl _
  | stmt :: rest =>
    rw [Stmt.yieldFreeAll, Bool.and_eq_true] at free
    rw [Stmt.lift_evaluateFrom_cons, Stmt.emitFrom_cons_pure]
    exact .bind (stmt_below_emit stmt free.1 le) fun c =>
      .proceed pure (fun v => evaluateFrom_below_emitFrom rest free.2 le (later v last)) c

end

mutual

/-- In a generator, a statement without a `yield` does nothing that it does not do anywhere, some levels up. -/
theorem emit_below_stmt (stmt : Stmt) (free : stmt.yieldFree) (n : Nat) :
    ∃ k, ∀ m, k ≤ m → (stmt.emit (.ofBudget n)).Below (.lift ((Engine.ofBudget m).stmt [] stmt)) := by
  have deeper {x : Emitter Completion}
      (h : ∃ k, ∀ m, k ≤ m → x.Below (.lift (stmt.evaluate (.ofBudget m) []))) :
      ∃ k, ∀ m, k ≤ m → x.Below (.lift ((Engine.ofBudget m).stmt [] stmt)) := by
    obtain ⟨k, below⟩ := h
    refine ⟨k + 1, fun m le => ?_⟩
    obtain ⟨m, rfl⟩ : ∃ l, m = l + 1 := ⟨m - 1, by omega⟩
    exact below m (by omega)
  cases stmt with
  | yields value => cases free
  | block body =>
    obtain ⟨k, below⟩ := emitFrom_below_evaluateFrom body free n
    exact deeper ⟨k, fun m le => below m le none⟩
  | ifElse test consequent alternate =>
    rw [Stmt.yieldFree, Bool.and_eq_true] at free
    obtain ⟨k, below⟩ := emitFrom_below_evaluateFrom consequent free.1 n
    obtain ⟨k', below'⟩ := emitFrom_below_evaluateFrom alternate free.2 n
    refine deeper ⟨n + k + k', fun m le => ?_⟩
    rw [Stmt.evaluate, Emitter.lift_bind, Stmt.emit]
    refine .bind ((Engine.below_ofBudget (by omega)).expr test) fun v => ?_
    split
    · exact below m (by omega) none
    · exact below' m (by omega) none
  | whileLoop test body =>
    obtain ⟨k, below⟩ := emitFrom_below_evaluateFrom body free n
    refine deeper ⟨n + k, fun m le => ?_⟩
    have larger : (Engine.ofBudget n).Below (.ofBudget m) := Engine.below_ofBudget (by omega)
    rw [Stmt.evaluate, Emitter.lift_goRound, Stmt.emit]
    refine .goRound (fun last => ?_) larger.budget none
    rw [Emitter.lift_whileTurn]
    exact .whileTurn larger test (below m (by omega) none) last
  | _ => exact ⟨n, fun m le => (Engine.below_ofBudget le).stmt [] _⟩

theorem emitFrom_below_evaluateFrom (body : List Stmt) (free : Stmt.yieldFreeAll body) (n : Nat) :
    ∃ k, ∀ m, k ≤ m → ∀ last,
      (Stmt.emitFrom (.ofBudget n) body last).Below (.lift (Stmt.evaluateFrom (.ofBudget m) body last)) := by
  match body with
  | [] => exact ⟨0, fun _ _ _ => .refl _⟩
  | stmt :: rest =>
    rw [Stmt.yieldFreeAll, Bool.and_eq_true] at free
    obtain ⟨k, first⟩ := emit_below_stmt stmt free.1 n
    obtain ⟨k', others⟩ := emitFrom_below_evaluateFrom rest free.2 n
    refine ⟨k + k', fun m le last => ?_⟩
    rw [Stmt.lift_evaluateFrom_cons, Stmt.emitFrom_cons_pure]
    exact .bind (first m (by omega)) fun c => .proceed pure (fun v => others m (by omega) (later v last)) c

end

end Ecma
