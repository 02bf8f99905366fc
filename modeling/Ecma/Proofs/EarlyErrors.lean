import Ecma.Machine

/-!
# Early errors and `try` statements

A syntax fault of the body of a `try` statement is the end of the whole statement: neither its `catch` clause nor its
`finally` block sees it. A syntax fault of the `catch` clause is told apart from no other: the `finally` block runs after
it, and the fault is the end of the statement exactly when that block ends at its end. Where there is no such block the
fault passes.
-/

namespace Ecma.Stmt

variable {E : Engine} {c : Config} {s t u : Store} {body finalizer : List Stmt} {handler : Option CatchClause}
  {clause : CatchClause} {e e' : Abrupt}

/-- After a body that threw something early, nothing else of the statement is done. -/
theorem evaluateTry_of_early (threw : evaluateList E body c s = .abrupt e t) (early : e.isEarly = true) :
    evaluateTry E body handler finalizer c s = .abrupt e t ∧
      (evaluateTry E body handler finalizer).path c s =
        (evaluateList E body).path c s ++ (Outcome.abrupt (α := Completion) e t).raised := by
  constructor
  · show ((evaluateList E body c s).attempted).bind _ = _
    rw [threw]
    show (if e.isEarly = true then Action.rethrow e else _ : Action Completion) c t = _
    rw [if_pos early]
    rfl
  · show (evaluateList E body).path c s ++ ((evaluateList E body c s).attempted).pathAfter _ = _
    rw [threw]
    show _ ++ (if e.isEarly = true then Action.rethrow e else _ : Action Completion).path c t = _
    rw [if_pos early]
    rfl

/-- After a `catch` clause that threw, the `finally` block decides. -/
theorem evaluateTry_of_caught (threw : evaluateList E body c s = .abrupt e t) (ordinary : e.isEarly = false)
    (again : evaluateCatch E clause e c t = .value (.error e') u) :
    evaluateTry E body (some clause) finalizer c s = evaluateFinally E finalizer (.error e') c u := by
  show ((evaluateList E body c s).attempted).bind _ = _
  rw [threw]
  show (if e.isEarly = true then _ else _ : Action Completion) c t = _
  rw [if_neg (by rw [ordinary]; exact Bool.false_ne_true)]
  show (evaluateCatch E clause e c t).bind _ = _
  rw [again]
  rfl

/-- What a `finally` block makes of something that was thrown before it. -/
theorem evaluateFinally_abrupt_iff :
    evaluateFinally E finalizer (.error e) c s = .abrupt e t ↔
      (∃ v, evaluateList E finalizer c s = .value (.normal v) t) ∨ evaluateList E finalizer c s = .abrupt e t := by
  show (evaluateList E finalizer c s).bind _ = _ ↔ _
  cases evaluateList E finalizer c s with
  | value r u =>
    cases r with
    | normal v =>
      show Outcome.abrupt e u = .abrupt e t ↔ _
      simp
    | returns v =>
      show Outcome.value (Completion.returns v) u = .abrupt e t ↔ _
      simp
    | breaks l =>
      show Outcome.value (Completion.breaks l) u = .abrupt e t ↔ _
      simp
    | continues l =>
      show Outcome.value (Completion.continues l) u = .abrupt e t ↔ _
      simp
  | abrupt e u =>
    show Outcome.abrupt e u = _ ↔ _
    simp
  | exhausted u =>
    show Outcome.exhausted u = _ ↔ _
    simp

/-- A syntax fault of the body ends the whole statement, on the store it was raised on, and nothing happens after it. A
syntax fault of the `catch` clause ends it where there is no `finally` block, and otherwise exactly when that block ends
at its end or with the same fault. -/
theorem early_error_escapes (E : Engine) (c : Config) (labels : List String) (s t : Store) (body finalizer : List Stmt)
    (handler : Option CatchClause) (e : Abrupt) (threw : evaluateList E body c s = .abrupt e t) :
    (∀ f, e = .fault f → f.kind = .syntaxError →
      evaluate E labels (.tryCatch body handler finalizer) c s = .abrupt (.fault f) t ∧
        (evaluate E labels (.tryCatch body handler finalizer)).path c s =
          (evaluateList E body).path c s ++ [.raised f]) ∧
    ∀ clause f u, e.isEarly = false → handler = some clause →
      evaluateCatch E clause e c t = .value (.error (.fault f)) u → f.kind = .syntaxError →
        (finalizer = [] → evaluate E labels (.tryCatch body handler finalizer) c s = .abrupt (.fault f) u) ∧
        ∀ v, evaluate E labels (.tryCatch body handler finalizer) c s = .abrupt (.fault f) v ↔
          (∃ last, evaluateList E finalizer c u = .value (.normal last) v) ∨
            evaluateList E finalizer c u = .abrupt (.fault f) v := by
  simp only [evaluate]
  refine ⟨?_, ?_⟩
  · rintro f rfl early
    exact evaluateTry_of_early threw (by simpa [Abrupt.isEarly] using early)
  · rintro clause f u ordinary rfl again _
    rw [evaluateTry_of_caught threw ordinary again]
    refine ⟨?_, fun v => evaluateFinally_abrupt_iff⟩
    rintro rfl
    rfl

/-- A stray `yield` in a `catch` clause, with no `finally` block after it. -/
theorem early_error_escapes_catch :
    ∃ t u, evaluateList (.ofBudget 3) [.throws .null] .standard (.pushContext .initial (.global false)) =
        .abrupt (.thrown .null) t ∧
      evaluateCatch (.ofBudget 3) ⟨"e", [.yields none]⟩ (.thrown .null) .standard t =
        .value (.error (.fault .strayYield)) u ∧
      evaluate (.ofBudget 3) [] (.tryCatch [.throws .null] (some ⟨"e", [.yields none]⟩) []) .standard
        (.pushContext .initial (.global false)) = .abrupt (.fault .strayYield) u := by
  refine ⟨_, _, rfl, rfl, ?_⟩
  exact ((early_error_escapes _ _ _ _ _ _ _ _ _ rfl).2 _ _ _ rfl rfl rfl rfl).1 rfl

/-- A jump out of the `finally` block replaces the fault of the `catch` clause. -/
theorem early_error_replaced :
    ∃ t u v, evaluateList (.ofBudget 3) [.throws .null] .standard (.pushContext .initial (.global false)) =
        .abrupt (.thrown .null) t ∧
      evaluateCatch (.ofBudget 3) ⟨"e", [.yields none]⟩ (.thrown .null) .standard t =
        .value (.error (.fault .strayYield)) u ∧ Fault.strayYield.kind = .syntaxError ∧
      evaluate (.ofBudget 3) [] (.tryCatch [.throws .null] (some ⟨"e", [.yields none]⟩) [.breaks (some "l")]) .standard
        (.pushContext .initial (.global false)) = .value (.breaks (some "l")) v :=
  ⟨_, _, _, rfl, rfl, rfl, rfl⟩

end Ecma.Stmt
