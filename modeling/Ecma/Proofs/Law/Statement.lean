import Ecma.Proofs.Law.Expression

/-!
# Statements obey every law

One level of a statement, given that the engine below obeys. A loop goes round at most as often in the first run as in
the second, whose budget is no smaller.
-/

namespace Ecma

namespace Law

variable {L : Law} {E E' : Engine} {c : Config} {w : L.World}

/-- What a loop does after its body, by the values that it mentions. -/
def turn (L : Law) (w : L.World) : Turn → Prop
  | .again last => L.option w last
  | .leave r => L.completion w r

theorem option_later {new last : Option Value} (h : L.option w new) (h' : L.option w last) :
    L.option w (later new last) := by
  cases new with
  | none => exact h'
  | some v => exact h

theorem turn_of_completion {labels : List String} {last : Option Value} {r : Completion} (known : L.option w last)
    (post : L.completion w r) : L.turn w (r.turn labels last) := by
  cases r with
  | normal v => exact option_later post known
  | returns v => exact post
  | breaks l =>
    cases l with
    | none => exact known
    | some l =>
      dsimp only [Completion.turn]
      split
      · exact known
      · trivial
  | continues l =>
    cases l with
    | none => exact known
    | some l =>
      dsimp only [Completion.turn]
      split
      · exact known
      · trivial

/-- A loop whose turns obey. -/
theorem goRound_obeys {x y : Option Value → Action Turn} {n m : Nat} {last : Option Value} (budget : n ≤ m)
    (turns : ∀ u last, L.Reached w u → L.option u last → L.Obeys c u (x last) (y last) L.turn)
    (known : L.option w last) : L.Obeys c w (goRound x n last) (goRound y m last) L.completion := by
  induction n generalizing w m last with
  | zero => exact .exhaust
  | succ n ih =>
    obtain ⟨m, rfl⟩ : ∃ k, m = k + 1 := ⟨m - 1, by omega⟩
    refine .bind (turns w last (.refl w) known) fun t u reached post => ?_
    cases t with
    | again last =>
      exact ih (Nat.le_of_succ_le_succ budget) (fun v last later => turns v last (reached.trans later)) post
    | leave r => exact .pure post

/-- Code runs on in another scope. -/
theorem Ready.setLexical {u : L.World} {e : ScopeRef} {names : List String} (h : L.Ready w names) (le : L.le w u)
    (left : L.left u = (L.left w).setLexical e) : L.Ready u names := by
  cases contexts : (L.left w).contexts with
  | nil =>
    have same : (L.left u).contexts = (L.left w).contexts := by simp only [left, Store.setLexical, contexts]
    refine ⟨L.running_congr same h.running, fun name mem ctx top => ?_⟩
    rw [Store.context?, same, contexts] at top
    cases top
  | cons ctx rest =>
    have now : (L.left u).contexts = { ctx with lexical := e } :: rest := by rw [left, Store.setLexical, contexts]
    refine .of_contexts now fun name mem => L.bound_mono le (h.hoisted name mem ctx ?_)
    rw [Store.context?, contexts]
    rfl

section Engine

variable (H : L.Engines E E')
include H

theorem declarators_obeys (declarators : List Declarator) (ready : L.Ready w (declarators.map Declarator.name)) :
    L.Obeys c w (Declarator.evaluateList E declarators) (Declarator.evaluateList E' declarators) L.any := by
  induction declarators generalizing w with
  | nil => exact .pure trivial
  | cons d rest ih =>
    obtain ⟨name, init⟩ := d
    have later {u : L.World} (reached : L.Reached w u) : L.Ready u (rest.map Declarator.name) :=
      reached.ready (ready.mono (List.subset_cons_self ..))
    refine .note_bind (ready.hoisted name (List.mem_cons_self ..)) ?_
    refine .bind resolveName_obeys fun r u first known => .bind checkTarget_obeys fun _ t second checked => ?_
    cases init with
    | none => exact ih (later (first.trans second))
    | some e =>
      refine .bind H.expr fun _ _ third held => ?_
      refine .bind (putValue_obeys H ((second.trans third).reference known) checked held) fun _ _ fourth _ => ?_
      exact ih (later (((first.trans second).trans third).trans fourth))

theorem forInit_obeys {init : ForInit} (ready : L.Ready w init.names) :
    L.Obeys c w (init.evaluate E) (init.evaluate E') L.any := by
  cases init with
  | nothing => exact .pure trivial
  | declare declarators => exact declarators_obeys H declarators ready
  | expr e => exact .bind H.expr fun _ _ _ _ => .pure trivial

theorem forInTarget_obeys {target : ForInTarget} (ready : L.Ready w target.names) :
    L.Obeys c w (target.reference E) (target.reference E') L.reference := by
  cases target with
  | declare name => exact .note_bind (ready.hoisted name (List.mem_cons_self ..)) resolveName_obeys
  | expr e => exact reference_obeys H

theorem evaluateFrom_obeys {last : Option Value} (body : List Stmt) (ready : L.Ready w (Stmt.varNamesOf body))
    (known : L.option w last) :
    L.Obeys c w (Stmt.evaluateFrom E body last) (Stmt.evaluateFrom E' body last) L.completion := by
  induction body generalizing w last with
  | nil => exact .pure known
  | cons stmt rest ih =>
    refine .bind (H.stmt (ready.mono (List.subset_append_left ..))) fun r u reached post => ?_
    cases r with
    | normal v =>
      exact ih (reached.ready (ready.mono (List.subset_append_right ..))) (option_later post (reached.option known))
    | returns v => exact .pure post
    | breaks l => exact .pure post
    | continues l => exact .pure post

theorem statements_obeys {body : List Stmt} (ready : L.Ready w (Stmt.varNamesOf body)) :
    L.Obeys c w (Stmt.evaluateList E body) (Stmt.evaluateList E' body) L.completion :=
  evaluateFrom_obeys H body ready option_none

/-- Where every jump of a body leads somewhere, none leads out of it. -/
theorem evaluateBody_obeys {body : List Stmt} (ready : L.Ready w (Stmt.varNamesOf body)) :
    L.Obeys c w (Stmt.evaluateBody E body) (Stmt.evaluateBody E' body) L.completion := by
  refine .bind (statements_obeys H ready).outcome fun r u _ post => ?_
  obtain ⟨known, run⟩ := post
  refine .ite (fun jumps => .note_bind (Bool.eq_false_iff.2 fun aimed => ?_) (.pure known)) fun _ => .pure known
  have allowed : Targets.nowhere.allows r = true := Stmt.evaluateList_gives H.aims aimed c (L.left w) r (L.left u) run
  rw [Targets.nowhere_allows, jumps] at allowed
  cases allowed

theorem holds_obeys {test : Option Expr} : L.Obeys c w (Stmt.holds E test) (Stmt.holds E' test) L.any := by
  cases test with
  | none => exact .pure trivial
  | some e => exact .bind H.expr fun _ _ _ _ => .pure trivial

variable {labels : List String} {body : List Stmt} {last : Option Value}

theorem whileTurn_obeys {test : Expr} (ready : L.Ready w (Stmt.varNamesOf body)) (known : L.option w last) :
    L.Obeys c w (Stmt.whileTurn E labels test body last) (Stmt.whileTurn E' labels test body last) L.turn := by
  refine .bind H.expr fun v u first _ => .ite (fun _ => ?_) fun _ => .pure (first.option known)
  exact .bind (statements_obeys H (first.ready ready)) fun _ _ second post =>
    .pure (turn_of_completion ((first.trans second).option known) post)

theorem doTurn_obeys {test : Expr} (ready : L.Ready w (Stmt.varNamesOf body)) (known : L.option w last) :
    L.Obeys c w (Stmt.doTurn E labels body test last) (Stmt.doTurn E' labels body test last) L.turn := by
  refine .bind (statements_obeys H ready) fun r u reached post => ?_
  have after : L.turn u (r.turn labels last) := turn_of_completion (reached.option known) post
  generalize r.turn labels last = next at after ⊢
  cases next with
  | again last =>
    exact .bind H.expr fun _ _ later _ =>
      .ite (fun _ => .pure (later.option after)) fun _ => .pure (later.option after)
  | leave r => exact .pure after

theorem forTurn_obeys {test update : Option Expr} (ready : L.Ready w (Stmt.varNamesOf body)) (known : L.option w last) :
    L.Obeys c w (Stmt.forTurn E labels test update body last) (Stmt.forTurn E' labels test update body last) L.turn := by
  refine .bind (holds_obeys H) fun v u first _ => .ite (fun _ => ?_) fun _ => .pure (first.option known)
  refine .bind (statements_obeys H (first.ready ready)) fun r t second post => ?_
  have after : L.turn t (r.turn labels last) := turn_of_completion ((first.trans second).option known) post
  generalize r.turn labels last = next at after ⊢
  cases next with
  | again last =>
    cases update with
    | none => exact .pure after
    | some e => exact .bind H.expr fun _ _ later _ => .pure (later.option after)
  | leave r => exact .pure after

theorem visitKeys_obeys {target : ForInTarget} {o : ObjectRef} (place : L.Ready w target.names)
    (ready : L.Ready w (Stmt.varNamesOf body)) (known : L.option w last) (names : List String) :
    L.Obeys c w (Stmt.visitKeys E labels target o body names last) (Stmt.visitKeys E' labels target o body names last)
      L.completion := by
  induction names generalizing w last with
  | nil => exact .pure known
  | cons name rest ih =>
    refine .read_bind (fun _ _ => by simp) (.ite (fun _ => ?_) fun _ => ih place ready known)
    refine .bind (forInTarget_obeys H place) fun r u first target => ?_
    refine .bind (assign_obeys H target (L.primitive rfl) (.inl rfl)) fun _ t second _ => ?_
    have both := first.trans second
    refine .bind (statements_obeys H (both.ready ready)) fun r v third post => ?_
    have all := both.trans third
    have after : L.turn v (r.turn labels last) := turn_of_completion (all.option known) post
    generalize r.turn labels last = next at after ⊢
    cases next with
    | again last => exact ih (all.ready place) (all.ready ready) after
    | leave r => exact .pure after

theorem evaluateCatch_obeys {clause : CatchClause} {e : Abrupt} (ready : L.Ready w (Stmt.varNamesOf clause.body))
    (known : L.abrupt w e) :
    L.Obeys c w (Stmt.evaluateCatch E clause e) (Stmt.evaluateCatch E' clause e) (L.except L.completion) := by
  refine .isStrict_bind fun strict mode => .ite (fun _ => .fail (L.permits_kind nofun)) fun _ => ?_
  refine .bind (thrownValue_obeys known) fun v u first held => .read_bind (fun _ _ => by simp) ?_
  have mode := first.mode mode
  refine .bind (.declarativeScope (scope_lexical mode)) fun own t second made => ?_
  have absent : (L.left t).hasBinding own clause.param = false := by
    rw [Store.hasBinding, made.2.1]
    rfl
  refine .bind (createMutable_obeys H made.1 (absent_of_hasBinding absent) (L.declares_fixed t own))
    fun _ _ third bound => ?_
  refine .bind (setMutable_obeys H bound ((second.trans third).value held)) fun _ v fourth _ => ?_
  have later := third.trans fourth
  have all := first.trans (second.trans later)
  have ready := all.ready ready
  refine .inScope ready.running (fun ctx top => ⟨?_, ?_⟩) (.except .completion) fun x le left => ?_
  · rw [← (second.trans later).mode mode ctx top]
    exact later.scope made.1
  · rw [(second.trans later).context?] at top
    exact L.within_mono later.le (made.2.2 ctx.vars (within_lexical top))
  · exact .attempt (statements_obeys H (ready.setLexical le left))

theorem evaluateFinally_obeys {finalizer : List Stmt} {before : Except Abrupt Completion}
    (ready : L.Ready w (Stmt.varNamesOf finalizer)) (known : L.except L.completion w before) :
    L.Obeys c w (Stmt.evaluateFinally E finalizer before) (Stmt.evaluateFinally E' finalizer before) L.completion := by
  refine .bind (statements_obeys H ready) fun r u reached post => ?_
  cases r with
  | normal v => exact .ofExcept (Lasts.except .completion reached.le known)
  | returns v => exact .pure post
  | breaks l => exact .pure post
  | continues l => exact .pure post

theorem evaluateTry_obeys {handler : Option CatchClause} {finalizer : List Stmt}
    (ready : L.Ready w (Stmt.tryCatch body handler finalizer).varNames) :
    L.Obeys c w (Stmt.evaluateTry E body handler finalizer) (Stmt.evaluateTry E' body handler finalizer)
      L.completion := by
  have start : Stmt.varNamesOf body ⊆ (Stmt.tryCatch body handler finalizer).varNames := by
    rcases handler with _ | ⟨_, _⟩ <;> simp [Stmt.varNames]
  have finish : Stmt.varNamesOf finalizer ⊆ (Stmt.tryCatch body handler finalizer).varNames := by
    rcases handler with _ | ⟨_, _⟩ <;> simp [Stmt.varNames]
  refine .bind (.attempt (statements_obeys H (ready.mono start))) fun r u first known => ?_
  have ready := first.ready ready
  cases r with
  | ok r => exact evaluateFinally_obeys H (ready.mono finish) known
  | error e =>
    refine .ite (fun _ => .rethrow known) fun _ => ?_
    cases handler with
    | none => exact evaluateFinally_obeys H (ready.mono finish) known
    | some clause =>
      have inner : Stmt.varNamesOf clause.body ⊆ (Stmt.tryCatch body (some clause) finalizer).varNames := by
        obtain ⟨param, handler⟩ := clause
        simp [Stmt.varNames, CatchClause.body]
      exact .bind (evaluateCatch_obeys H (ready.mono inner) known) fun _ _ second post =>
        evaluateFinally_obeys H (second.ready (ready.mono finish)) post

theorem evaluateStmt_obeys {stmt : Stmt} (ready : L.Ready w stmt.varNames) :
    L.Obeys c w (stmt.evaluate E labels) (stmt.evaluate E' labels) L.completion := by
  cases stmt with
  | empty => exact .pure option_none
  | function code => exact .pure option_none
  | expr e => exact .bind H.expr fun _ _ _ held => .pure (option_some held)
  | declare declarators => exact .bind (declarators_obeys H declarators ready) fun _ _ _ _ => .pure option_none
  | returns value =>
    cases value with
    | none => exact .pure (L.primitive rfl)
    | some e => exact .bind H.expr fun _ _ _ held => .pure held
  | ifElse test consequent alternate =>
    refine .bind H.expr fun _ _ reached _ => ?_
    have ready := reached.ready ready
    exact .ite (fun _ => statements_obeys H (ready.mono (List.subset_append_left ..)))
      fun _ => statements_obeys H (ready.mono (List.subset_append_right ..))
  | block body => exact statements_obeys H ready
  | whileLoop test body =>
    exact goRound_obeys H.budget (fun _ _ reached known => whileTurn_obeys H (reached.ready ready) known) option_none
  | doWhile body test =>
    exact goRound_obeys H.budget (fun _ _ reached known => doTurn_obeys H (reached.ready ready) known) option_none
  | forLoop init test update body =>
    refine .bind (forInit_obeys H (ready.mono (List.subset_append_left ..))) fun _ u first _ => ?_
    have ready := first.ready (ready.mono (List.subset_append_right ..))
    exact goRound_obeys H.budget (fun _ _ reached known => forTurn_obeys H (reached.ready ready) known) option_none
  | forIn target object body =>
    refine .bind H.expr fun v u first held => .ite (fun _ => .pure option_none) fun _ => ?_
    refine .bind (toObject_obeys held) fun o t second _ => .read_bind (fun _ _ => by simp) ?_
    have ready := (first.trans second).ready ready
    exact visitKeys_obeys H (ready.mono (List.subset_append_left ..)) (ready.mono (List.subset_append_right ..))
      option_none _
  | breaks l => exact .pure trivial
  | continues l => exact .pure trivial
  | label name body =>
    refine .bind (H.stmt ready) fun r u reached post => ?_
    split
    · refine .pure ?_
      split
      · exact option_none
      · trivial
    · exact .pure post
  | throws e => exact .bind H.expr fun _ _ _ held => .throwValue held
  | tryCatch body handler finalizer => exact evaluateTry_obeys H ready
  | withObject object body =>
    refine .isStrict_bind fun strict mode => .ite (fun _ => .fail (L.permits_kind nofun)) fun _ => ?_
    refine .bind H.expr fun v u first held => .bind (toObject_obeys held) fun o t second inner => ?_
    refine .read_bind (fun _ _ => by simp) ?_
    have mode := (first.trans second).mode mode
    refine .bind (.objectScope inner (scope_lexical mode)) fun own v third made => ?_
    have ready := ((first.trans second).trans third).ready ready
    refine .inScope ready.running (fun ctx top => ⟨?_, ?_⟩) .completion fun x le left => ?_
    · rw [← third.mode mode ctx top]
      exact made.1
    · rw [third.context?] at top
      exact made.2 ctx.vars (within_lexical top)
    · exact statements_obeys H (ready.setLexical le left)
  | yields value => exact .fail (L.permits_kind nofun)

end Engine

end Law

end Ecma
