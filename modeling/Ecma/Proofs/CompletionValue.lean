import Ecma.Proofs.Execution.Adequacy
import Ecma.Proofs.Law.Program

/-!
# The value of a program

A program ends with the value of an expression statement of its own code, or with undefined. It is the last one that was
executed, as long as no jump has left a list of statements around it since: a jump takes no value along, so all that was
executed in the list is forgotten, and the value is the last one from before. In code without jumps it is always the last.
-/

namespace Ecma

/-- A test holds of the statements of a task. -/
def Task.every (p : Stmt → Bool) : Task → Bool
  | stmt _ st => p st && st.everyIn p
  | list body => Stmt.everyOf p body
  | rounds k => Stmt.everyOf p k.body
  | visits _ _ _ body _ => Stmt.everyOf p body

/-- A loop is left by a jump only if its body was. -/
theorem Exit.isJump_fromLoop {exit exit' : Exit} {labels : List String} (leaves : exit.fromLoop labels = some exit')
    (stays : exit.isJump = false) : exit'.isJump = false := by
  cases exit with
  | ends => cases leaves
  | returns v =>
    cases leaves
    rfl
  | breaks | continues => cases stays

/-- Without jumps nothing is lost. -/
theorem Executes.kept_of_jumpFree {c : Config} {task : Task} {s t : Store} {trace : List Evaluated} {exit : Exit}
    (h : Executes c task s trace exit t) (free : task.every (!·.isJump) = true) :
    exit.isJump = false ∧ ∀ e ∈ trace, e.lost = false := by
  induction h with
  | empty | function | declare | returnsNothing | returns | forNothing | nil | finished | visited =>
    exact ⟨rfl, List.forall_mem_nil _⟩
  | expr => exact ⟨rfl, List.forall_mem_singleton.2 rfl⟩
  | @ifElse _ _ _ _ _ v _ _ _ _ _ _ ih =>
    obtain ⟨first, second⟩ := Bool.and_eq_true_iff.1 free
    refine ih ?_
    cases v.toBoolean with
    | true => exact first
    | false => exact second
  | block _ ih | whileLoop _ ih | doWhile _ ih | forLoop _ _ ih | forIn _ _ _ _ ih | withObject _ _ _ _ ih =>
    exact ih free
  | breaks | continues => cases free
  | label _ _ ih => exact ih free
  | arrives _ ih => cases (ih free).1
  | next _ _ ih others =>
    rw [Task.every, Stmt.everyOf_cons] at free
    obtain ⟨own, rest⟩ := free
    obtain ⟨stays, kept⟩ := others rest
    refine ⟨stays, ?_⟩
    rw [Exit.drops, stays]
    exact List.forall_mem_append.2 ⟨(ih own).2, kept⟩
  | stop _ _ ih =>
    rw [Task.every, Stmt.everyOf_cons] at free
    obtain ⟨stays, kept⟩ := ih free.1
    refine ⟨stays, ?_⟩
    rw [Exit.drops, stays]
    exact kept
  | left _ _ leaves ih | visitLeft _ _ _ leaves ih =>
    obtain ⟨stays, kept⟩ := ih free
    exact ⟨Exit.isJump_fromLoop leaves stays, kept⟩
  | stopped _ _ _ _ _ ih => exact ⟨rfl, (ih free).2⟩
  | again _ _ _ _ _ _ ih more =>
    obtain ⟨stays, kept⟩ := more free
    exact ⟨stays, List.forall_mem_append.2 ⟨(ih free).2, kept⟩⟩
  | passed _ _ ih => exact ih free
  | visit _ _ _ _ _ ih others =>
    obtain ⟨stays, kept⟩ := others free
    exact ⟨stays, List.forall_mem_append.2 ⟨(ih free).2, kept⟩⟩

/-- What is not lost is kept. -/
theorem Evaluated.kept_eq_last {trace : List Evaluated} (safe : ∀ e, trace.getLast? = some e → e.lost = false) :
    kept trace = last trace := by
  rcases List.eq_nil_or_concat trace with rfl | ⟨before, e, rfl⟩
  · rfl
  · have own : e.lost = false := safe e (by simp)
    simp [kept, last, List.filter_append, own]

/-- Nothing is asked of the context that declarations are bound in. -/
theorem ComesTo.of_instantiate {kind : CodeKind} {body : List Stmt} {ctx : Context} {c : Config} {s t : Store} {n : Nat}
    (run : instantiate (.ofBudget n) kind body none c (s.pushContext ctx) = .value () t) :
    ComesTo (instantiate · kind body none) c (s.pushContext ctx) () t :=
  of_obeys (fun _ le => Law.instantiate_obeys (Agreement.engines le) rfl trivial nofun) run

theorem ComesTo.number {c : Config} {s : Store} (x : Float) : ComesTo (·.expr (.number x)) c s (.number x) s :=
  .of_expr (n := 1) rfl

namespace Program

/-- A program is run in a context: there is room for the context, what the program declares is bound, and its statements
are executed to the end. -/
inductive Executed (c : Config) (kind : CodeKind) (p : Program) (ctx : Context) (s : Store) :
    List Evaluated → Store → Prop where
  | mk {t u trace} (room : s.depth < c.maxCallDepth)
      (bound : ComesTo (instantiate · kind p.body none) c (s.pushContext ctx) () t)
      (executed : Executes c (.list p.body) t trace .ends u) : Executed c kind p ctx s trace u.popContext

/-- The context of eval code, and the store that it starts on. Strict code has a scope of its own. -/
def evalEntry (p : Program) (direct : Bool) (s : Store) : Context × Store :=
  let caller := evalCaller s direct
  if p.strict || caller.strict then
    ({ caller with lexical := ⟨s.scopes.size⟩, vars := ⟨s.scopes.size⟩, strict := true },
      s.addScope ⟨.declarative .empty, some caller.lexical⟩)
  else (caller, s)

variable {c : Config} {kind : CodeKind} {p : Program} {ctx : Context} {s t t' : Store} {trace trace' : List Evaluated}
  {v : Value}

theorem Executed.unique (first : p.Executed c kind ctx s trace t) (second : p.Executed c kind ctx s trace' t') :
    trace' = trace ∧ t' = t := by
  obtain ⟨_, bound, executed⟩ := first
  obtain ⟨_, bound', executed'⟩ := second
  obtain ⟨_, rfl⟩ := bound.unique bound'
  obtain ⟨rfl, _, rfl⟩ := executed.unique executed'
  exact ⟨rfl, rfl⟩

/-- A program in a context comes to the last value that its statements kept. -/
theorem evaluateIn_iff (own : Stmt.everyOf (!·.isTry) p.body = true) :
    (∃ n, p.evaluateIn (.ofBudget n) kind ctx c s = .value v t) ↔
      ∃ trace, p.Executed c kind ctx s trace t ∧ v = (Evaluated.kept trace).getD .undefined := by
  constructor
  · rintro ⟨n, run⟩
    obtain ⟨_, entry, entered, run⟩ := Action.exists_of_bind_eq_value run
    have room : s.depth < c.maxCallDepth := by
      refine Nat.lt_of_not_le fun full => ?_
      have refused : Action.enterContext ctx c s = .abrupt (.fault .stackOverflow) s := if_pos full
      rw [refused] at entered
      cases entered
    cases (Action.enterContext_of_room room).symm.trans entered
    obtain ⟨u, ended, rfl⟩ := Action.exists_of_ensuring_eq_value run
    obtain ⟨_, start, bound, ended⟩ := Action.exists_of_bind_eq_value ended
    obtain ⟨r, w, inside, result⟩ := Action.exists_of_bind_eq_value ended
    rw [Stmt.evaluateBody_run] at inside
    obtain ⟨trace, exit, executed, rfl⟩ := Executes.of_evaluateList own inside
    -- Statements that are left before their end make a fault of the program.
    cases exit with
    | ends =>
      cases result
      exact ⟨trace, .mk room (.of_instantiate bound) executed, rfl⟩
    | returns | breaks | continues => cases result
  · rintro ⟨trace, ⟨room, bound, executed⟩, rfl⟩
    have inside := (Task.ComesTo.evaluateList executed.comesTo).of_run_eq fun E => Stmt.evaluateBody_run E p.body
    have entered : Action.enterContext ctx c s = .value () (s.pushContext ctx) := Action.enterContext_of_room room
    have whole : ComesTo (fun E => p.evaluateIn E kind ctx) c s ((Evaluated.kept trace).getD .undefined) _ :=
      (ComesTo.of_run entered).bind ((bound.bind (inside.bind (.of_run rfl))).ensuring Store.popContext)
    obtain ⟨n, enough⟩ := whole
    exact ⟨n, enough n (Nat.le_refl n)⟩

/-- Eval code runs as any other, once its context is there. -/
theorem evaluateEval_run (E : Engine) (p : Program) (direct : Bool) (c : Config) (s : Store) :
    p.evaluateEval E direct c s = p.evaluateIn E .eval (p.evalEntry direct s).1 c (p.evalEntry direct s).2 := by
  rw [evaluateEval, Action.read_bind_run, evalEntry]
  cases p.strict || (evalCaller s direct).strict <;> rfl

/-- The value of a program without `try` in its own code, global or eval code, from any store. A program gives a value
exactly if the statements are executed to the end, and then it is the value of the last expression statement of those that
were executed and not lost, or undefined if there is none. Which ones were executed is determined, and so is which of them
are lost: those in a list of statements that was left by a jump later on. The last one that was executed gives the value
if it is not lost, and where the code has no jumps none is. -/
theorem completion_value (own : Stmt.everyOf (!·.isTry) p.body = true) (c : Config) (s : Store) :
    (∀ v t, (∃ n, p.evaluate (.ofBudget n) c s = .value v t) ↔
      ∃ trace, p.Executed c .global (.global (p.strict || c.strictGlobal)) s trace t ∧
        v = (Evaluated.kept trace).getD .undefined) ∧
    (∀ direct v t, (∃ n, p.evaluateEval (.ofBudget n) direct c s = .value v t) ↔
      ∃ trace, p.Executed c .eval (p.evalEntry direct s).1 (p.evalEntry direct s).2 trace t ∧
        v = (Evaluated.kept trace).getD .undefined) ∧
    ∀ kind ctx s trace t, p.Executed c kind ctx s trace t →
      (∀ trace' t', p.Executed c kind ctx s trace' t' → trace' = trace ∧ t' = t) ∧
      ((∀ e, trace.getLast? = some e → e.lost = false) → Evaluated.kept trace = Evaluated.last trace) ∧
      (Stmt.everyOf (!·.isJump) p.body = true → ∀ e ∈ trace, e.lost = false) := by
  refine ⟨fun v t => evaluateIn_iff own, fun direct v t => ?_, fun kind ctx s trace t executed => ⟨?_, ?_, ?_⟩⟩
  · simp only [evaluateEval_run]
    exact evaluateIn_iff own
  · exact fun _ _ other => executed.unique other
  · exact Evaluated.kept_eq_last
  · intro free
    obtain ⟨_, _, executed⟩ := executed
    exact (executed.kept_of_jumpFree free).2

/-- The program `5; a: { 1; break a }`. -/
def labelled : Program := ⟨[.expr (.number 5), .label "a" (.block [.expr (.number 1), .breaks (some "a")])], false⟩

/-- The jump leaves the block, and the value is the one from before it. -/
theorem completion_value_labelled :
    labelled.Executed .standard .global (.global false) .initial [⟨.number 5, false⟩, ⟨.number 1, true⟩] .initial ∧
    ∃ n, labelled.evaluate (.ofBudget n) .standard .initial = .value (.number 5) .initial := by
  have executed : labelled.Executed .standard .global (.global false) .initial
      [⟨.number 5, false⟩, ⟨.number 1, true⟩] .initial := by
    refine .mk (u := Store.initial.pushContext (.global false)) (by decide) (.of_instantiate (n := 1) rfl) ?_
    exact .next (.expr (.number 5)) (.next (.arrives (.block (.next (.expr (.number 1)) (.stop .breaks nofun)))) .nil)
  exact ⟨executed, ((completion_value rfl .standard .initial).1 _ _).2 ⟨_, executed, rfl⟩⟩

/-- The program `while (true) { 1; break }`. -/
def interrupted : Program := ⟨[.whileLoop (.boolean true) [.expr (.number 1), .breaks none]], false⟩

/-- The value of the last expression statement is lost when the loop is left. -/
theorem completion_value_lost :
    Stmt.everyOf (!·.isTry) interrupted.body = true ∧
    interrupted.evaluate (.ofBudget 5) .standard .initial = .value .undefined .initial ∧
    ∃ trace, interrupted.Executed .standard .global (.global false) .initial trace .initial ∧
      Evaluated.last trace = some (.number 1) := by
  have tested (s : Store) : ComesTo (Stmt.holds · (some (.boolean true))) .standard s true s := .of_holds (n := 1) rfl
  refine ⟨rfl, rfl, [⟨.number 1, true⟩], ?_, rfl⟩
  refine .mk (u := Store.initial.pushContext (.global false)) (by decide) (.of_instantiate (n := 1) rfl) ?_
  exact .next (.whileLoop (.left (tested _) (.next (.expr (.number 1)) (.stop .breaks nofun)) rfl)) .nil

end Program

end Ecma
