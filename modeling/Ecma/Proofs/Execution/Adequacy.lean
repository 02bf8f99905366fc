import Ecma.Proofs.Execution.Rules

/-!
# Evaluation follows the rules

Evaluation carries the last value along, in a budget, where the rules list all values. With a budget that is large enough
it comes to what the rules say, with the last value that was not lost; and whatever code without `try` comes to in some
budget, the rules say. The three kinds of loops that test are one: a loop with a test before each round and one after.
-/

namespace Ecma

theorem later_none (v : Option Value) : later v none = v := by cases v <;> rfl

theorem later_later (new middle old : Option Value) : later new (later middle old) = later (later new middle) old := by
  cases new <;> rfl

namespace Evaluated

variable (trace trace' : List Evaluated)

theorem kept_append : kept (trace ++ trace') = later (kept trace') (kept trace) := by
  rw [kept, List.filter_append, last, List.getLast?_append, kept, last, kept, last]
  cases (trace'.filter (!·.lost)).getLast? <;> rfl

theorem kept_map_drop : kept (trace.map drop) = none := by
  have nothing : (trace.map drop).filter (!·.lost) = [] := by
    rw [List.filter_map, List.map_eq_nil_iff]
    exact List.filter_eq_nil_iff.2 fun _ _ => nofun
  rw [kept, nothing]
  rfl

end Evaluated

namespace Exit

variable {exit : Exit} {trace : List Evaluated}

/-- A jump carries no value, so it does not matter which are lost. -/
theorem completion_drops (last : Option Value) :
    exit.completion (later (Evaluated.kept (exit.drops trace)) last) =
      exit.completion (later (Evaluated.kept trace) last) := by
  cases exit <;> rfl

theorem kept_drops (jump : exit.isJump = true) : Evaluated.kept (exit.drops trace) = none := by
  rw [drops, if_pos jump]
  exact Evaluated.kept_map_drop trace

/-- What a loop makes of its body, whose value is lost when it is left by a jump. -/
theorem turn_completion {v : Option Value} (labels : List String) (last : Option Value)
    (lost : exit.isJump = true → v = none) :
    (exit.completion v).turn labels last =
      match exit.fromLoop labels with
      | none => .again (later v last)
      | some exit' => .leave (exit'.completion (later v last)) := by
  cases exit with
  | ends | returns => rfl
  | breaks l =>
    cases lost rfl
    cases l with
    | none => rfl
    | some l =>
      rw [completion, Completion.turn, fromLoop]
      split <;> rfl
  | continues l =>
    cases lost rfl
    cases l with
    | none => rfl
    | some l =>
      rw [completion, Completion.turn, fromLoop]
      split <;> rfl

theorem not_mem_of_fromLoop {labels : List String} {l : String}
    (leaves : exit.fromLoop labels = some (.breaks (some l))) : l ∉ labels := by
  cases exit with
  | ends | returns => cases leaves
  | continues other =>
    cases other with
    | none => cases leaves
    | some other =>
      rw [fromLoop] at leaves
      split at leaves <;> cases leaves
  | breaks other =>
    cases other with
    | none => cases leaves
    | some other =>
      rw [fromLoop] at leaves
      split at leaves
      · cases leaves
      next outside =>
        cases leaves
        simpa using outside

end Exit

namespace Task

/-- The labels of a loop, which takes up the jumps to them. -/
def loopLabels : Task → List String
  | rounds k => k.labels
  | visits labels .. => labels
  | _ => []

/-- The labels of a statement. -/
def labels : Task → List String
  | stmt labels _ => labels
  | _ => []

end Task

namespace Executes

variable {c : Config} {s t : Store} {trace : List Evaluated} {exit : Exit}

/-- A list of statements that a jump leaves gives no value. -/
theorem kept_list {body : List Stmt} (h : Executes c (.list body) s trace exit t) (jump : exit.isJump = true) :
    Evaluated.kept trace = none := by
  cases h with
  | nil => cases jump
  | next | stop => exact Exit.kept_drops jump

/-- No loop is left by a jump to one of its own labels. -/
theorem not_mem_loopLabels {task : Task} {l : String} (h : Executes c task s trace exit t)
    (jump : exit = .breaks (some l)) : l ∉ task.loopLabels := by
  induction h with
  | finished | stopped | visited => cases jump
  | left _ _ leaves | visitLeft _ _ _ leaves => exact Exit.not_mem_of_fromLoop (jump ▸ leaves)
  | again _ _ _ _ _ _ _ ih | visit _ _ _ _ _ _ ih | passed _ _ ih => exact ih jump
  | _ => exact List.not_mem_nil

/-- A statement that is left by a jump to one of its own labels gives no value: it is no loop, and what it executed was
in a list. -/
theorem kept_of_label {task : Task} {l : String} (h : Executes c task s trace exit t) (jump : exit = .breaks (some l))
    (own : l ∈ task.labels) : Evaluated.kept trace = none := by
  induction h with
  | expr | arrives => cases jump
  | empty | function | declare | returnsNothing | returns | forNothing | breaks | continues => rfl
  | ifElse _ inside | block inside | withObject _ _ _ inside => exact inside.kept_list (jump ▸ rfl)
  | whileLoop rounds | doWhile rounds | forLoop _ rounds => exact absurd own (rounds.not_mem_loopLabels jump)
  | forIn _ _ _ visits => exact absurd own (visits.not_mem_loopLabels jump)
  | label _ _ ih => exact ih jump (List.mem_append_left _ own)
  | _ => cases own

end Executes

namespace Cycle

/-- What a loop does after its body, if that does not make it leave. -/
def onward (E : Engine) (k : Cycle) : Turn → Action Turn
  | .again last => do
    k.update.evaluate E
    if ← Stmt.holds E k.after then pure (.again last) else pure (.leave (.normal last))
  | .leave r => pure (.leave r)

/-- One round of a loop. -/
def turn (E : Engine) (k : Cycle) (last : Option Value) : Action Turn := do
  if ← Stmt.holds E k.before then k.onward E ((← Stmt.evaluateList E k.body).turn k.labels last)
  else pure (.leave (.normal last))

variable (E : Engine) (labels : List String) (body : List Stmt)

theorem turn_ofWhile (test : Expr) : (ofWhile labels test body).turn E = Stmt.whileTurn E labels test body := by
  funext last
  simp only [turn, ofWhile, Stmt.whileTurn, Stmt.holds, bind_assoc, pure_bind]
  refine bind_congr fun v => ?_
  cases v.toBoolean with
  | false => rfl
  | true =>
    rw [if_pos rfl, if_pos rfl]
    refine bind_congr fun r => ?_
    cases r.turn labels last <;> rfl

theorem turn_ofDo (test : Expr) : (ofDo labels body test).turn E = Stmt.doTurn E labels body test := by
  funext last
  simp only [turn, ofDo, Stmt.doTurn, Stmt.holds, pure_bind, if_true]
  refine bind_congr fun r => ?_
  cases r.turn labels last with
  | leave => rfl
  | again last =>
    simp only [onward, ForInit.evaluate, Stmt.holds, pure_bind, bind_assoc]

theorem turn_ofFor (test update : Option Expr) :
    (ofFor labels test update body).turn E = Stmt.forTurn E labels test update body := by
  funext last
  simp only [turn, ofFor, Stmt.forTurn]
  refine bind_congr fun b => ?_
  cases b with
  | false => rfl
  | true =>
    rw [if_pos rfl, if_pos rfl]
    refine bind_congr fun r => ?_
    cases r.turn labels last with
    | leave => rfl
    | again last =>
      cases update with
      | none => rfl
      | some e => simp only [onward, Option.elim, ForInit.evaluate, Stmt.holds, bind_assoc, pure_bind, if_true]

end Cycle

/-- What is left of a run when all that is known is how it was left and the last value that was kept: with a budget that
is large enough, evaluation ends so. A list or loop that starts with a value keeps that one unless it has a later one. -/
def Task.ComesTo (c : Config) (s : Store) (trace : List Evaluated) (exit : Exit) (t : Store) : Task → Prop
  | stmt labels st => Ecma.ComesTo (·.stmt labels st) c s (exit.completion (Evaluated.kept trace)) t
  | list body => ∀ last,
    Ecma.ComesTo (Stmt.evaluateFrom · body last) c s (exit.completion (later (Evaluated.kept trace) last)) t
  | rounds k => ∀ last, ∃ n, ∀ m, n ≤ m → ∀ budget, n ≤ budget →
    goRound (k.turn (.ofBudget m)) budget last c s = .value (exit.completion (later (Evaluated.kept trace) last)) t
  | visits labels target o body names => ∀ last,
    Ecma.ComesTo (Stmt.visitKeys · labels target o body names last) c s
      (exit.completion (later (Evaluated.kept trace) last)) t

namespace Cycle

variable {k : Cycle} {c : Config} {s t u w : Store} {last : Option Value}

theorem turn_comesTo {r : Completion} {next : Turn} (tested : ComesTo (Stmt.holds · k.before) c s true t)
    (inside : ComesTo (Stmt.evaluateList · k.body) c t r u)
    (after : ComesTo (k.onward · (r.turn k.labels last)) c u next w) : ComesTo (k.turn · last) c s next w :=
  tested.bind (inside.bind after)

/-- A loop that is left after a round. -/
theorem goRound_leave {r : Completion} (turned : ComesTo (k.turn · last) c s (.leave r) t) :
    ∃ n, ∀ m, n ≤ m → ∀ budget, n ≤ budget → goRound (k.turn (.ofBudget m)) budget last c s = .value r t := by
  obtain ⟨n, turned⟩ := turned
  refine ⟨n + 1, fun m le budget enough => ?_⟩
  obtain ⟨b, rfl⟩ : ∃ b, budget = b + 1 := ⟨budget - 1, by omega⟩
  rw [goRound, Action.bind_run (turned m (by omega))]
  rfl

/-- A loop that goes on after a round. -/
theorem goRound_again {last' : Option Value} {r : Completion} (turned : ComesTo (k.turn · last) c s (.again last') t)
    (more : ∃ n, ∀ m, n ≤ m → ∀ budget, n ≤ budget → goRound (k.turn (.ofBudget m)) budget last' c t = .value r u) :
    ∃ n, ∀ m, n ≤ m → ∀ budget, n ≤ budget → goRound (k.turn (.ofBudget m)) budget last c s = .value r u := by
  obtain ⟨n, turned⟩ := turned
  obtain ⟨n', more⟩ := more
  -- The rounds that are left are counted apart from the budget of each, which stays the same.
  refine ⟨max n n' + 1, fun m le budget enough => ?_⟩
  obtain ⟨b, rfl⟩ : ∃ b, budget = b + 1 := ⟨budget - 1, by omega⟩
  rw [goRound, Action.bind_run (turned m (by omega))]
  exact more m (by omega) b (by omega)

end Cycle

namespace Stmt

variable (E : Engine) (labels : List String) (body : List Stmt)

theorem evaluate_withObject (object : Expr) :
    evaluate E labels (.withObject object body) = (do
      if ← .isStrict then .fail .strictWith
      else
        let v ← E.expr object
        let previous ← v.enterWith
        (evaluateList E body).ensuring (·.setLexical previous)) := by
  simp only [evaluate, Value.enterWith, Action.inScope, bind_assoc]

theorem visitKeys_cons (target : ForInTarget) (o : ObjectRef) (name : String) (rest : List String) (last : Option Value) :
    visitKeys E labels target o body (name :: rest) last = (do
      if (← .read (·.getProperty? o name)).any (·.enumerable) then
        target.assign E name
        match (← evaluateList E body).turn labels last with
        | .again last => visitKeys E labels target o body rest last
        | .leave r => pure r
      else visitKeys E labels target o body rest last) := by
  rw [visitKeys]
  refine bind_congr fun found => ?_
  cases found.any (·.enumerable) with
  | false => rfl
  | true =>
    rewrite [if_pos rfl, if_pos rfl, ForInTarget.assign, bind_assoc]
    rfl

end Stmt

namespace Task.ComesTo

variable {c : Config} {s t u : Store} {trace : List Evaluated} {exit : Exit}

theorem evaluateList {body : List Stmt} (h : (Task.list body).ComesTo c s trace exit t) :
    Ecma.ComesTo (Stmt.evaluateList · body) c s (exit.completion (Evaluated.kept trace)) t := by
  have start := h none
  rw [later_none] at start
  exact start

/-- A loop as a statement has no value to start with, and goes round as often as its budget allows. -/
theorem goRound {k : Cycle} {turn : Engine → Option Value → Action Turn} (h : (Task.rounds k).ComesTo c s trace exit t)
    (same : ∀ E, k.turn E = turn E) :
    Ecma.ComesTo (fun E => Ecma.goRound (turn E) E.budget none) c s (exit.completion (Evaluated.kept trace)) t := by
  obtain ⟨n, enough⟩ := h none
  rw [later_none] at enough
  refine ⟨n, fun m le => ?_⟩
  dsimp only
  rw [Engine.budget_ofBudget, ← same]
  exact enough m le m le

end Task.ComesTo

/-- Whatever the rules say, evaluation does. -/
theorem Executes.comesTo {c : Config} {task : Task} {s t : Store} {trace : List Evaluated} {exit : Exit}
    (h : Executes c task s trace exit t) : task.ComesTo c s trace exit t := by
  induction h with
  | empty | function | returnsNothing | breaks | continues => exact .of_stmt (.of_run rfl)
  | expr value => exact .of_stmt (value.bind (.of_run rfl))
  | declare done => exact .of_stmt (done.bind (.of_run rfl))
  | returns value => exact .of_stmt (value.bind (.of_run rfl))
  | @ifElse _ _ _ _ _ v _ _ _ _ tested _ ih =>
    refine .of_stmt (tested.bind ?_)
    have branch := Task.ComesTo.evaluateList ih
    cases truth : v.toBoolean with
    | true =>
      rw [truth] at branch
      exact branch
    | false =>
      rw [truth] at branch
      exact branch
  | block _ ih => exact .of_stmt (Task.ComesTo.evaluateList ih)
  | whileLoop _ ih => exact .of_stmt (Task.ComesTo.goRound ih fun E => Cycle.turn_ofWhile E ..)
  | doWhile _ ih => exact .of_stmt (Task.ComesTo.goRound ih fun E => Cycle.turn_ofDo E ..)
  | forLoop first _ ih => exact .of_stmt (first.bind (Task.ComesTo.goRound ih fun E => Cycle.turn_ofFor E ..))
  | forNothing value nullish =>
    refine .of_stmt (value.bind ?_)
    rw [nullish]
    exact .of_run rfl
  | forIn value present wrapped _ ih =>
    have names := ih none
    rw [later_none] at names
    refine .of_stmt (value.bind ?_)
    rw [present]
    exact (ComesTo.of_run wrapped).bind names
  | @label _ name _ _ _ exit _ _ other ih =>
    refine .of_stmt (ComesTo.bind ih ?_)
    cases exit with
    | ends | returns | continues => exact .of_run rfl
    | breaks l =>
      cases l with
      | none => exact .of_run rfl
      | some l =>
        have apart : l ≠ name := fun same => other (congrArg (Exit.breaks ∘ some) same)
        dsimp only [Exit.completion]
        rw [if_neg apart]
        exact .of_run rfl
  | arrives inside ih =>
    refine .of_stmt (ComesTo.bind ih ?_)
    dsimp only [Exit.completion]
    rw [if_pos rfl, inside.kept_of_label rfl (List.mem_append_right _ (List.mem_singleton_self _))]
    exact .of_run rfl
  | withObject lenient value entered _ ih =>
    refine .of_stmt ?_
    simp only [Stmt.evaluate_withObject]
    refine (ComesTo.of_run lenient).bind (value.bind ((ComesTo.of_run entered).bind ?_))
    exact (Task.ComesTo.evaluateList ih).ensuring _
  | nil => exact fun last => .of_run rfl
  | @next _ _ _ trace _ trace' exit _ _ _ first others =>
    intro last
    have rest := others (later (Evaluated.kept trace) last)
    rw [later_later, ← Evaluated.kept_append, ← Exit.completion_drops] at rest
    exact ComesTo.bind first rest
  | @stop _ _ _ trace exit _ _ early first =>
    intro last
    refine ComesTo.bind first ?_
    cases exit with
    | ends => exact absurd rfl early
    | returns | breaks | continues => exact .of_run rfl
  | finished tested => exact fun last => Cycle.goRound_leave (tested.bind (.of_run rfl))
  | left tested inside leaves ih =>
    refine fun last => Cycle.goRound_leave (Cycle.turn_comesTo tested (Task.ComesTo.evaluateList ih) ?_)
    rw [Exit.turn_completion _ _ inside.kept_list, leaves]
    exact .of_run rfl
  | stopped tested inside stays updated retested ih =>
    refine fun last => Cycle.goRound_leave (Cycle.turn_comesTo tested (Task.ComesTo.evaluateList ih) ?_)
    rw [Exit.turn_completion _ _ inside.kept_list, stays]
    exact updated.bind (retested.bind (.of_run rfl))
  | @again _ _ _ trace _ _ _ _ trace' _ _ tested inside stays updated retested _ ih more =>
    intro last
    have rest := more (later (Evaluated.kept trace) last)
    rw [later_later, ← Evaluated.kept_append] at rest
    refine Cycle.goRound_again (Cycle.turn_comesTo tested (Task.ComesTo.evaluateList ih) ?_) rest
    rw [Exit.turn_completion _ _ inside.kept_list, stays]
    exact updated.bind (retested.bind (.of_run rfl))
  | visited => exact fun last => .of_run rfl
  | passed hidden _ ih =>
    intro last
    simp only [Stmt.visitKeys_cons]
    refine (ComesTo.of_run rfl).bind ?_
    rw [hidden]
    exact ih last
  | visitLeft shown assigned inside leaves ih =>
    intro last
    simp only [Stmt.visitKeys_cons]
    refine (ComesTo.of_run rfl).bind ?_
    rw [shown]
    refine assigned.bind ((Task.ComesTo.evaluateList ih).bind ?_)
    rw [Exit.turn_completion _ _ inside.kept_list, leaves]
    exact .of_run rfl
  | @visit _ _ _ _ _ _ _ _ trace _ _ trace' _ _ shown assigned inside stays _ ih others =>
    intro last
    have rest := others (later (Evaluated.kept trace) last)
    rw [later_later, ← Evaluated.kept_append] at rest
    simp only [Stmt.visitKeys_cons]
    refine (ComesTo.of_run rfl).bind ?_
    rw [shown]
    refine assigned.bind ((Task.ComesTo.evaluateList ih).bind ?_)
    rw [Exit.turn_completion _ _ inside.kept_list, stays]
    exact rest

mutual

/-- A test holds of all statements in a statement that are part of the same code. -/
def Stmt.everyIn (p : Stmt → Bool) : Stmt → Bool
  | .ifElse _ consequent alternate => Stmt.everyOf p consequent && Stmt.everyOf p alternate
  | .block body | .withObject _ body => Stmt.everyOf p body
  | .whileLoop _ body | .doWhile body _ | .forLoop _ _ _ body | .forIn _ _ body => Stmt.everyOf p body
  | .label _ body => p body && body.everyIn p
  | .tryCatch body none finalizer => Stmt.everyOf p body && Stmt.everyOf p finalizer
  | .tryCatch body (some (.mk _ handler)) finalizer =>
    Stmt.everyOf p body && Stmt.everyOf p handler && Stmt.everyOf p finalizer
  | _ => true

/-- A test holds of all statements of some code. -/
def Stmt.everyOf (p : Stmt → Bool) : List Stmt → Bool
  | [] => true
  | stmt :: rest => p stmt && stmt.everyIn p && Stmt.everyOf p rest

end

namespace Stmt

def isTry : Stmt → Bool
  | tryCatch .. => true
  | _ => false

def isJump : Stmt → Bool
  | breaks _ | continues _ => true
  | _ => false

theorem everyOf_cons {p : Stmt → Bool} {stmt : Stmt} {rest : List Stmt} :
    everyOf p (stmt :: rest) = true ↔ (p stmt && stmt.everyIn p) = true ∧ everyOf p rest = true :=
  Bool.and_eq_true_iff

end Stmt

/-- What is done at the end of an action comes after it. -/
theorem Action.exists_of_ensuring_eq_value {α : Type} {x : Action α} {cleanup : Store → Store} {c : Config} {s t : Store}
    {a : α} (run : x.ensuring cleanup c s = .value a t) : ∃ u, x c s = .value a u ∧ cleanup u = t := by
  change (x c s).cleaned cleanup = _ at run
  cases ended : x c s with
  | value b u =>
    rw [ended] at run
    cases run
    exact ⟨u, rfl, rfl⟩
  | abrupt | exhausted =>
    rw [ended] at run
    cases run

/-- Whatever statements without `try` come to within a budget, the rules say. -/
def Executes.Covers (c : Config) (n : Nat) : Prop :=
  ∀ ⦃labels stmt s r t⦄, (!stmt.isTry && stmt.everyIn (!·.isTry)) = true →
    (Engine.ofBudget n).stmt labels stmt c s = .value r t →
    ∃ trace exit, Executes c (.stmt labels stmt) s trace exit t ∧ r = exit.completion (Evaluated.kept trace)

namespace Executes.Covers

variable {c : Config} {n : Nat} {s t : Store} {body : List Stmt} {last : Option Value} {r : Completion}
variable (H : Covers c n) (free : Stmt.everyOf (!·.isTry) body = true)
include H free

theorem list (run : Stmt.evaluateFrom (.ofBudget n) body last c s = .value r t) :
    ∃ trace exit, Executes c (.list body) s trace exit t ∧ r = exit.completion (later (Evaluated.kept trace) last) := by
  induction body generalizing s last with
  | nil =>
    cases run
    exact ⟨[], .ends, .nil, rfl⟩
  | cons stmt rest ih =>
    obtain ⟨own, others⟩ := Stmt.everyOf_cons.1 free
    obtain ⟨_, u, first, run⟩ := Action.exists_of_bind_eq_value run
    obtain ⟨trace, exit, executed, rfl⟩ := H own first
    cases exit with
    | ends =>
      obtain ⟨trace', exit', executed', rfl⟩ := ih others run
      refine ⟨_, exit', .next executed executed', ?_⟩
      rw [later_later, ← Evaluated.kept_append, Exit.completion_drops]
    | returns | breaks | continues =>
      cases run
      exact ⟨_, _, .stop executed nofun, rfl⟩

theorem list_none (run : Stmt.evaluateList (.ofBudget n) body c s = .value r t) :
    ∃ trace exit, Executes c (.list body) s trace exit t ∧ r = exit.completion (Evaluated.kept trace) := by
  obtain ⟨trace, exit, executed, same⟩ := H.list free run
  rw [later_none] at same
  exact ⟨trace, exit, executed, same⟩

theorem rounds {k : Cycle} (looped : k.body = body) {budget : Nat}
    (run : goRound (k.turn (.ofBudget n)) budget last c s = .value r t) :
    ∃ trace exit, Executes c (.rounds k) s trace exit t ∧ r = exit.completion (later (Evaluated.kept trace) last) := by
  subst looped
  -- By the number of rounds that are left; the last value changes from round to round.
  induction budget generalizing s last with
  | zero => cases run
  | succ budget ih =>
    obtain ⟨next, u, turned, run⟩ := Action.exists_of_bind_eq_value run
    obtain ⟨holds, v, tested, turned⟩ := Action.exists_of_bind_eq_value turned
    have tested := ComesTo.of_holds tested
    cases holds with
    | false =>
      cases turned
      cases run
      exact ⟨[], .ends, .finished tested, rfl⟩
    | true =>
      obtain ⟨_, w, inside, turned⟩ := Action.exists_of_bind_eq_value turned
      obtain ⟨trace, exit, executed, rfl⟩ := H.list_none free inside
      rw [Exit.turn_completion _ _ executed.kept_list] at turned
      cases step : exit.fromLoop k.labels with
      | some exit' =>
        rw [step] at turned
        cases turned
        cases run
        exact ⟨trace, exit', .left tested executed step, rfl⟩
      | none =>
        rw [step] at turned
        obtain ⟨_, x, updated, turned⟩ := Action.exists_of_bind_eq_value turned
        obtain ⟨holds, y, retested, turned⟩ := Action.exists_of_bind_eq_value turned
        have updated := ComesTo.of_init updated
        have retested := ComesTo.of_holds retested
        cases holds with
        | false =>
          cases turned
          cases run
          exact ⟨trace, .ends, .stopped tested executed step updated retested, rfl⟩
        | true =>
          cases turned
          obtain ⟨trace', exit', more, rfl⟩ := ih run
          refine ⟨_, exit', .again tested executed step updated retested more, ?_⟩
          rw [later_later, ← Evaluated.kept_append]

theorem visits {labels : List String} {target : ForInTarget} {o : ObjectRef} {names : List String}
    (run : Stmt.visitKeys (.ofBudget n) labels target o body names last c s = .value r t) :
    ∃ trace exit, Executes c (.visits labels target o body names) s trace exit t ∧
      r = exit.completion (later (Evaluated.kept trace) last) := by
  induction names generalizing s last with
  | nil =>
    cases run
    exact ⟨[], .ends, .visited, rfl⟩
  | cons name rest ih =>
    rw [Stmt.visitKeys_cons, Action.read_bind_run] at run
    cases shown : (s.getProperty? o name).any (·.enumerable) with
    | false =>
      rw [shown] at run
      obtain ⟨trace, exit, executed, same⟩ := ih run
      exact ⟨trace, exit, .passed shown executed, same⟩
    | true =>
      rw [shown] at run
      obtain ⟨_, u, assigned, run⟩ := Action.exists_of_bind_eq_value run
      obtain ⟨_, w, inside, run⟩ := Action.exists_of_bind_eq_value run
      have assigned := ComesTo.of_assign assigned
      obtain ⟨trace, exit, executed, rfl⟩ := H.list_none free inside
      rw [Exit.turn_completion _ _ executed.kept_list] at run
      cases step : exit.fromLoop labels with
      | some exit' =>
        rw [step] at run
        cases run
        exact ⟨trace, exit', .visitLeft shown assigned executed step, rfl⟩
      | none =>
        rw [step] at run
        obtain ⟨trace', exit', more, rfl⟩ := ih run
        refine ⟨_, exit', .visit shown assigned executed step more, ?_⟩
        rw [later_later, ← Evaluated.kept_append]

omit free in
/-- A loop as a statement starts without a value. -/
theorem loop (k : Cycle) {turn : Engine → Option Value → Action Turn} (free : Stmt.everyOf (!·.isTry) k.body = true)
    (same : ∀ E, k.turn E = turn E)
    (run : goRound (turn (.ofBudget n)) (Engine.ofBudget n).budget none c s = .value r t) :
    ∃ trace exit, Executes c (.rounds k) s trace exit t ∧ r = exit.completion (Evaluated.kept trace) := by
  rw [← same] at run
  obtain ⟨trace, exit, executed, result⟩ := H.rounds free rfl run
  rw [later_none] at result
  exact ⟨trace, exit, executed, result⟩

omit free in
/-- One level of a statement. -/
theorem step : Covers c (n + 1) := by
  intro labels stmt s r t own run
  obtain ⟨kind, inner⟩ := Bool.and_eq_true_iff.1 own
  change stmt.evaluate (.ofBudget n) labels c s = .value r t at run
  cases stmt with
  | empty =>
    cases run
    exact ⟨[], .ends, .empty, rfl⟩
  | function code =>
    cases run
    exact ⟨[], .ends, .function, rfl⟩
  | expr e =>
    obtain ⟨v, u, value, run⟩ := Action.exists_of_bind_eq_value run
    cases run
    exact ⟨[⟨v, false⟩], .ends, .expr (.of_expr value), rfl⟩
  | declare declarators =>
    obtain ⟨_, u, done, run⟩ := Action.exists_of_bind_eq_value run
    cases run
    exact ⟨[], .ends, .declare (.of_declarators done), rfl⟩
  | returns value =>
    cases value with
    | none =>
      cases run
      exact ⟨[], .returns .undefined, .returnsNothing, rfl⟩
    | some e =>
      obtain ⟨v, u, value, run⟩ := Action.exists_of_bind_eq_value run
      cases run
      exact ⟨[], .returns v, .returns (.of_expr value), rfl⟩
  | ifElse test consequent alternate =>
    obtain ⟨v, u, tested, run⟩ := Action.exists_of_bind_eq_value run
    obtain ⟨first, second⟩ := Bool.and_eq_true_iff.1 inner
    have branch : ∃ trace exit,
        Executes c (.list (if v.toBoolean then consequent else alternate)) u trace exit t ∧
          r = exit.completion (Evaluated.kept trace) := by
      cases truth : v.toBoolean with
      | true =>
        rw [truth] at run
        exact H.list_none first run
      | false =>
        rw [truth] at run
        exact H.list_none second run
    obtain ⟨trace, exit, executed, same⟩ := branch
    exact ⟨trace, exit, .ifElse (.of_expr tested) executed, same⟩
  | block body =>
    obtain ⟨trace, exit, executed, same⟩ := H.list_none inner run
    exact ⟨trace, exit, .block executed, same⟩
  | whileLoop test body =>
    obtain ⟨trace, exit, executed, same⟩ :=
      H.loop (.ofWhile labels test body) inner (Cycle.turn_ofWhile · labels body test) run
    exact ⟨trace, exit, .whileLoop executed, same⟩
  | doWhile body test =>
    obtain ⟨trace, exit, executed, same⟩ :=
      H.loop (.ofDo labels body test) inner (Cycle.turn_ofDo · labels body test) run
    exact ⟨trace, exit, .doWhile executed, same⟩
  | forLoop init test update body =>
    obtain ⟨_, u, first, run⟩ := Action.exists_of_bind_eq_value run
    obtain ⟨trace, exit, executed, same⟩ :=
      H.loop (.ofFor labels test update body) inner (Cycle.turn_ofFor · labels body test update) run
    exact ⟨trace, exit, .forLoop (.of_init first) executed, same⟩
  | forIn target object body =>
    obtain ⟨v, u, value, run⟩ := Action.exists_of_bind_eq_value run
    cases nullish : v.isNullish with
    | true =>
      rw [nullish] at run
      cases run
      exact ⟨[], .ends, .forNothing (.of_expr value) nullish, rfl⟩
    | false =>
      rw [nullish] at run
      obtain ⟨o, w, wrapped, run⟩ := Action.exists_of_bind_eq_value run
      rw [Action.read_bind_run] at run
      obtain ⟨trace, exit, executed, same⟩ := H.visits inner run
      rw [later_none] at same
      exact ⟨trace, exit, .forIn (.of_expr value) nullish wrapped executed, same⟩
  | breaks l =>
    cases run
    exact ⟨[], .breaks l, .breaks, rfl⟩
  | continues l =>
    cases run
    exact ⟨[], .continues l, .continues, rfl⟩
  | label name body =>
    obtain ⟨_, u, inside, run⟩ := Action.exists_of_bind_eq_value run
    obtain ⟨trace, exit, executed, rfl⟩ := H inner inside
    cases exit with
    | ends | returns | continues =>
      cases run
      exact ⟨trace, _, .label executed nofun, rfl⟩
    | breaks l =>
      cases l with
      | none =>
        cases run
        exact ⟨trace, _, .label executed nofun, rfl⟩
      | some l =>
        cases run
        by_cases own : l = name
        · subst own
          refine ⟨trace, .ends, .arrives executed, ?_⟩
          rw [if_pos rfl, executed.kept_of_label rfl (List.mem_append_right _ (List.mem_singleton_self _))]
          rfl
        · refine ⟨trace, _, .label executed ?_, if_neg own⟩
          rintro ⟨⟩
          exact own rfl
  | throws e =>
    obtain ⟨v, u, value, run⟩ := Action.exists_of_bind_eq_value run
    cases run
  | tryCatch body handler finalizer => cases kind
  | withObject object body =>
    rw [Stmt.evaluate_withObject] at run
    obtain ⟨strict, u, lenient, run⟩ := Action.exists_of_bind_eq_value run
    cases strict with
    | true => cases run
    | false =>
      obtain ⟨_, rfl⟩ := Outcome.value.inj lenient
      obtain ⟨v, u, value, run⟩ := Action.exists_of_bind_eq_value run
      obtain ⟨previous, w, entered, run⟩ := Action.exists_of_bind_eq_value run
      obtain ⟨x, ended, rfl⟩ := Action.exists_of_ensuring_eq_value run
      obtain ⟨trace, exit, executed, same⟩ := H.list_none inner ended
      exact ⟨trace, exit, .withObject lenient (.of_expr value) entered executed, same⟩
  | yields value => cases run

omit H free in
theorem all (c : Config) (n : Nat) : Covers c n := by
  induction n with
  | zero =>
    intro labels stmt s r t own run
    cases run
  | succ n ih => exact ih.step

end Executes.Covers

/-- Whatever code without `try` comes to, the rules say. -/
theorem Executes.of_evaluateList {c : Config} {n : Nat} {body : List Stmt} {s t : Store} {r : Completion}
    (free : Stmt.everyOf (!·.isTry) body = true) (run : Stmt.evaluateList (.ofBudget n) body c s = .value r t) :
    ∃ trace exit, Executes c (.list body) s trace exit t ∧ r = exit.completion (Evaluated.kept trace) :=
  (Covers.all c n).list_none free run

end Ecma
