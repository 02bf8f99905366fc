import Ecma.Proofs.Generator.Emission

/-!
# The rules of statements

How statements run, said without a budget and without a value that is carried along: an inductive relation between the
stores before and after, how the statements were left, and the values of the expression statements that were executed on
the way, in order. There are no rules for `try`, `throw` and `yield`, as the rules tell only of runs in which nothing is
thrown. Where a list of statements is left by a jump, the values of all that was executed in it are lost.
-/

namespace Ecma

/-- With every budget that is large enough, an action ends with a value. -/
def ComesTo {α : Type} (x : Engine → Action α) (c : Config) (s : Store) (a : α) (t : Store) : Prop :=
  ∃ n, ∀ m, n ≤ m → x (.ofBudget m) c s = .value a t

/-- The value of an expression statement that was executed, and whether a list of statements that it lies in was left by
a jump since. -/
structure Evaluated where
  value : Value
  lost : Bool

namespace Evaluated

def drop (e : Evaluated) : Evaluated := { e with lost := true }

/-- The value of the last expression statement. -/
def last (trace : List Evaluated) : Option Value := trace.getLast?.map (·.value)

/-- The value of the last expression statement that is not lost. -/
def kept (trace : List Evaluated) : Option Value := last (trace.filter (!·.lost))

end Evaluated

/-- How statements are left. -/
inductive Exit where
  | ends
  | returns (v : Value)
  | breaks (label : Option String)
  | continues (label : Option String)

namespace Exit

def isJump : Exit → Bool
  | ends | returns _ => false
  | breaks _ | continues _ => true

/-- What becomes of the values of a list of statements when the list is left. -/
def drops (exit : Exit) (trace : List Evaluated) : List Evaluated :=
  if exit.isJump then trace.map .drop else trace

/-- How a loop is left when its body is left so, if it does not go on. -/
def fromLoop (labels : List String) : Exit → Option Exit
  | ends | continues none => none
  | breaks none => some ends
  | continues (some l) => if labels.contains l then none else some (continues (some l))
  | breaks (some l) => if labels.contains l then some ends else some (breaks (some l))
  | returns v => some (returns v)

/-- How an evaluation ends that was left so, with a last value. -/
def completion (last : Option Value) : Exit → Completion
  | ends => .normal last
  | returns v => .returns v
  | breaks l => .breaks l
  | continues l => .continues l

end Exit

/-- A loop with tests before and after each round. A test that is not there holds. -/
structure Cycle where
  labels : List String
  before : Option Expr
  body : List Stmt
  update : ForInit
  after : Option Expr

namespace Cycle

def ofWhile (labels : List String) (test : Expr) (body : List Stmt) : Cycle := ⟨labels, some test, body, .nothing, none⟩

def ofDo (labels : List String) (body : List Stmt) (test : Expr) : Cycle := ⟨labels, none, body, .nothing, some test⟩

def ofFor (labels : List String) (test update : Option Expr) (body : List Stmt) : Cycle :=
  ⟨labels, test, body, update.elim .nothing .expr, none⟩

end Cycle

/-- What there is to execute. -/
inductive Task where
  | stmt (labels : List String) (stmt : Stmt)
  | list (body : List Stmt)
  | rounds (k : Cycle)
  /-- The names that a `for`-`in` loop has still to visit. -/
  | visits (labels : List String) (target : ForInTarget) (o : ObjectRef) (body : List Stmt) (names : List String)

/-- Gives the next name of a `for`-`in` loop to where it goes. -/
def ForInTarget.assign (E : Engine) (target : ForInTarget) (name : String) : Action Unit := do
  let r ← target.reference E
  r.assign E true (.ofString name)

/-- Enters the scope of a `with` statement, and gives the one before. -/
def Value.enterWith (v : Value) : Action ScopeRef := do
  let o ← v.toObject
  let scope ← .objectScope o true (some (← .read (·.lexicalScope)))
  .enterScope scope

/-- What is executed, from a store on, evaluates expression statements one after the other, is left, and leaves a
store. -/
inductive Executes (c : Config) : Task → Store → List Evaluated → Exit → Store → Prop where
  | empty {labels s} : Executes c (.stmt labels .empty) s [] .ends s
  | function {labels code s} : Executes c (.stmt labels (.function code)) s [] .ends s
  | expr {labels e s v t} (value : ComesTo (·.expr e) c s v t) :
    Executes c (.stmt labels (.expr e)) s [⟨v, false⟩] .ends t
  | declare {labels declarators s t} (done : ComesTo (Declarator.evaluateList · declarators) c s () t) :
    Executes c (.stmt labels (.declare declarators)) s [] .ends t
  | returnsNothing {labels s} : Executes c (.stmt labels (.returns none)) s [] (.returns .undefined) s
  | returns {labels e s v t} (value : ComesTo (·.expr e) c s v t) :
    Executes c (.stmt labels (.returns (some e))) s [] (.returns v) t
  | ifElse {labels test consequent alternate s v t trace exit u} (tested : ComesTo (·.expr test) c s v t)
      (branch : Executes c (.list (if v.toBoolean then consequent else alternate)) t trace exit u) :
    Executes c (.stmt labels (.ifElse test consequent alternate)) s trace exit u
  | block {labels body s trace exit t} (inside : Executes c (.list body) s trace exit t) :
    Executes c (.stmt labels (.block body)) s trace exit t
  | whileLoop {labels test body s trace exit t}
      (rounds : Executes c (.rounds (.ofWhile labels test body)) s trace exit t) :
    Executes c (.stmt labels (.whileLoop test body)) s trace exit t
  | doWhile {labels body test s trace exit t} (rounds : Executes c (.rounds (.ofDo labels body test)) s trace exit t) :
    Executes c (.stmt labels (.doWhile body test)) s trace exit t
  | forLoop {labels init test update body s t trace exit u} (first : ComesTo (init.evaluate ·) c s () t)
      (rounds : Executes c (.rounds (.ofFor labels test update body)) t trace exit u) :
    Executes c (.stmt labels (.forLoop init test update body)) s trace exit u
  | forNothing {labels target object body s v t} (value : ComesTo (·.expr object) c s v t)
      (nullish : v.isNullish = true) : Executes c (.stmt labels (.forIn target object body)) s [] .ends t
  | forIn {labels target object body s v t o u trace exit w} (value : ComesTo (·.expr object) c s v t)
      (present : v.isNullish = false) (wrapped : v.toObject c t = .value o u)
      (visits : Executes c (.visits labels target o body (u.enumerableKeys o)) u trace exit w) :
    Executes c (.stmt labels (.forIn target object body)) s trace exit w
  | breaks {labels label s} : Executes c (.stmt labels (.breaks label)) s [] (.breaks label) s
  | continues {labels label s} : Executes c (.stmt labels (.continues label)) s [] (.continues label) s
  | label {labels name body s trace exit t} (inside : Executes c (.stmt (labels ++ [name]) body) s trace exit t)
      (other : exit ≠ .breaks (some name)) : Executes c (.stmt labels (.label name body)) s trace exit t
  /-- A jump to the end of a statement that carries its label. -/
  | arrives {labels name body s trace t}
      (inside : Executes c (.stmt (labels ++ [name]) body) s trace (.breaks (some name)) t) :
    Executes c (.stmt labels (.label name body)) s trace .ends t
  | withObject {labels object body s v t previous u trace exit w} (lenient : Action.isStrict c s = .value false s)
      (value : ComesTo (·.expr object) c s v t) (entered : v.enterWith c t = .value previous u)
      (inside : Executes c (.list body) u trace exit w) :
    Executes c (.stmt labels (.withObject object body)) s trace exit (w.setLexical previous)
  -- Lists. Only here are values lost, all that the list has so far.
  | nil {s} : Executes c (.list []) s [] .ends s
  | next {stmt rest s trace t trace' exit u} (first : Executes c (.stmt [] stmt) s trace .ends t)
      (others : Executes c (.list rest) t trace' exit u) :
    Executes c (.list (stmt :: rest)) s (exit.drops (trace ++ trace')) exit u
  | stop {stmt rest s trace exit t} (first : Executes c (.stmt [] stmt) s trace exit t) (early : exit ≠ .ends) :
    Executes c (.list (stmt :: rest)) s (exit.drops trace) exit t
  -- Rounds of a loop with tests.
  | finished {k s t} (tested : ComesTo (Stmt.holds · k.before) c s false t) : Executes c (.rounds k) s [] .ends t
  | left {k s t trace exit exit' u} (tested : ComesTo (Stmt.holds · k.before) c s true t)
      (inside : Executes c (.list k.body) t trace exit u) (leaves : exit.fromLoop k.labels = some exit') :
    Executes c (.rounds k) s trace exit' u
  | stopped {k s t trace exit u w x} (tested : ComesTo (Stmt.holds · k.before) c s true t)
      (inside : Executes c (.list k.body) t trace exit u) (stays : exit.fromLoop k.labels = none)
      (updated : ComesTo (k.update.evaluate ·) c u () w) (retested : ComesTo (Stmt.holds · k.after) c w false x) :
    Executes c (.rounds k) s trace .ends x
  | again {k s t trace exit u w x trace' exit' y} (tested : ComesTo (Stmt.holds · k.before) c s true t)
      (inside : Executes c (.list k.body) t trace exit u) (stays : exit.fromLoop k.labels = none)
      (updated : ComesTo (k.update.evaluate ·) c u () w) (retested : ComesTo (Stmt.holds · k.after) c w true x)
      (more : Executes c (.rounds k) x trace' exit' y) : Executes c (.rounds k) s (trace ++ trace') exit' y
  -- Names of a `for`-`in` loop.
  | visited {labels target o body s} : Executes c (.visits labels target o body []) s [] .ends s
  /-- A name that is gone, or no longer enumerated, is passed over. -/
  | passed {labels target o body name rest s trace exit t}
      (hidden : (s.getProperty? o name).any (·.enumerable) = false)
      (others : Executes c (.visits labels target o body rest) s trace exit t) :
    Executes c (.visits labels target o body (name :: rest)) s trace exit t
  | visitLeft {labels target o body name rest s t trace exit exit' u}
      (shown : (s.getProperty? o name).any (·.enumerable) = true) (assigned : ComesTo (target.assign · name) c s () t)
      (inside : Executes c (.list body) t trace exit u) (leaves : exit.fromLoop labels = some exit') :
    Executes c (.visits labels target o body (name :: rest)) s trace exit' u
  | visit {labels target o body name rest s t trace exit u trace' exit' w}
      (shown : (s.getProperty? o name).any (·.enumerable) = true) (assigned : ComesTo (target.assign · name) c s () t)
      (inside : Executes c (.list body) t trace exit u) (stays : exit.fromLoop labels = none)
      (others : Executes c (.visits labels target o body rest) u trace' exit' w) :
    Executes c (.visits labels target o body (name :: rest)) s (trace ++ trace') exit' w

namespace ComesTo

variable {α β : Type} {c : Config} {s t u : Store} {a b : α}

theorem of_run {x : Action α} (run : x c s = .value a t) : ComesTo (fun _ => x) c s a t := ⟨0, fun _ _ => run⟩

theorem of_run_eq {x y : Engine → Action α} (h : ComesTo x c s a t) (same : ∀ E, (y E).run = (x E).run) :
    ComesTo y c s a t := by
  obtain ⟨n, enough⟩ := h
  refine ⟨n, fun m le => ?_⟩
  rw [same]
  exact enough m le

theorem bind {x : Engine → Action β} {f : Engine → β → Action α} {b : β} (first : ComesTo x c s b t)
    (second : ComesTo (f · b) c t a u) : ComesTo (fun E => x E >>= f E) c s a u := by
  obtain ⟨n, first⟩ := first
  obtain ⟨m, second⟩ := second
  refine ⟨max n m, fun k le => ?_⟩
  rw [Action.bind_run (first k (by omega))]
  exact second k (by omega)

theorem ensuring {x : Engine → Action α} (h : ComesTo x c s a t) (cleanup : Store → Store) :
    ComesTo (fun E => (x E).ensuring cleanup) c s a (cleanup t) := by
  obtain ⟨n, enough⟩ := h
  refine ⟨n, fun m le => ?_⟩
  show (x (.ofBudget m) c s).cleaned cleanup = _
  rw [enough m le]
  rfl

theorem unique {x : Engine → Action α} (first : ComesTo x c s a t) (second : ComesTo x c s b u) : b = a ∧ u = t := by
  obtain ⟨n, first⟩ := first
  obtain ⟨m, second⟩ := second
  cases (first (max n m) (by omega)).symm.trans (second (max n m) (by omega))
  exact ⟨rfl, rfl⟩

/-- A larger budget changes nothing about an action that a smaller one was enough for. -/
theorem of_obeys {x : Engine → Action α} {n : Nat} {Q : (Law.agreement none).World → α → Prop}
    (law : ∀ m, n ≤ m → (Law.agreement none).Obeys c ⟨(s, s), .refl s⟩ (x (.ofBudget n)) (x (.ofBudget m)) Q)
    (run : x (.ofBudget n) c s = .value a t) : ComesTo x c s a t := by
  refine ⟨n, fun m le => ?_⟩
  have below := Emission.below_of_obeys (.refl s) (law m le)
  rw [run] at below
  generalize x (.ofBudget m) c s = o at below ⊢
  cases below with
  | value later => rw [later.agree.eq]

section Budget

variable {n : Nat}

theorem of_expr {e : Expr} {v : Value} (run : (Engine.ofBudget n).expr e c s = .value v t) : ComesTo (·.expr e) c s v t :=
  of_obeys (fun _ le => (Agreement.engines le).expr) run

theorem of_declarators {declarators : List Declarator}
    (run : Declarator.evaluateList (.ofBudget n) declarators c s = .value () t) :
    ComesTo (Declarator.evaluateList · declarators) c s () t :=
  of_obeys (fun _ le => Law.declarators_obeys (Agreement.engines le) declarators Agreement.ready) run

theorem of_init {init : ForInit} (run : init.evaluate (.ofBudget n) c s = .value () t) :
    ComesTo (init.evaluate ·) c s () t :=
  of_obeys (fun _ le => Law.forInit_obeys (Agreement.engines le) Agreement.ready) run

theorem of_holds {test : Option Expr} {b : Bool} (run : Stmt.holds (.ofBudget n) test c s = .value b t) :
    ComesTo (Stmt.holds · test) c s b t :=
  of_obeys (fun _ le => Law.holds_obeys (Agreement.engines le)) run

theorem of_assign {target : ForInTarget} {name : String} (run : target.assign (.ofBudget n) name c s = .value () t) :
    ComesTo (target.assign · name) c s () t := by
  refine of_obeys (Q := (Law.agreement none).any) (fun m le => ?_) run
  have engines : (Law.agreement none).Engines (.ofBudget n) (.ofBudget m) := Agreement.engines le
  exact .bind (Law.forInTarget_obeys engines Agreement.ready) fun _ _ _ known =>
    Law.assign_obeys engines known trivial (.inl rfl)

theorem of_stmt {labels : List String} {stmt : Stmt} {r : Completion}
    (evaluated : ComesTo (fun E => stmt.evaluate E labels) c s r t) : ComesTo (·.stmt labels stmt) c s r t := by
  obtain ⟨n, evaluated⟩ := evaluated
  refine ⟨n + 1, fun m le => ?_⟩
  obtain ⟨k, rfl⟩ : ∃ k, m = k + 1 := ⟨m - 1, by omega⟩
  exact evaluated k (by omega)

end Budget

end ComesTo

/-- The rules leave no choice. -/
theorem Executes.unique {c : Config} {task : Task} {s t t' : Store} {trace trace' : List Evaluated} {exit exit' : Exit}
    (first : Executes c task s trace exit t) (second : Executes c task s trace' exit' t') :
    trace' = trace ∧ exit' = exit ∧ t' = t := by
  induction first generalizing trace' exit' t' with
  | empty | function | returnsNothing | breaks | continues | nil | visited =>
    cases second
    exact ⟨rfl, rfl, rfl⟩
  | expr value =>
    cases second with
    | expr value' =>
      obtain ⟨rfl, rfl⟩ := value.unique value'
      exact ⟨rfl, rfl, rfl⟩
  | declare done =>
    cases second with
    | declare done' =>
      obtain ⟨_, rfl⟩ := done.unique done'
      exact ⟨rfl, rfl, rfl⟩
  | returns value =>
    cases second with
    | returns value' =>
      obtain ⟨rfl, rfl⟩ := value.unique value'
      exact ⟨rfl, rfl, rfl⟩
  | ifElse tested _ ih =>
    cases second with
    | ifElse tested' branch =>
      obtain ⟨rfl, rfl⟩ := tested.unique tested'
      exact ih branch
  | block _ ih =>
    cases second with
    | block inside => exact ih inside
  | whileLoop _ ih =>
    cases second with
    | whileLoop rounds => exact ih rounds
  | doWhile _ ih =>
    cases second with
    | doWhile rounds => exact ih rounds
  | forLoop done _ ih =>
    cases second with
    | forLoop done' rounds =>
      obtain ⟨_, rfl⟩ := done.unique done'
      exact ih rounds
  | forNothing value nullish =>
    cases second with
    | forNothing value' =>
      obtain ⟨rfl, rfl⟩ := value.unique value'
      exact ⟨rfl, rfl, rfl⟩
    | forIn value' present =>
      obtain ⟨rfl, rfl⟩ := value.unique value'
      simp [nullish] at present
  | forIn value present wrapped _ ih =>
    cases second with
    | forNothing value' nullish =>
      obtain ⟨rfl, rfl⟩ := value.unique value'
      simp [nullish] at present
    | forIn value' _ wrapped' visits =>
      obtain ⟨rfl, rfl⟩ := value.unique value'
      cases wrapped.symm.trans wrapped'
      exact ih visits
  | label _ other ih =>
    cases second with
    | label inside => exact ih inside
    | arrives inside =>
      obtain ⟨_, rfl, _⟩ := ih inside
      exact absurd rfl other
  | arrives _ ih =>
    cases second with
    | label inside other =>
      obtain ⟨_, rfl, _⟩ := ih inside
      exact absurd rfl other
    | arrives inside =>
      obtain ⟨rfl, _, rfl⟩ := ih inside
      exact ⟨rfl, rfl, rfl⟩
  | withObject _ value entered _ ih =>
    cases second with
    | withObject _ value' entered' inside =>
      obtain ⟨rfl, rfl⟩ := value.unique value'
      cases entered.symm.trans entered'
      obtain ⟨rfl, rfl, rfl⟩ := ih inside
      exact ⟨rfl, rfl, rfl⟩
  | next _ _ ih others =>
    cases second with
    | next first rest =>
      obtain ⟨rfl, _, rfl⟩ := ih first
      obtain ⟨rfl, rfl, rfl⟩ := others rest
      exact ⟨rfl, rfl, rfl⟩
    | stop first early =>
      obtain ⟨_, rfl, _⟩ := ih first
      exact absurd rfl early
  | stop _ early ih =>
    cases second with
    | next first rest =>
      obtain ⟨_, rfl, _⟩ := ih first
      exact absurd rfl early
    | stop first =>
      obtain ⟨rfl, rfl, rfl⟩ := ih first
      exact ⟨rfl, rfl, rfl⟩
  | finished tested =>
    cases second with
    | finished tested' =>
      obtain ⟨_, rfl⟩ := tested.unique tested'
      exact ⟨rfl, rfl, rfl⟩
    | left tested' | stopped tested' | again tested' => cases (tested.unique tested').1
  | left tested _ leaves ih =>
    cases second with
    | finished tested' => cases (tested.unique tested').1
    | left tested' inside leaves' =>
      obtain ⟨_, rfl⟩ := tested.unique tested'
      obtain ⟨rfl, rfl, rfl⟩ := ih inside
      cases leaves.symm.trans leaves'
      exact ⟨rfl, rfl, rfl⟩
    | stopped tested' inside stays | again tested' inside stays =>
      obtain ⟨_, rfl⟩ := tested.unique tested'
      obtain ⟨_, rfl, _⟩ := ih inside
      cases leaves.symm.trans stays
  | stopped tested _ stays updated retested ih =>
    cases second with
    | finished tested' => cases (tested.unique tested').1
    | left tested' inside leaves =>
      obtain ⟨_, rfl⟩ := tested.unique tested'
      obtain ⟨_, rfl, _⟩ := ih inside
      cases leaves.symm.trans stays
    | stopped tested' inside _ updated' retested' =>
      obtain ⟨_, rfl⟩ := tested.unique tested'
      obtain ⟨rfl, _, rfl⟩ := ih inside
      obtain ⟨_, rfl⟩ := updated.unique updated'
      obtain ⟨_, rfl⟩ := retested.unique retested'
      exact ⟨rfl, rfl, rfl⟩
    | again tested' inside _ updated' retested' =>
      obtain ⟨_, rfl⟩ := tested.unique tested'
      obtain ⟨_, _, rfl⟩ := ih inside
      obtain ⟨_, rfl⟩ := updated.unique updated'
      cases (retested.unique retested').1
  | again tested _ stays updated retested _ ih more =>
    cases second with
    | finished tested' => cases (tested.unique tested').1
    | left tested' inside leaves =>
      obtain ⟨_, rfl⟩ := tested.unique tested'
      obtain ⟨_, rfl, _⟩ := ih inside
      cases leaves.symm.trans stays
    | stopped tested' inside _ updated' retested' =>
      obtain ⟨_, rfl⟩ := tested.unique tested'
      obtain ⟨_, _, rfl⟩ := ih inside
      obtain ⟨_, rfl⟩ := updated.unique updated'
      cases (retested.unique retested').1
    | again tested' inside _ updated' retested' rest =>
      obtain ⟨_, rfl⟩ := tested.unique tested'
      obtain ⟨rfl, _, rfl⟩ := ih inside
      obtain ⟨_, rfl⟩ := updated.unique updated'
      obtain ⟨_, rfl⟩ := retested.unique retested'
      obtain ⟨rfl, rfl, rfl⟩ := more rest
      exact ⟨rfl, rfl, rfl⟩
  | passed hidden _ ih =>
    cases second with
    | passed _ others => exact ih others
    | visitLeft shown | visit shown => cases hidden.symm.trans shown
  | visitLeft shown assigned _ leaves ih =>
    cases second with
    | passed hidden => cases hidden.symm.trans shown
    | visitLeft _ assigned' inside leaves' =>
      obtain ⟨_, rfl⟩ := assigned.unique assigned'
      obtain ⟨rfl, rfl, rfl⟩ := ih inside
      cases leaves.symm.trans leaves'
      exact ⟨rfl, rfl, rfl⟩
    | visit _ assigned' inside stays =>
      obtain ⟨_, rfl⟩ := assigned.unique assigned'
      obtain ⟨_, rfl, _⟩ := ih inside
      cases leaves.symm.trans stays
  | visit shown assigned _ stays _ ih others =>
    cases second with
    | passed hidden => cases hidden.symm.trans shown
    | visitLeft _ assigned' inside leaves =>
      obtain ⟨_, rfl⟩ := assigned.unique assigned'
      obtain ⟨_, rfl, _⟩ := ih inside
      cases leaves.symm.trans stays
    | visit _ assigned' inside _ rest =>
      obtain ⟨_, rfl⟩ := assigned.unique assigned'
      obtain ⟨rfl, _, rfl⟩ := ih inside
      obtain ⟨rfl, rfl, rfl⟩ := others rest
      exact ⟨rfl, rfl, rfl⟩

end Ecma
