import Ecma.Proofs.Generator.Turns
import Ecma.Proofs.Law.Change

/-!
# Laws

A law is about two runs side by side. They start from the two stores of a world, which differ at most in their
generators, and the second has a budget at least as large. `Obeys` says that the first run only passes worlds that the
law allows, and that where it ends the second ends alike, in a world the law allows. With one store on both sides a law
is an invariant of runs; with two it compares them. A law may be about those runs only in which arrays are given lengths
that it allows. Where nothing is asked of values, scopes and faults, a frame of worlds is a law already (`Law.ofFrame`).
-/

namespace Ecma

/-- How worlds follow each other. -/
structure Frame (V : Terms) where
  /-- The store of the second run. -/
  right : V.World → Store
  /-- A world may come after another. -/
  le : V.World → V.World → Prop
  /-- A value may become the length of an array. -/
  allows : ObjectRef → Value → Prop
  refl : ∀ w, le w w
  trans : ∀ {u v w}, le u v → le v w → le u w
  agree : ∀ w, right w = (V.left w).withGenerators (right w).generators
  agree_size : ∀ w, (right w).generators.size = (V.left w).generators.size
  agree_drives : ∀ {w g}, V.drives g → (right w).generator? g = (V.left w).generator? g
  agree_head : ∀ w g, ((right w).generator? g).map (fun gen => (gen.status, gen.context)) =
    ((V.left w).generator? g).map fun gen => (gen.status, gen.context)
  drives_idle : ∀ {w g}, (∀ gen, (V.left w).generator? g = some gen → gen.status ≠ .running) → V.drives g
  change : ∀ {w F}, Change V w F → ∃ u, V.left u = F (V.left w) ∧ right u = F (right w) ∧ le w u
  enclose : ∀ {w strict scope}, Encloses V w strict scope → ∃ u, V.left u = (V.left w).addScope scope ∧
    right u = (right w).addScope scope ∧ le w u ∧ V.scope u ⟨(V.left w).scopes.size⟩ strict ∧
      V.declares u ⟨(V.left w).scopes.size⟩ strict ∧
        ∀ e d, scope.outer = some e → V.within w e d → V.within u ⟨(V.left w).scopes.size⟩ d

/-- What worlds are, how they follow each other, and what is known in each. -/
structure Law extends Terms, Frame toTerms where
  /-- Statements may run. -/
  running : World → Prop
  value_mono : ∀ {w u v}, le w u → value w v → value u v
  scope_mono : ∀ {w u e strict}, le w u → scope w e strict → scope u e strict
  bound_mono : ∀ {w u e name}, le w u → bound w e name → bound u e name
  parameter_mono : ∀ {w u e name}, le w u → parameter w e name → parameter u e name
  unaliased_mono : ∀ {w u o name}, le w u → unaliased w o name → unaliased u o name
  declarative_mono : ∀ {w u e}, le w u → declarative w e → declarative u e
  within_mono : ∀ {w u e d}, le w u → within w e d → within u e d
  declares_mono : ∀ {w u e deletable}, le w u → declares w e deletable → declares u e deletable
  primitive : ∀ {w v}, v.isPrimitive = true → value w v
  present : ∀ {w o}, o.index < (left w).objects.size → value w (.object o)
  intrinsic : ∀ w (i : Intrinsic), value w (.object i.ref)
  own : ∀ {w o name p}, (left w).getOwn? o name = some p → toTerms.property w p
  prototype : ∀ {w o p}, ((left w).object o).prototype = some p → value w (.object p)
  closure : ∀ {w o code e strict}, ((left w).object o).kind = .function (.script code e strict) → scope w e strict
  binding : ∀ {w e bindings name b}, ((left w).scope e).record = .declarative bindings →
    bindings.get? name = some b → value w b.value
  record : ∀ {w e o provideThis}, ((left w).scope e).record = .object o provideThis → value w (.object o)
  contexts : ∀ {w ctx}, ctx ∈ (left w).contexts → toTerms.context w ctx
  generators : ∀ {w g gen}, (left w).generator? g = some gen → toTerms.generator w gen
  /-- A generator is watched from when it is made on. -/
  watches_iff : ∀ {w u g gen}, le w u → (left w).generator? g = some gen → (watches u g ↔ watches w g)
  queues : ∀ {w g gen}, watches w g → (left w).generator? g = some gen → GeneratorStep.aimed gen.steps = true
  within_refl : ∀ w e, within w e e
  outer : ∀ {w e d strict}, scope w e strict → ((left w).scope e).outer = some d → scope w d strict
  global : ∀ w strict, scope w .global strict
  strict_scope : ∀ {w e strict}, scope w e strict → scope w e true
  found : ∀ {w e strict name}, scope w e strict → (left w).hasBinding e name = true → bound w e name
  /-- A law that asks something of scopes knows that they are there. -/
  ranged : toTerms.free ∨ ∀ {w e strict}, scope w e strict → e.index < (left w).scopes.size
  bound_object : ∀ {w e o provideThis name}, scope w e true → ((left w).scope e).record = .object o provideThis →
    bound w e name
  declarative_of : ∀ {w e strict bindings}, scope w e strict → ((left w).scope e).record = .declarative bindings →
    declarative w e
  declarative_record : ∀ {w e}, declarative w e → toTerms.free ∨
    ∃ bindings, ((left w).scope e).record = .declarative bindings
  missing : ∀ {w e name bindings}, bound w e name → ((left w).scope e).record = .declarative bindings →
    bindings.get? name = none → permits (.bindingMissing name)
  aliasable : ∀ {w e strict bindings name b}, scope w e strict → ((left w).scope e).record = .declarative bindings →
    bindings.get? name = some b → b.mutable = true → b.deletable = false → b.initialized = true → parameter w e name
  unaliased_of : ∀ {w o name}, value w (.object o) → ((left w).object o).kind ≠ .array →
    (∀ m, ((left w).object o).kind = .arguments (some m) → m.parameter? name = none) → unaliased w o name
  declares_fixed : ∀ w e, declares w e false
  declares_global : ∀ w deletable, declares w .global deletable
  permits_kind : ∀ {f : Fault}, f.kind ≠ .internal → permits f
  running_congr : ∀ {w u}, (left u).contexts = (left w).contexts → running w → running u
  running_cons : ∀ {w ctx rest}, (left w).contexts = ctx :: rest → running w
  no_context : ∀ {w}, running w → (left w).contexts = [] → permits .noContext

/-- Terms that ask nothing of values, scopes and faults. -/
def Terms.lenient {World : Type} (left : World → Store) (unaliased : World → ObjectRef → String → Prop)
    (drives : GeneratorRef → Prop) (watches : World → GeneratorRef → Prop) : Terms where
  World := World
  left := left
  value _ _ := True
  scope _ _ _ := True
  bound _ _ _ := True
  parameter _ _ _ := True
  declarative _ _ := True
  within _ _ _ := True
  unaliased := unaliased
  declares _ _ _ := True
  drives := drives
  watches := watches
  permits _ := True

/-- A law that is about stores and asks nothing of values, scopes and faults. -/
def Law.ofFrame {World : Type} {left : World → Store} {unaliased : World → ObjectRef → String → Prop}
    {drives : GeneratorRef → Prop} {watches : World → GeneratorRef → Prop}
    (frame : Frame (.lenient left unaliased drives watches))
    (unaliased_mono : ∀ {w u o name}, frame.le w u → unaliased w o name → unaliased u o name)
    (unaliased_of : ∀ {w o name}, ((left w).object o).kind ≠ .array →
      (∀ m, ((left w).object o).kind = .arguments (some m) → m.parameter? name = none) → unaliased w o name)
    (watches_iff : ∀ {w u g gen}, frame.le w u → (left w).generator? g = some gen → (watches u g ↔ watches w g))
    (queues : ∀ {w g gen}, watches w g → (left w).generator? g = some gen → GeneratorStep.aimed gen.steps = true) :
    Law where
  toTerms := .lenient left unaliased drives watches
  toFrame := frame
  running _ := True
  value_mono _ _ := trivial
  scope_mono _ _ := trivial
  bound_mono _ _ := trivial
  parameter_mono _ _ := trivial
  unaliased_mono := unaliased_mono
  declarative_mono _ _ := trivial
  within_mono _ _ := trivial
  declares_mono _ _ := trivial
  primitive _ := trivial
  present _ := trivial
  intrinsic _ _ := trivial
  own _ := ⟨fun _ _ => trivial, fun _ _ => trivial, fun _ _ => trivial⟩
  prototype _ := trivial
  closure _ := trivial
  binding _ _ := trivial
  record _ := trivial
  contexts _ := ⟨trivial, trivial, trivial, trivial, .inr trivial⟩
  generators _ := ⟨⟨trivial, trivial, trivial, trivial, .inr trivial⟩, fun _ _ _ _ => trivial⟩
  watches_iff := watches_iff
  queues := queues
  within_refl _ _ := trivial
  outer _ _ := trivial
  global _ _ := trivial
  strict_scope _ := trivial
  found _ _ := trivial
  ranged := .inl ⟨fun _ => trivial, fun _ _ _ => ⟨trivial, trivial, trivial⟩⟩
  bound_object _ _ := trivial
  declarative_of _ _ := trivial
  declarative_record _ := .inl ⟨fun _ => trivial, fun _ _ _ => ⟨trivial, trivial, trivial⟩⟩
  missing _ _ _ := trivial
  aliasable _ _ _ _ _ _ := trivial
  unaliased_of _ := unaliased_of
  declares_fixed _ _ := trivial
  declares_global _ _ := trivial
  permits_kind _ := trivial
  running_congr _ _ := trivial
  running_cons _ := trivial
  no_context _ _ := trivial

/-- The names that strict code may not assign to. -/
def Restricted (name : String) : Prop := name = "eval" ∨ name = "arguments"

/-- A binding that has been given its only value. -/
def Binding.constant (v : Value) : Binding := ⟨v, false, false, true⟩

/-- What a name is bound to in the record that a scope has of its own. -/
def Store.binding? (s : Store) (e : ScopeRef) (name : String) : Option Binding :=
  match (s.scope e).record with
  | .declarative bindings => bindings.get? name
  | .object _ _ => none

namespace Law

variable (L : Law)

/-- What was thrown. -/
def abrupt (w : L.World) : Abrupt → Prop
  | .fault f => L.permits f
  | .thrown v => L.value w v

/-- A later world in which the contexts are as they were, and the same generators are running. -/
structure Reached (w u : L.World) : Prop where
  le : L.le w u
  contexts : (L.left u).contexts = (L.left w).contexts
  runs : (L.left w).SameRuns (L.left u)

/-- A later world before which no generator was set going or stopped. -/
structure Onward (w u : L.World) : Prop where
  le : L.le w u
  rests : (L.left w).Rests (L.left u)

/-- What code may do that is no turn in the life of a generator. The names that it declares are bound where its variables
are, strict code assigns to no restricted name but in the head of a loop, no jump leads out of code all of whose jumps lead
somewhere, and a function expression binds its name for good. -/
def lawful (w : L.World) : Event → Prop
  | .declares name => ∀ ctx, (L.left w).context? = some ctx → L.bound w ctx.vars name
  | .assigns name head => ∀ ctx, (L.left w).context? = some ctx → ctx.strict = true → Restricted name → head = true
  | .resumes _ | .rests _ | .abandons _ => False
  | .escapes body => Stmt.aimedAll .nowhere body = false
  | .strays g => ¬L.watches w g
  | .binds name e f => (L.left w).binding? e name = some (.constant (.object f))

/-- Statements that declare some names may run. -/
structure Ready (w : L.World) (names : List String) : Prop where
  running : L.running w
  hoisted : ∀ name ∈ names, L.lawful w (.declares name)

/-- The path of a run from one world to another: every store on it is that of a world in between, with no more
contexts than the limit, every fault is permitted, and all else is lawful or a turn in the life of a generator. -/
inductive Trail (limit : Nat) : L.World → List Moment → L.World → Prop where
  | done {w u : L.World} (onward : L.Onward w u) : Trail limit w [] u
  | reached {w v u : L.World} {path : List Moment} (onward : L.Onward w v) (depth : (L.left v).depth ≤ limit)
      (rest : Trail limit v path u) : Trail limit w (.reached (L.left v) :: path) u
  | raised {w u : L.World} {f : Fault} {path : List Moment} (permitted : L.permits f) (rest : Trail limit w path u) :
    Trail limit w (.raised f :: path) u
  | noted {w v u : L.World} {e : Event} {path : List Moment} (onward : L.Onward w v) (lawful : L.lawful v e)
      (rest : Trail limit v path u) : Trail limit w (.noted e (L.left v) :: path) u
  | turned {w v v' u : L.World} {e : Event} {path : List Moment} (onward : L.Onward w v)
      (turns : (L.left v).Turns e (L.left v')) (le : L.le v v') (rest : Trail limit v' path u) :
    Trail limit w (.noted e (L.left v') :: path) u

/-- The first run ends in a world, and the second ends alike unless the first had too small a budget. -/
inductive Ends {α : Type} (limit : Nat) (w : L.World) (Q : L.World → α → Prop) :
    L.World → Outcome α → Outcome α → Prop where
  | value {u : L.World} {a : α} (reached : L.Reached w u) (post : Q u a) :
    Ends limit w Q u (.value a (L.left u)) (.value a (L.right u))
  | abrupt {u : L.World} {e : Abrupt} (reached : L.Reached w u) (post : L.abrupt u e) :
    Ends limit w Q u (.abrupt e (L.left u)) (.abrupt e (L.right u))
  | exhausted {u : L.World} {o : Outcome α} (depth : (L.left u).depth ≤ limit) :
    Ends limit w Q u (.exhausted (L.left u)) o

/-- No run takes the stack of contexts beyond this: the limit of the host, or what it was before. -/
def limit (c : Config) (w : L.World) : Nat := max c.maxCallDepth (L.left w).depth

/-- All lengths that arrays were to get are allowed. -/
def Allows (sizes : List (ObjectRef × Value)) : Prop := ∀ o v, (o, v) ∈ sizes → L.allows o v

/-- Two actions obey a law from a world on. -/
def Obeys {α : Type} (c : Config) (w : L.World) (x y : Action α) (Q : L.World → α → Prop) : Prop :=
  L.Allows (x.sizes c (L.left w)) → ∃ u, L.Trail (L.limit c w) w (x.path c (L.left w)) u ∧
    L.Ends (L.limit c w) w Q u (x c (L.left w)) (y c (L.right w))

/-- A result about which nothing need be known. -/
def any {α : Type} (_ : L.World) (_ : α) : Prop := True

/-- A result that may be a failure. -/
def except {α : Type} (Q : L.World → α → Prop) (w : L.World) : Except Abrupt α → Prop
  | .ok a => Q w a
  | .error e => L.abrupt w e

/-- Two engines that assign alike. -/
def Puts (E E' : Engine) : Prop :=
  ∀ {c w o name v throw}, L.object w o → L.value w v → L.Obeys c w (E.put o name v throw) (E'.put o name v throw) L.any

/-- Two engines with which the properties of `arguments` objects are defined alike. -/
def DefinesArguments (E E' : Engine) : Prop :=
  ∀ {c w o m name d throw}, L.object w o → ((L.left w).object o).kind = .arguments (some m) → L.descriptor w d →
    d.isMixed = false → L.Obeys c w (o.defineInArguments E m name d throw) (o.defineInArguments E' m name d throw) L.any

/-- Two engines with which the properties of arrays that the law watches are defined alike. -/
def DefinesArrays (E E' : Engine) : Prop :=
  ∀ {c w o name d throw}, L.object w o → ((L.left w).object o).kind = .array → ¬(∀ name, L.unaliased w o name) →
    L.descriptor w d → d.isMixed = false →
      L.Obeys c w (o.defineInArray E name d throw) (o.defineInArray E' name d throw) L.any

/-- Two engines that run code alike, the second with a budget at least as large. -/
structure Engines (E E' : Engine) : Prop where
  budget : E.budget ≤ E'.budget
  aims : E.Aims
  steady : ∀ {w g}, L.watches w g → E.Steady
  arguments : L.DefinesArguments E E'
  arrays : L.DefinesArrays E E'
  call : ∀ {c w f this args}, L.value w f → L.value w this → L.values w args →
    L.Obeys c w (E.call f this args) (E'.call f this args) L.value
  expr : ∀ {c w e}, L.Obeys c w (E.expr e) (E'.expr e) L.value
  stmt : ∀ {c w labels stmt}, L.Ready w stmt.varNames →
    L.Obeys c w (E.stmt labels stmt) (E'.stmt labels stmt) L.completion

/-- What is known of a result stays known in later worlds. -/
def Lasts {α : Type} (Q : L.World → α → Prop) : Prop := ∀ ⦃u t a⦄, L.le u t → Q u a → Q t a

variable {L}

theorem allows_append {sizes later : List (ObjectRef × Value)} :
    L.Allows (sizes ++ later) ↔ L.Allows sizes ∧ L.Allows later :=
  ⟨fun h => ⟨fun o v mem => h o v (List.mem_append_left _ mem), fun o v mem => h o v (List.mem_append_right _ mem)⟩,
    fun h o v mem => (List.mem_append.1 mem).elim (h.1 o v) (h.2 o v)⟩

section Known

variable {w : L.World}

theorem values_nil : L.values w [] := fun _ h => by cases h

theorem values_cons {v : Value} {vs : List Value} (head : L.value w v) (tail : L.values w vs) : L.values w (v :: vs) :=
  fun _ h => (List.mem_cons.1 h).elim (· ▸ head) (tail _)

theorem values_singleton {v : Value} (known : L.value w v) : L.values w [v] := values_cons known values_nil

theorem option_none : L.option w none := fun _ h => by cases h

theorem option_some {v : Value} (known : L.value w v) : L.option w (some v) := fun _ h => by cases h; exact known

/-- A property that an object has or inherits. -/
theorem inherited {o : ObjectRef} {name : String} {p : Property} (h : (L.left w).getProperty? o name = some p) :
    L.property w p := by
  obtain ⟨_, _, found⟩ := List.exists_of_findSome?_eq_some h
  exact L.own found

theorem property_data {v : Value} {b e c : Bool} (known : L.value w v) : L.property w (.data v b e c) :=
  ⟨option_some known, option_none, option_none⟩

theorem value_getD {v : Option Value} (known : L.option w v) : L.value w (v.getD .undefined) := by
  cases v with
  | none => exact L.primitive rfl
  | some v => exact known v rfl

theorem content {p : Property} (known : L.property w p) : L.value w p.content := value_getD known.1

theorem object_of_object? {v : Option Value} {o : ObjectRef} (known : L.option w v) (h : v.bind (·.object?) = some o) :
    L.object w o := by
  obtain ⟨u, given, object⟩ := Option.bind_eq_some_iff.1 h
  cases u <;> cases object
  exact known _ given

theorem getter {p : Property} {g : ObjectRef} (known : L.property w p) (h : p.getter? = some g) : L.object w g :=
  object_of_object? known.2.1 h

theorem setter {p : Property} {g : ObjectRef} (known : L.property w p) (h : p.setter? = some g) : L.object w g :=
  object_of_object? known.2.2 h

/-- An object that was read, or a built-in one in its place. -/
theorem object_getD {v : Value} {i : Intrinsic} (known : L.value w v) : L.object w (v.object?.getD i.ref) := by
  cases v with
  | object o => exact known
  | _ => exact L.intrinsic w i

end Known

namespace Reached

variable {w v u : L.World}

theorem refl (w : L.World) : L.Reached w w := ⟨L.refl w, rfl, .refl _⟩

theorem trans (first : L.Reached w v) (second : L.Reached v u) : L.Reached w u :=
  ⟨L.trans first.le second.le, second.contexts.trans first.contexts, first.runs.trans second.runs⟩

theorem context? (h : L.Reached w u) : (L.left u).context? = (L.left w).context? := by
  rw [Store.context?, Store.context?, h.contexts]

theorem value {a : Value} (h : L.Reached w u) (known : L.value w a) : L.value u a := L.value_mono h.le known

theorem values {vs : List Value} (h : L.Reached w u) (known : L.values w vs) : L.values u vs :=
  fun v hv => h.value (known v hv)

theorem option {v : Option Value} (h : L.Reached w u) (known : L.option w v) : L.option u v :=
  fun a ha => h.value (known a ha)

theorem object {o : ObjectRef} (h : L.Reached w u) (known : L.object w o) : L.object u o := h.value known

theorem descriptor {d : Descriptor} (h : L.Reached w u) (known : L.descriptor w d) : L.descriptor u d :=
  ⟨h.option known.1, h.option known.2.1, h.option known.2.2⟩

theorem scope {e : ScopeRef} {strict : Bool} (h : L.Reached w u) (known : L.scope w e strict) : L.scope u e strict :=
  L.scope_mono h.le known

theorem unaliased {o : ObjectRef} {name : String} (h : L.Reached w u) (known : L.unaliased w o name) :
    L.unaliased u o name := L.unaliased_mono h.le known

theorem context {ctx : Context} (h : L.Reached w u) (known : L.context w ctx) : L.context u ctx :=
  ⟨h.scope known.1, h.scope known.2.1, h.value known.2.2.1, L.within_mono h.le known.2.2.2.1,
    known.2.2.2.2.imp_right (L.declarative_mono h.le)⟩

theorem mode {strict : Bool} (h : L.Reached w u) (known : L.mode w strict) : L.mode u strict := by
  rw [Terms.mode, h.context?]
  exact known

theorem reference {r : Reference} (h : L.Reached w u) (known : L.reference w r) : L.reference u r := by
  obtain ⟨base, name, strict⟩ := r
  cases base with
  | unresolvable => exact h.mode known
  | scope e => exact ⟨h.scope known.1, L.bound_mono h.le known.2.1, h.mode known.2.2⟩
  | value v => exact h.value known

theorem running (h : L.Reached w u) (known : L.running w) : L.running u := L.running_congr h.contexts known

theorem ready {names : List String} (h : L.Reached w u) (known : L.Ready w names) : L.Ready u names where
  running := h.running known.running
  hoisted name mem ctx top := L.bound_mono h.le (known.hoisted name mem ctx (h.context? ▸ top))

theorem depth (h : L.Reached w u) : (L.left u).depth = (L.left w).depth := by
  simp only [Store.depth, h.contexts]

theorem limit (c : Config) (h : L.Reached w u) : L.limit c u = L.limit c w := by
  simp only [Law.limit, h.depth]

end Reached

namespace Onward

variable {w v u : L.World}

theorem refl (w : L.World) : L.Onward w w := ⟨L.refl w, .refl _⟩

theorem trans (first : L.Onward w v) (second : L.Onward v u) : L.Onward w u :=
  ⟨L.trans first.le second.le, first.rests.trans second.rests⟩

/-- A later world with the same generators. -/
theorem of_generators (le : L.le w u) (same : (L.left u).generators = (L.left w).generators) : L.Onward w u :=
  ⟨le, .of_generators same⟩

theorem reached (h : L.Onward w u) (contexts : (L.left u).contexts = (L.left w).contexts) : L.Reached w u :=
  ⟨h.le, contexts, h.rests.sameRuns⟩

end Onward

namespace Ready

variable {w : L.World} {names others : List String}

theorem mono (h : L.Ready w names) (subset : others ⊆ names) : L.Ready w others :=
  ⟨h.running, fun name mem => h.hoisted name (subset mem)⟩

/-- The code of a context in which names are bound. -/
theorem of_contexts {ctx : Context} {rest : List Context} (contexts : (L.left w).contexts = ctx :: rest)
    (bound : ∀ name ∈ names, L.bound w ctx.vars name) : L.Ready w names where
  running := L.running_cons contexts
  hoisted name mem top found := by
    rw [Store.context?, contexts] at found
    cases found
    exact bound name mem

end Ready

namespace Lasts

theorem value : L.Lasts L.value := fun _ _ _ le known => L.value_mono le known

theorem completion : L.Lasts L.completion := by
  intro u t r le known
  cases r with
  | normal v => exact fun a h => L.value_mono le (known a h)
  | returns v => exact L.value_mono le known
  | breaks _ => trivial
  | continues _ => trivial

theorem abrupt : L.Lasts L.abrupt := by
  intro u t e le known
  cases e with
  | fault f => exact known
  | thrown v => exact L.value_mono le known

theorem except {α : Type} {Q : L.World → α → Prop} (lasts : L.Lasts Q) : L.Lasts (L.except Q) := by
  intro u t r le known
  cases r with
  | ok a => exact lasts le known
  | error e => exact abrupt le known

end Lasts

namespace Trail

variable {limit : Nat} {w v u : L.World} {path : List Moment}

theorem le (h : L.Trail limit w path u) : L.le w u := by
  induction h with
  | done onward => exact onward.le
  | reached onward _ _ ih => exact L.trans onward.le ih
  | raised _ _ ih => exact ih
  | noted onward _ _ ih => exact L.trans onward.le ih
  | turned onward _ le _ ih => exact L.trans onward.le (L.trans le ih)

theorem before (first : L.Onward w v) (h : L.Trail limit v path u) : L.Trail limit w path u := by
  induction h with
  | done onward => exact .done (first.trans onward)
  | reached onward depth rest _ => exact .reached (first.trans onward) depth rest
  | raised permitted _ ih => exact .raised permitted (ih first)
  | noted onward lawful rest _ => exact .noted (first.trans onward) lawful rest
  | turned onward turns le rest _ => exact .turned (first.trans onward) turns le rest

theorem append {later : List Moment} (h : L.Trail limit w path v) (rest : L.Trail limit v later u) :
    L.Trail limit w (path ++ later) u := by
  induction h with
  | done onward => exact rest.before onward
  | reached onward depth _ ih => exact .reached onward depth (ih rest)
  | raised permitted _ ih => exact .raised permitted (ih rest)
  | noted onward lawful _ ih => exact .noted onward lawful (ih rest)
  | turned onward turns le _ ih => exact .turned onward turns le (ih rest)

/-- A path on which nothing happened but faults. -/
theorem silent (permits : ∀ f, L.permits f) (onward : L.Onward w u) (silent : ∀ moment ∈ path, ∃ f, moment = .raised f) :
    L.Trail limit w path u := by
  induction path with
  | nil => exact .done onward
  | cons moment rest ih =>
    obtain ⟨f, rfl⟩ := silent moment (List.mem_cons_self ..)
    exact .raised (permits f) (ih fun moment mem => silent moment (List.mem_cons_of_mem _ mem))

theorem onward_of_silent (h : L.Trail limit w path u) (silent : ∀ moment ∈ path, ∃ f, moment = .raised f) :
    L.Onward w u := by
  induction h with
  | done onward => exact onward
  | raised _ _ ih => exact ih fun moment mem => silent moment (List.mem_cons_of_mem _ mem)
  | reached | noted | turned =>
    obtain ⟨_, clash⟩ := silent _ (List.mem_cons_self ..)
    cases clash

/-- Every store on a path is that of a world after the first. -/
theorem store {t : Store} (h : L.Trail limit w path u) (mem : .reached t ∈ path) :
    ∃ v, L.left v = t ∧ L.le w v ∧ L.le v u ∧ t.depth ≤ limit := by
  induction h with
  | done => cases mem
  | @reached w v u path onward depth rest ih =>
    cases mem with
    | head => exact ⟨v, rfl, onward.le, rest.le, depth⟩
    | tail _ mem =>
      obtain ⟨x, hx, first, second, bound⟩ := ih mem
      exact ⟨x, hx, L.trans onward.le first, second, bound⟩
  | raised _ _ ih =>
    cases mem with
    | tail _ mem => exact ih mem
  | noted onward _ _ ih =>
    cases mem with
    | tail _ mem =>
      obtain ⟨x, hx, first, second, bound⟩ := ih mem
      exact ⟨x, hx, L.trans onward.le first, second, bound⟩
  | turned onward _ le _ ih =>
    cases mem with
    | tail _ mem =>
      obtain ⟨x, hx, first, second, bound⟩ := ih mem
      exact ⟨x, hx, L.trans onward.le (L.trans le first), second, bound⟩

theorem fault {f : Fault} (h : L.Trail limit w path u) (mem : .raised f ∈ path) : L.permits f := by
  induction h with
  | done => cases mem
  | raised permitted _ ih =>
    cases mem with
    | head => exact permitted
    | tail _ mem => exact ih mem
  | reached _ _ _ ih | noted _ _ _ ih | turned _ _ _ _ ih =>
    cases mem with
    | tail _ mem => exact ih mem

/-- What code did on the way was lawful, or a turn in the life of a generator. -/
theorem event {e : Event} {t : Store} (h : L.Trail limit w path u) (mem : .noted e t ∈ path) :
    (∃ v, L.left v = t ∧ L.le w v ∧ L.lawful v e) ∨ ∃ s : Store, s.Turns e t := by
  have later {w v : L.World} (le : L.le w v)
      (known : (∃ u, L.left u = t ∧ L.le v u ∧ L.lawful u e) ∨ ∃ s : Store, s.Turns e t) :
      (∃ u, L.left u = t ∧ L.le w u ∧ L.lawful u e) ∨ ∃ s : Store, s.Turns e t :=
    known.imp_left fun ⟨u, left, le', lawful⟩ => ⟨u, left, L.trans le le', lawful⟩
  induction h with
  | done => cases mem
  | noted onward lawful _ ih =>
    cases mem with
    | head => exact .inl ⟨_, rfl, onward.le, lawful⟩
    | tail _ mem => exact later onward.le (ih mem)
  | turned onward turns le _ ih =>
    cases mem with
    | head => exact .inr ⟨_, turns⟩
    | tail _ mem => exact later (L.trans onward.le le) (ih mem)
  | reached onward _ _ ih =>
    cases mem with
    | tail _ mem => exact later onward.le (ih mem)
  | raised _ _ ih =>
    cases mem with
    | tail _ mem => exact ih mem

/-- What follows a store on a path follows a world of it. -/
theorem after {before later : List Moment} {t : Store} (h : L.Trail limit w (before ++ .reached t :: later) u) :
    ∃ v, L.left v = t ∧ L.le w v ∧ L.Trail limit v later u := by
  induction before generalizing w with
  | nil =>
    cases h with
    | reached onward _ rest => exact ⟨_, rfl, onward.le, rest⟩
  | cons moment before ih =>
    cases h with
    | reached onward _ rest =>
      obtain ⟨v, left, le, trail⟩ := ih rest
      exact ⟨v, left, L.trans onward.le le, trail⟩
    | raised _ rest => exact ih rest
    | noted onward _ rest =>
      obtain ⟨v, left, le, trail⟩ := ih rest
      exact ⟨v, left, L.trans onward.le le, trail⟩
    | turned onward _ le rest =>
      obtain ⟨v, left, le', trail⟩ := ih rest
      exact ⟨v, left, L.trans onward.le (L.trans le le'), trail⟩

end Trail

theorem depth_le_limit (c : Config) (w : L.World) : (L.left w).depth ≤ L.limit c w := Nat.le_max_right ..

namespace Ends

variable {α : Type} {c : Config} {w u : L.World} {Q : L.World → α → Prop} {o r : Outcome α}

/-- A value, on stores that are those of the world it is reached in. -/
theorem value_of {limit : Nat} {a : α} {s t : Store} (reached : L.Reached w u) (post : Q u a) (left : L.left u = s)
    (right : L.right u = t) : L.Ends limit w Q u (.value a s) (.value a t) := by
  subst left right
  exact .value reached post

theorem abrupt_of {limit : Nat} {e : Abrupt} {s t : Store} (reached : L.Reached w u) (post : L.abrupt u e)
    (left : L.left u = s) (right : L.right u = t) : L.Ends limit w Q u (.abrupt e s) (.abrupt e t) := by
  subst left right
  exact .abrupt reached post

theorem store (h : L.Ends (L.limit c w) w Q u o r) : o.store = L.left u := by cases h <;> rfl

/-- What ends as seen from a world ends as seen from an earlier one. -/
theorem before {v : L.World} {limit : Nat} (reached : L.Reached w v) (h : L.Ends limit v Q u o r) :
    L.Ends limit w Q u o r := by
  cases h with
  | value later post => exact .value (reached.trans later) post
  | abrupt later post => exact .abrupt (reached.trans later) post
  | exhausted depth => exact .exhausted depth

theorem depth (h : L.Ends (L.limit c w) w Q u o r) : (L.left u).depth ≤ L.limit c w := by
  cases h with
  | value reached _ => exact reached.depth ▸ depth_le_limit c w
  | abrupt reached _ => exact reached.depth ▸ depth_le_limit c w
  | exhausted depth => exact depth

end Ends

end Law

end Ecma
