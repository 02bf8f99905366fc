import Ecma.Proofs.Host

/-!
# The life of a binding

A binding in a record of its own is created, may be given values, and may be deleted if it was created so. Whatever code
and host do, a binding that cannot be deleted stays and keeps its flags, one that has a value has one for good, and an
immutable one has the same value for good. So the name of a function expression always stands for the function in the
scope that was made for it.
-/

namespace Ecma

namespace Binding

/-- What may become of a binding that stays. -/
structure Advances (b b' : Binding) : Prop where
  mutable : b'.mutable = b.mutable
  deletable : b'.deletable = b.deletable
  initialized : b.initialized = true → b'.initialized = true
  constant : b.mutable = false → b.initialized = true → b' = b

namespace Advances

variable {b b' b'' : Binding}

theorem refl (b : Binding) : b.Advances b := ⟨rfl, rfl, id, fun _ _ => rfl⟩

theorem trans (first : b.Advances b') (second : b'.Advances b'') : b.Advances b'' where
  mutable := second.mutable.trans first.mutable
  deletable := second.deletable.trans first.deletable
  initialized h := second.initialized (first.initialized h)
  constant fixed settled := by
    have same := first.constant fixed settled
    subst same
    exact second.constant fixed settled

/-- A mutable binding is given another value. -/
theorem assign (mutable : b.mutable = true) (v : Value) : b.Advances { b with value := v } where
  mutable := rfl
  deletable := rfl
  initialized := id
  constant immutable := by simp [mutable] at immutable

/-- An immutable binding is given its value. -/
theorem settle (pending : b.initialized = false) (v : Value) :
    b.Advances { b with value := v, initialized := true } where
  mutable := rfl
  deletable := rfl
  initialized _ := rfl
  constant _ settled := by simp [pending] at settled

end Advances

/-- What one change may do to what a name is bound to. -/
inductive Step : Option Binding → Option Binding → Prop where
  | same (b : Option Binding) : Step b b
  | created {b : Binding} (fixed : b.mutable = false → b.deletable = false)
      (valued : b.mutable = true → b.initialized = true) : Step none (some b)
  | advanced {b b' : Binding} (advances : b.Advances b') : Step (some b) (some b')
  | deleted {b : Binding} (deletable : b.deletable = true) : Step (some b) none

end Binding

namespace Store

variable {s t u : Store} {e : ScopeRef} {name : String}

/-- No binding is both immutable and deletable. -/
def Fixed (s : Store) : Prop := ∀ e name b, s.binding? e name = some b → b.mutable = false → b.deletable = false

/-- Every name is bound in every scope to what a change may make of its binding. -/
def Rebinds (s t : Store) : Prop := ∀ e name, Binding.Step (s.binding? e name) (t.binding? e name)

/-- Bindings that cannot be deleted stay. -/
def Secures (s t : Store) : Prop :=
  ∀ e name b, s.binding? e name = some b → b.deletable = false → ∃ b', t.binding? e name = some b' ∧ b.Advances b'

theorem Secures.refl (s : Store) : s.Secures s := fun _ _ b found _ => ⟨b, found, .refl b⟩

theorem Secures.trans (first : s.Secures t) (second : t.Secures u) : s.Secures u := by
  intro e name b found fixed
  obtain ⟨b', found', advances⟩ := first e name b found fixed
  obtain ⟨b'', found'', later⟩ := second e name b' found' (advances.deletable.trans fixed)
  exact ⟨b'', found'', advances.trans later⟩

/-- An immutable binding that has its value is there for good. -/
theorem Secures.constant {b : Binding} (h : s.Secures t) (fixed : s.Fixed) (found : s.binding? e name = some b)
    (immutable : b.mutable = false) (settled : b.initialized = true) : t.binding? e name = some b := by
  obtain ⟨b', found', advances⟩ := h e name b found (fixed e name b found immutable)
  rw [found', advances.constant immutable settled]

namespace Rebinds

theorem fixed (h : s.Rebinds t) (old : s.Fixed) : t.Fixed := by
  intro e name b found immutable
  have step := h e name
  rw [found] at step
  generalize before : s.binding? e name = b' at step
  cases step with
  | same => exact old e name b before immutable
  | created fixed => exact fixed immutable
  | advanced advances => exact advances.deletable.trans (old e name _ before (advances.mutable ▸ immutable))

theorem secures (h : s.Rebinds t) : s.Secures t := by
  intro e name b found fixed
  have step := h e name
  rw [found] at step
  generalize t.binding? e name = b' at step
  cases step with
  | same => exact ⟨b, rfl, .refl b⟩
  | advanced advances => exact ⟨_, rfl, advances⟩
  | deleted deletable => simp [deletable] at fixed

theorem of_scopes (same : t.scopes = s.scopes) : s.Rebinds t := by
  intro e name
  have bound : t.binding? e name = s.binding? e name := by rw [binding?, binding?, scope, scope, same]
  rw [bound]
  exact .same _

/-- Replacing the bindings of a scope. -/
theorem withBindings {old new : NameMap Binding} (record : (s.scope e).record = .declarative old)
    (steps : ∀ name, Binding.Step (old.get? name) (new.get? name)) : s.Rebinds (s.withBindings e new) := by
  intro d name
  rcases scope_withBindings_cases s e new d with same | ⟨rfl, _, changed⟩
  · rw [binding?, binding?, same]
    exact .same _
  · rw [binding?, binding?, changed, record]
    exact steps name

theorem insert {old : NameMap Binding} {b : Binding} (record : (s.scope e).record = .declarative old)
    (step : Binding.Step (old.get? name) (some b)) : s.Rebinds (s.withBindings e (old.insert name b)) := by
  refine withBindings record fun other => ?_
  rw [NameMap.get?_insert]
  split
  next same => exact same ▸ step
  · exact .same _

theorem erase {old : NameMap Binding} (record : (s.scope e).record = .declarative old)
    (step : Binding.Step (old.get? name) none) : s.Rebinds (s.withBindings e (old.erase name)) := by
  refine withBindings record fun other => ?_
  rw [NameMap.get?_erase]
  split
  next same => exact same ▸ step
  · exact .same _

/-- A new scope binds nothing. -/
theorem addScope {scope : Scope} (empty : ∀ bindings, scope.record = .declarative bindings → bindings = .empty) :
    s.Rebinds (s.addScope scope) := by
  intro e name
  by_cases last : e.index = s.scopes.size
  · have old : s.binding? e name = none := by
      rw [binding?, Store.scope, Array.getElem?_eq_none (Nat.le_of_eq last.symm)]
      rfl
    have new : (s.addScope scope).binding? e name = none := by
      rw [binding?, scope_addScope, if_pos last]
      split
      next bindings record =>
        rw [empty bindings record]
        rfl
      · rfl
    rw [old, new]
    exact .same _
  · rw [binding?, binding?, scope_addScope, if_neg last]
    exact .same _

end Rebinds

end Store

/-- One change of a run is at most one step in the life of each binding. -/
theorem Change.rebinds {V : Terms} {w : V.World} {F : Store → Store} (made : Change V w F) :
    (V.left w).Rebinds (F (V.left w)) := by
  cases made with
  | addObject | addFunction | addProperty | changeProperty | deleteProperty | close | addGenerator | steer | enter | leave =>
    exact .of_scopes rfl
  | shift => exact .of_scopes (Store.scopes_setLexical ..)
  | addScope made =>
    apply Store.Rebinds.addScope
    intro bindings record
    cases made with
    | declarative =>
      cases record
      rfl
    | object => cases record
  | declare record absent =>
    apply Store.Rebinds.insert record
    rw [NameMap.get?_eq_none_of_contains absent]
    exact .created nofun fun _ => rfl
  | declareImmutable record absent =>
    apply Store.Rebinds.insert record
    rw [NameMap.get?_eq_none_of_contains absent]
    exact .created (fun _ => rfl) nofun
  | assign record found mutable =>
    apply Store.Rebinds.insert record
    rw [found]
    exact .advanced (.assign mutable _)
  | settle record found _ pending =>
    apply Store.Rebinds.insert record
    rw [found]
    exact .advanced (.settle pending _)
  | undeclare record found deletable =>
    apply Store.Rebinds.erase record
    rw [found]
    exact .deleted deletable
  | @changeAliased o m name parameter d p change bindings b _ _ _ _ _ _ record found mutable =>
    -- The object changes first, and with it no scope.
    let redefined := (V.left w).modifyObject o (·.redefined name d change)
    rw [Store.defineAliased_eq]
    dsimp only
    split
    · exact .of_scopes rfl
    · cases d.value with
      | none => exact .of_scopes rfl
      | some v =>
        have passed : redefined.Rebinds (redefined.withBindings m.scope (bindings.insert parameter { b with value := v })) := by
          apply Store.Rebinds.insert record
          rw [found]
          exact .advanced (.assign mutable v)
        exact passed

namespace Bindings

/-- A store in which no binding is both immutable and deletable. -/
abbrev World := { s : Store // s.Fixed }

/-- The world of a store in which bindings have taken a step. -/
def World.next (w : World) {t : Store} (rebinds : w.1.Rebinds t) : World := ⟨t, rebinds.fixed w.2⟩

/-- Worlds in which bindings that cannot be deleted stay. -/
def frame : Frame (.lenient (fun w : World => w.1) (fun _ _ _ => True) (fun _ => True) fun _ _ => False) where
  right w := w.1
  le w u := w.1.Secures u.1
  allows _ _ := True
  refl w := .refl w.1
  trans := .trans
  agree _ := rfl
  agree_size _ := rfl
  agree_drives _ := rfl
  agree_head _ _ := rfl
  drives_idle _ := trivial
  change {w _} made := ⟨w.next made.rebinds, rfl, rfl, made.rebinds.secures⟩
  enclose {w _ _} made :=
    have rebinds := (Change.addScope made).rebinds
    ⟨w.next rebinds, rfl, rfl, rebinds.secures, trivial, trivial, fun _ _ _ _ => trivial⟩

end Bindings

/-- The law of runs in which bindings that cannot be deleted stay. -/
def Law.bindings : Law :=
  .ofFrame Bindings.frame (fun _ _ => trivial) (fun _ _ => trivial) (fun _ _ => .rfl) nofun

namespace Bindings

theorem aliases : Law.bindings.Aliases := by
  refine .of_free (fun _ => trivial) (fun _ _ => trivial) fun {c w o name} _ => ?_
  have rebinds : w.1.Rebinds (w.1.modifyObject o (·.detached name)) := .of_scopes rfl
  have onward : Law.bindings.Onward w (World.next w rebinds) := .of_generators rebinds.secures rfl
  exact fun _ => ⟨_, .done onward, .value_of (onward.reached rfl) trivial rfl rfl⟩

theorem hosts : Law.bindings.Hosts where
  exotics := .of_aliases aliases (fun _ _ _ => trivial) nofun
  permits _ := trivial
  allows _ _ := trivial
  bound _ _ _ := trivial
  declares _ _ _ := trivial
  known _ _ := trivial
  object {w prototype className kind} _ :=
    have rebinds : w.1.Rebinds (w.1.addObject (.fresh prototype className kind [])) := .of_scopes rfl
    ⟨World.next w rebinds, rfl, rfl, rebinds.secures⟩
  scope {w outer} _ :=
    have rebinds : w.1.Rebinds (w.1.addScope ⟨.declarative .empty, outer⟩) := .addScope fun _ record => by
      cases record
      rfl
    ⟨World.next w rebinds, rfl, rfl, rebinds.secures⟩
  objectScope {w o provideThis outer} _ _ :=
    have rebinds : w.1.Rebinds (w.1.addScope ⟨.object o provideThis, outer⟩) := .addScope nofun
    ⟨World.next w rebinds, rfl, rfl, rebinds.secures⟩

theorem binding?_initial (e : ScopeRef) (name : String) : Store.initial.binding? e name = none := by
  rw [Store.binding?, Store.scope]
  cases found : Store.initial.scopes[e.index]? with
  | none => rfl
  | some scope =>
    obtain rfl := List.mem_singleton.1 (Array.mem_toList_iff.2 (Array.mem_of_getElem? found))
    rfl

/-- The world of a fresh machine, whose only scope keeps its bindings in an object. -/
def initial : World := ⟨.initial, fun e name b found => by simp [binding?_initial] at found⟩

end Bindings

namespace BindingCall

variable {E : Engine} {c : Config} {s : Store} {e : ScopeRef} {bindings : NameMap Binding}

/-- A call that says no more than that it was granted. -/
theorem quiet_of_unit {x : Action Unit} (h : x.Quiet c s fun r t => r = some () ∨ t = s) :
    (do x; pure true : Action Bool).Quiet c s fun r t => r = some true ∨ t = s :=
  h.bind (fun _ _ _ => .pure (.inl rfl)) fun _ post => .inr (post.resolve_left nofun)

/-- Of the calls that work on the bindings of a record, only one that is granted changes anything. -/
theorem quiet (record : (s.scope e).record = .declarative bindings) (call : BindingCall) :
    (call.action E e).Quiet c s fun r t => r = some true ∨ t = s := by
  cases call with
  | createMutable name deletable =>
    apply quiet_of_unit
    refine .read_bind ?_
    simp only [record]
    split
    · exact .fail (.inr rfl)
    · exact .modify (.inl rfl)
  | setMutable name v strict =>
    apply quiet_of_unit
    refine .read_bind ?_
    simp only [record, ScopeRef.setDeclarative]
    split
    · exact .fail (.inr rfl)
    · split
      · exact .modify (.inl rfl)
      · split
        · exact .fail (.inr rfl)
        · exact .pure (.inl rfl)
  | createImmutable name =>
    apply quiet_of_unit
    refine .read_bind ?_
    simp only [record]
    split
    · exact .fail (.inr rfl)
    · exact .modify (.inl rfl)
  | initializeImmutable name v =>
    apply quiet_of_unit
    refine .read_bind ?_
    simp only [record]
    split
    · split
      · exact .modify (.inl rfl)
      · exact .fail (.inr rfl)
    · exact .fail (.inr rfl)
  | delete name =>
    refine .read_bind ?_
    simp only [record]
    split
    · exact .pure (.inl rfl)
    next b _ =>
      cases b.deletable with
      | true => exact .modify_bind (.pure (.inl rfl))
      | false => exact .pure (.inr rfl)

/-- A call that is not granted leaves the store as it was. -/
theorem store_of_refused (record : (s.scope e).record = .declarative bindings) (call : BindingCall)
    (refused : ∀ t, call.action E e c s ≠ .value true t) : (call.action E e c s).store = s := by
  have leaves := (quiet (E := E) (c := c) record call).leaves
  generalize call.action E e c s = o at leaves refused ⊢
  cases leaves with
  | abrupt post => exact post.resolve_left nofun
  | @value granted t post =>
    rcases post with same | same
    · cases same
      exact absurd rfl (refused t)
    · exact same

end BindingCall

namespace Store

/-- One store may come after another, as far as the bindings in records of their own are concerned. -/
structure Retains (s t : Store) : Prop where
  /-- A binding that cannot be deleted stays, with its flags, and with a value if it had one. -/
  stays : s.Secures t
  constant : ∀ e name b, s.binding? e name = some b → b.mutable = false → b.initialized = true →
    t.binding? e name = some b

end Store

/-- Every world that follows another keeps what that binds for good. -/
theorem Bindings.retains {w u : World} (le : Law.bindings.le w u) : w.1.Retains u.1 :=
  ⟨le, fun _ _ _ found immutable settled => Store.Secures.constant le w.2 found immutable settled⟩

/-- Evaluating a function expression with a name tells of a scope around the function, in which the name is bound to it
for good. -/
theorem Expr.closure_binds {code : FunctionCode} {name : String} (named : code.name = some name) (c : Config) (s : Store) :
    ∃ e f t strict, closure code c s = .value (.object f) t ∧ (closure code).path c s = [.noted (.binds name e f) t] ∧
      (t.object f).kind = .function (.script code e strict) := by
  let strict := (s.context?.map (·.strict)).getD c.strictGlobal
  obtain ⟨e, f, t, does, _, kind⟩ := namedFunction_does code name s.lexicalScope strict c s
  refine ⟨e, f, t, strict || code.strict, ?_, ?_, kind⟩
  · rw [closure, named]
    show (namedFunction code name s.lexicalScope strict c s).bind _ = _
    rw [does.run]
    rfl
  · rw [closure, named]
    show (namedFunction code name s.lexicalScope strict).path c s ++
      (namedFunction code name s.lexicalScope strict c s).pathAfter _ = _
    rw [does.path, does.run]
    rfl

namespace Machine

variable (config : Config) (calls : List (Nat × HostCall))

/-- Whatever code and host do on a fresh machine, a binding that cannot be deleted stays, with its flags, and with a value
if it had one, and an immutable binding that has a value keeps it. The scope that a function expression makes for its name
binds it to the function from then on. A call that works on the bindings of a record and is not granted leaves the store as
it was. -/
theorem bindings_retained (provides : (new config).Provides calls) :
    (((new config).chronicle calls).filterMap Moment.store?).Pairwise Store.Retains ∧
      (∀ before name e f s after, (new config).chronicle calls = before ++ .noted (.binds name e f) s :: after →
        ∀ t ∈ s :: after.filterMap Moment.store?, t.binding? e name = some (.constant (.object f))) ∧
      (∀ code name, code.name = some name → ∀ c s, ∃ e f t strict, Expr.closure code c s = .value (.object f) t ∧
        (Expr.closure code).path c s = [.noted (.binds name e f) t] ∧
          (t.object f).kind = .function (.script code e strict)) ∧
      ∀ (E : Engine) c (s : Store) e bindings (call : BindingCall), (s.scope e).record = .declarative bindings →
        (∀ t, call.action E e c s ≠ .value true t) → (call.action E e c s).store = s := by
  have tells : Law.bindings.Tells Bindings.initial ((new config).chronicle calls) := Bindings.hosts.tells rfl provides
  refine ⟨?_, ?_, fun code name named => Expr.closure_binds named, fun E c s e bindings call record refused => ?_⟩
  · obtain ⟨ws, stores, ordered, _⟩ := tells.follows
    rw [← stores]
    exact List.pairwise_map.2 (ordered.imp Bindings.retains)
  · intro before name e f s after split
    rw [split] at tells
    obtain ⟨v, left, may, rest⟩ := tells.event
    have bound : s.binding? e name = some (.constant (.object f)) := by
      rcases may with lawful | ⟨_, turns⟩
      · exact left ▸ lawful
      · cases turns
    obtain ⟨ws, stores, _, later⟩ := rest.follows
    refine List.forall_mem_cons.2 ⟨bound, ?_⟩
    rw [← stores]
    intro t mem
    obtain ⟨u, there, rfl⟩ := List.mem_map.1 mem
    subst left
    exact (Bindings.retains (later u there)).constant e name _ bound rfl rfl
  · exact call.store_of_refused record refused

/-- A function that is called to assign to its own name and to delete it, after which the host tries both. -/
def disturbances : List (Nat × HostCall) :=
  [(9, .request (.run (.global ⟨[.expr (.call (.function ⟨some "f", [], [.expr (.assign (.ident "f") .null),
      .expr (.unary .delete (.ident "f"))], false, false⟩) [])], false⟩))),
    (0, .bindings ⟨1⟩ (.setMutable "f" .null false)), (0, .bindings ⟨1⟩ (.delete "f"))]

/-- The name of the function that is called stands for it before, meanwhile and after. -/
theorem bindings_retained_disturbances :
    (new .standard).Provides disturbances ∧
      ∃ before s after, (new .standard).chronicle disturbances = before ++ .noted (.binds "f" ⟨1⟩ ⟨57⟩) s :: after ∧
        ∀ t ∈ s :: after.filterMap Moment.store?, t.binding? ⟨1⟩ "f" = some (.constant (.object ⟨57⟩)) := by
  have provides : (new .standard).Provides disturbances := by
    refine ⟨nofun, ⟨?_, ?_⟩, ⟨?_, nofun⟩, trivial⟩
    · decide +kernel
    · exact List.forall_mem_cons.2 ⟨nofun, List.forall_mem_nil _⟩
    · decide +kernel
  refine ⟨provides, ?_⟩
  have mem : .noted (.binds "f" ⟨1⟩ ⟨57⟩) _ ∈ (new .standard).chronicle disturbances := List.mem_of_getElem? (i := 6) rfl
  obtain ⟨before, after, split⟩ := List.append_of_mem mem
  exact ⟨before, _, after, split, (bindings_retained .standard disturbances provides).2.1 _ _ _ _ _ _ split⟩

end Machine

end Ecma
