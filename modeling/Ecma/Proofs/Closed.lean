import Ecma.Proofs.Host

/-!
# Stores that were built by allocation

A host may make objects and scopes that no code would make, and run code on them. Still every object and scope is made
from what was there before, so in all that follows nothing refers to a place that does not exist. What an object inherits
from is older than the object, the scope around a scope is older than the scope, and where an `arguments` object reads
parameters off another object, that is older too. What is stored for a property is complete, and it is data wherever a
parameter is shown in its place.
-/

namespace Ecma

/-- The object that a scope keeps its bindings in, if it has no record of its own. -/
def ScopeRecord.object? : ScopeRecord → Option ObjectRef
  | declarative _ => none
  | object o _ => some o

namespace Store

section Definitions

variable (s : Store)

/-- The object at a place refers to what is there, and inherits and reads parameters from older objects. -/
structure ObjectClosed (o : ObjectRef) (obj : Object) : Prop where
  properties : ∀ name p, obj.properties.get? name = some p → s.KeepsProperty p
  older : ∀ p, obj.prototype = some p → p.index < o.index
  closure : ∀ code e strict, obj.kind = .function (.script code e strict) → e.index < s.scopes.size
  parameters : ∀ m name parameter, obj.kind = .arguments (some m) → m.parameter? name = some parameter →
    m.scope.index < s.scopes.size ∧ ∀ x, (s.scope m.scope).record.object? = some x → x.index < o.index
  data : ∀ m name parameter p, obj.kind = .arguments (some m) → m.parameter? name = some parameter →
    obj.properties.get? name = some p → p.isData = true

/-- The scope at a place refers to what is there, and lies in an older one. -/
structure ScopeClosed (e : ScopeRef) (scope : Scope) : Prop where
  older : ∀ d, scope.outer = some d → d.index < e.index
  bindings : ∀ bindings name b, scope.record = .declarative bindings → bindings.get? name = some b → s.Holds b.value
  object : ∀ o, scope.record.object? = some o → o.index < s.objects.size

structure ContextClosed (ctx : Context) : Prop where
  lexical : ctx.lexical.index < s.scopes.size
  vars : ctx.vars.index < s.scopes.size
  this : s.Holds ctx.thisValue
  own : ctx.vars = .global ∨ s.Declarative ctx.vars

/-- A store in which nothing refers outside of it. -/
structure Closed : Prop where
  intrinsics : ∀ i : Intrinsic, i.ref.index < s.objects.size
  global : ScopeRef.global.index < s.scopes.size
  objects : ∀ o, s.ObjectClosed o (s.object o)
  scopes : ∀ e, s.ScopeClosed e (s.scope e)
  contexts : ∀ ctx ∈ s.contexts, s.ContextClosed ctx
  generators : ∀ g gen, s.generator? g = some gen → s.ContextClosed gen.context

end Definitions

/-- Places are only added, scopes keep their bindings where they kept them, and indices that stand for no parameter never
come to stand for one. -/
structure Widens (s t : Store) : Prop where
  objects : s.objects.size ≤ t.objects.size
  scopes : s.scopes.size ≤ t.scopes.size
  records : ∀ e, e.index < s.scopes.size → (t.scope e).record.object? = (s.scope e).record.object?
  unaliased : ∀ o name, o.index < s.objects.size → s.Unaliased o name → t.Unaliased o name

variable {s t u : Store} {o : ObjectRef} {e : ScopeRef} {obj : Object} {scope : Scope}

/-- Only what is there inherits. -/
theorem inside_of_prototype {p : ObjectRef} (inherits : (s.object o).prototype = some p) : o.index < s.objects.size := by
  refine Nat.lt_of_not_le fun outside => ?_
  rw [object, Array.getElem?_eq_none outside] at inherits
  cases inherits

theorem declarative_iff : s.Declarative e ↔ e.index < s.scopes.size ∧ (s.scope e).record.object? = none := by
  unfold Declarative
  cases (s.scope e).record with
  | declarative bindings => simp [ScopeRecord.object?]
  | object o provideThis => simp [ScopeRecord.object?]

namespace Widens

theorem refl (s : Store) : s.Widens s := ⟨Nat.le_refl _, Nat.le_refl _, fun _ _ => rfl, fun _ _ _ => id⟩

theorem trans (first : s.Widens t) (second : t.Widens u) : s.Widens u where
  objects := Nat.le_trans first.objects second.objects
  scopes := Nat.le_trans first.scopes second.scopes
  records e inside :=
    (second.records e (Nat.lt_of_lt_of_le inside first.scopes)).trans (first.records e inside)
  unaliased o name inside free :=
    second.unaliased o name (Nat.lt_of_lt_of_le inside first.objects) (first.unaliased o name inside free)

/-- A store that grows is wider. -/
theorem of_grows (grows : s.Grows t) : s.Widens t where
  objects := grows.objects
  scopes := grows.scopes
  records e inside := by
    have record := grows.records e inside
    generalize (s.scope e).record = old at record ⊢
    generalize (t.scope e).record = new at record ⊢
    cases record <;> rfl
  unaliased := grows.unaliased

theorem withBindings {old : NameMap Binding} (record : (s.scope e).record = .declarative old) (new : NameMap Binding) :
    s.Widens (s.withBindings e new) where
  objects := Nat.le_refl _
  scopes := by simp [Store.withBindings, Store.modifyScope]
  records d _ := by
    rcases scope_withBindings_cases s e new d with same | ⟨rfl, _, changed⟩
    · rw [same]
    · rw [changed, record]
      rfl
  unaliased _ _ _ free := free

section Known

variable (h : s.Widens t)
include h

theorem inside (known : e.index < s.scopes.size) : e.index < t.scopes.size := Nat.lt_of_lt_of_le known h.scopes

theorem declarative (known : s.Declarative e) : t.Declarative e := by
  rw [declarative_iff] at known ⊢
  exact ⟨h.inside known.1, (h.records e known.1).trans known.2⟩

theorem objectClosed (ok : s.ObjectClosed o obj) : t.ObjectClosed o obj where
  properties name p found := (ok.properties name p found).mono h.objects
  older := ok.older
  closure code e strict kind := h.inside (ok.closure code e strict kind)
  parameters m name parameter kind aliased := by
    obtain ⟨inside, older⟩ := ok.parameters m name parameter kind aliased
    rw [h.records m.scope inside]
    exact ⟨h.inside inside, older⟩
  data := ok.data

theorem scopeClosed (ok : s.ScopeClosed e scope) : t.ScopeClosed e scope where
  older := ok.older
  bindings bindings name b record found := (ok.bindings bindings name b record found).mono h.objects
  object o record := Nat.lt_of_lt_of_le (ok.object o record) h.objects

theorem contextClosed {ctx : Context} (ok : s.ContextClosed ctx) : t.ContextClosed ctx :=
  ⟨h.inside ok.lexical, h.inside ok.vars, ok.this.mono h.objects, ok.own.imp_right h.declarative⟩

end Known

end Widens

namespace ObjectClosed

/-- An object that stands for no more than it did, with properties that hold what is there. -/
theorem modify {obj' : Object} (ok : s.ObjectClosed o obj) (prototype : obj'.prototype = obj.prototype)
    (narrows : obj.kind.Narrows obj'.kind) (properties : ∀ name p, obj'.properties.get? name = some p → s.KeepsProperty p)
    (data : ∀ m name parameter p, obj'.kind = .arguments (some m) → m.parameter? name = some parameter →
      obj'.properties.get? name = some p → p.isData = true) : s.ObjectClosed o obj' where
  properties := properties
  older p inherits := ok.older p (prototype ▸ inherits)
  closure code e strict kind := by
    rw [kind] at narrows
    generalize before : obj.kind = old at narrows
    cases narrows with
    | same => exact ok.closure code e strict before
  parameters m name parameter kind aliased := by
    obtain ⟨old, before, scope, names⟩ := narrows.parameter? kind
    rw [scope]
    rcases names name with none | same
    · rw [none] at aliased
      cases aliased
    · exact ok.parameters old name parameter before (same ▸ aliased)
  data := data

/-- Another property is stored, and data if the name stands for a parameter. -/
theorem withProperty {name : String} {p : Property} (ok : s.ObjectClosed o obj) (held : s.KeepsProperty p)
    (data : ∀ m parameter, obj.kind = .arguments (some m) → m.parameter? name = some parameter → p.isData = true) :
    s.ObjectClosed o (obj.withProperty name p) := by
  refine ok.modify rfl .same (fun other q found => ?_) fun m other parameter q kind aliased found => ?_
  · rw [Object.withProperty, NameMap.get?_insert] at found
    split at found
    · cases found
      exact held
    · exact ok.properties other q found
  · rw [Object.withProperty, NameMap.get?_insert] at found
    split at found
    next same =>
      cases found
      exact data m parameter kind (same ▸ aliased)
    · exact ok.data m other parameter q kind aliased found

theorem detached (ok : s.ObjectClosed o obj) (name : String) : s.ObjectClosed o (obj.detached name) := by
  refine ok.modify Object.prototype_detached (Object.narrows_detached obj name) ?_ ?_
  · rw [Object.properties_detached]
    exact ok.properties
  · intro m other parameter p kind aliased found
    obtain ⟨old, before, _, names⟩ := Object.parameter?_of_detached kind
    rw [names] at aliased
    rw [Object.properties_detached] at found
    split at aliased
    · cases aliased
    · exact ok.data old other parameter p before aliased found

theorem without (ok : s.ObjectClosed o obj) (name : String) : s.ObjectClosed o (obj.without name) := by
  have kept {other : String} {p : Property} (found : (obj.without name).properties.get? other = some p) :
      obj.properties.get? other = some p := by
    rw [Object.without, Object.properties_detached, NameMap.get?_erase] at found
    split at found
    · cases found
    · exact found
  refine ok.modify Object.prototype_detached (Object.narrows_without obj name)
    (fun other p found => ok.properties other p (kept found)) fun m other parameter p kind aliased found => ?_
  obtain ⟨old, before, _, names⟩ := (Object.narrows_without obj name).parameter? kind
  rcases names other with none | same
  · rw [none] at aliased
    cases aliased
  · exact ok.data old other parameter p before (same ▸ aliased) (kept found)

/-- An index that stands for a parameter is redefined. Where it becomes an accessor it stands for the parameter no
longer. -/
theorem redefined {d : Descriptor} {change : Option Property} {name : String} (ok : s.ObjectClosed o obj)
    (held : ∀ q, change = some q → s.KeepsProperty q)
    (data : d.isAccessor = false → ∀ q, change = some q → q.isData = true) :
    s.ObjectClosed o (obj.redefined name d change) := by
  unfold Object.redefined
  dsimp only
  split
  · cases change with
    | none => exact ok.detached name
    | some q =>
      rw [Option.map_some, Option.getD_some, Object.detached_withProperty]
      refine (ok.detached name).withProperty (held q rfl) fun m parameter kind aliased => ?_
      obtain ⟨_, _, _, names⟩ := Object.parameter?_of_detached kind
      rw [names, if_pos rfl] at aliased
      cases aliased
  next stays =>
    rw [not_or, Bool.not_eq_true] at stays
    cases change with
    | none => exact ok
    | some q => exact ok.withProperty (held q rfl) fun _ _ _ _ => data stays.1 q rfl

/-- A new object that holds what is there. -/
theorem of_held (held : s.ObjectHeld obj)
    (closure : ∀ code e strict, obj.kind = .function (.script code e strict) → e.index < s.scopes.size)
    (parameters : ∀ m name parameter, obj.kind = .arguments (some m) → m.parameter? name = some parameter →
      m.scope.index < s.scopes.size)
    (data : ∀ m name parameter p, obj.kind = .arguments (some m) → m.parameter? name = some parameter →
      obj.properties.get? name = some p → p.isData = true)
    (records : ∀ e x, (s.scope e).record.object? = some x → x.index < s.objects.size) :
    s.ObjectClosed s.nextObject obj where
  properties := held.properties
  older := held.prototype
  closure := closure
  parameters m name parameter kind aliased := ⟨parameters m name parameter kind aliased, records m.scope⟩
  data := data

end ObjectClosed

namespace Closed

variable (h : s.Closed)
include h

theorem holding : s.Holding where
  properties o := (h.objects o).properties
  aliases o := (h.objects o).data
  bindings e := (h.scopes e).bindings

theorem prototype_inside {p : ObjectRef} (inherits : (s.object o).prototype = some p) : p.index < s.objects.size := by
  have older := (h.objects o).older p inherits
  have present := inside_of_prototype inherits
  omega

/-- A store that a closed one becomes is closed when all that is new or changed in it is. -/
theorem widen (widens : s.Widens t) (objects : ∀ o, t.object o = s.object o ∨ t.ObjectClosed o (t.object o))
    (scopes : ∀ e, t.scope e = s.scope e ∨ t.ScopeClosed e (t.scope e))
    (contexts : ∀ ctx ∈ t.contexts, ctx ∈ s.contexts ∨ t.ContextClosed ctx)
    (generators : ∀ g gen, t.generator? g = some gen → s.generator? g = some gen ∨ t.ContextClosed gen.context) :
    t.Closed where
  intrinsics i := Nat.lt_of_lt_of_le (h.intrinsics i) widens.objects
  global := widens.inside h.global
  objects o := (objects o).elim (fun old => old ▸ widens.objectClosed (h.objects o)) id
  scopes e := (scopes e).elim (fun old => old ▸ widens.scopeClosed (h.scopes e)) id
  contexts ctx mem := (contexts ctx mem).elim (fun old => widens.contextClosed (h.contexts ctx old)) id
  generators g gen found := (generators g gen found).elim (fun old => widens.contextClosed (h.generators g gen old)) id

theorem addObject (ok : s.ObjectClosed s.nextObject obj) : (s.addObject obj).Closed := by
  have widens : s.Widens (s.addObject obj) := .of_grows (.addObject ..)
  refine h.widen widens (fun o => ?_) (fun _ => .inl rfl) (fun _ mem => .inl mem) fun _ _ => .inl
  rw [object_addObject]
  split
  next last =>
    obtain rfl : o = s.nextObject := by
      cases o
      exact congrArg ObjectRef.mk last
    exact .inr (widens.objectClosed ok)
  · exact .inl rfl

theorem modifyObject {f : Object → Object} (narrows : (s.object o).kind.Narrows (f (s.object o)).kind)
    (ok : s.ObjectClosed o (f (s.object o))) : (s.modifyObject o f).Closed := by
  have widens : s.Widens (s.modifyObject o f) := .of_grows (.modifyObject narrows)
  refine h.widen widens (fun other => ?_) (fun _ => .inl rfl) (fun _ mem => .inl mem) fun _ _ => .inl
  rcases object_modifyObject_cases s o f other with same | ⟨rfl, _, new⟩
  · exact .inl same
  · rw [new]
    exact .inr (widens.objectClosed ok)

theorem addScope (ok : s.ScopeClosed ⟨s.scopes.size⟩ scope) : (s.addScope scope).Closed := by
  have widens := Widens.of_grows (Grows.addScope s scope)
  refine h.widen widens (fun _ => .inl rfl) (fun e => ?_) (fun _ mem => .inl mem) fun _ _ => .inl
  rw [scope_addScope]
  split
  next last =>
    obtain rfl : e = ⟨s.scopes.size⟩ := by
      cases e
      exact congrArg ScopeRef.mk last
    exact .inr (widens.scopeClosed ok)
  · exact .inl rfl

theorem withBindings {old new : NameMap Binding} (record : (s.scope e).record = .declarative old)
    (values : ∀ name b, new.get? name = some b → s.Holds b.value) : (s.withBindings e new).Closed := by
  have widens := Widens.withBindings record new
  refine h.widen widens (fun _ => .inl rfl) (fun d => ?_) (fun _ mem => .inl mem) fun _ _ => .inl
  rcases scope_withBindings_cases s e new d with same | ⟨rfl, _, changed⟩
  · exact .inl same
  · rw [changed]
    refine .inr (widens.scopeClosed ⟨(h.scopes d).older, ?_, nofun⟩)
    rintro _ name b ⟨⟩ found
    exact values name b found

theorem bind {old : NameMap Binding} {name : String} {b : Binding} (record : (s.scope e).record = .declarative old)
    (held : s.Holds b.value) : (s.withBindings e (old.insert name b)).Closed := by
  refine h.withBindings record fun other b' found => ?_
  rw [NameMap.get?_insert] at found
  split at found
  · cases found
    exact held
  · exact (h.scopes e).bindings old other b' record found

theorem unbind {old : NameMap Binding} {name : String} (record : (s.scope e).record = .declarative old) :
    (s.withBindings e (old.erase name)).Closed := by
  refine h.withBindings record fun other b found => ?_
  rw [NameMap.get?_erase] at found
  split at found
  · cases found
  · exact (h.scopes e).bindings old other b record found

/-- Contexts and generators that refer to what is there. -/
theorem of_same (objects : t.objects = s.objects) (scopes : t.scopes = s.scopes)
    (contexts : ∀ ctx ∈ t.contexts, ctx ∈ s.contexts ∨ s.ContextClosed ctx)
    (generators : ∀ g gen, t.generator? g = some gen → s.generator? g = some gen ∨ s.ContextClosed gen.context) :
    t.Closed := by
  have widens : s.Widens t := .of_grows (.of_same objects scopes)
  refine h.widen widens (fun o => .inl ?_) (fun e => .inl ?_)
    (fun ctx mem => (contexts ctx mem).imp_right widens.contextClosed)
    fun g gen found => (generators g gen found).imp_right widens.contextClosed
  · rw [Store.object, Store.object, objects]
  · rw [Store.scope, Store.scope, scopes]

/-- A function refers to what its instances inherit from, which is added right after it and refers back. -/
theorem addFunction {code : FunctionCode} {strict : Bool} (inside : e.index < s.scopes.size) :
    (s.addFunction code e strict).Closed := by
  let function := Object.function code e strict ⟨s.nextObject.index + 1⟩
  have first : (s.addObject function).objects.size = s.objects.size + 1 := by simp [Store.addObject]
  have second := s.size_addFunction code e strict
  have instances : (s.addObject function).ObjectHeld (.instancePrototype code s.nextObject) := by
    refine objectHeld_instancePrototype (fun i => ?_) ?_
    · have := h.intrinsics i
      omega
    · simp only [first, nextObject]
      omega
  have held : (s.addFunction code e strict).ObjectHeld function := (objectHeld_addFunction h.intrinsics ..).2
  refine h.widen (.of_grows (.addFunction ..)) (fun o => ?_) (fun _ => .inl rfl) (fun _ mem => .inl mem) fun _ _ => .inl
  rw [object_addFunction]
  split
  next last =>
    obtain ⟨noCode, noAlias⟩ := Object.instancePrototype_plain code s.nextObject
    refine .inr ⟨fun name p found => (instances.properties name p found).mono (by omega), fun p inherits => ?_, ?_, ?_, ?_⟩
    · have := instances.prototype p inherits
      omega
    · exact fun code e strict kind => absurd kind (noCode code e strict)
    · exact fun m _ _ kind => absurd kind (noAlias m)
    · exact fun m _ _ _ kind => absurd kind (noAlias m)
  next =>
    split
    next last =>
      refine .inr ⟨held.properties, ?_, ?_, ?_, ?_⟩
      · rintro _ ⟨⟩
        exact last ▸ h.intrinsics .functionPrototype
      · rintro _ _ _ ⟨⟩
        exact inside
      · intro _ _ _ arguments
        cases arguments
      · intro _ _ _ _ arguments
        cases arguments
    · exact .inl rfl

end Closed

end Store

namespace Closed

/-- A store in which nothing refers outside of it. -/
abbrev World := { s : Store // s.Closed }

/-- What code may use where nothing is asked but that it is there. -/
def terms : Terms where
  World := World
  left w := w.1
  value w v := w.1.Holds v
  scope w e _ := e.index < w.1.scopes.size
  bound _ _ _ := True
  parameter w e _ := e.index < w.1.scopes.size
  declarative w e := w.1.Declarative e
  within _ _ _ := True
  unaliased w o name := o.index < w.1.objects.size ∧ w.1.Unaliased o name
  declares _ _ _ := True
  drives _ := True
  watches _ _ := False
  permits _ := True

variable {w u : World} {o : ObjectRef} {obj : Object}

theorem inside (known : terms.object w o) : o.index < w.1.objects.size := known o rfl

theorem contextClosed {ctx : Context} (known : terms.context w ctx) : w.1.ContextClosed ctx :=
  ⟨known.1, known.2.1, known.2.2.1, known.2.2.2.2⟩

theorem objectClosed_of_makes (made : Makes terms w obj) : w.1.ObjectClosed w.1.nextObject obj := by
  have held : w.1.ObjectHeld obj := Store.objectHeld_of_makes w.2.intrinsics (fun _ => id) made
  refine .of_held held (fun code e strict kind => ?_) (fun m name parameter kind aliased => ?_)
    (fun m name parameter p kind aliased found => ?_) fun e => (w.2.scopes e).object
  · exact absurd kind (made.kind_ne_script code e strict)
  · exact (made.aliases kind aliased).1
  · obtain ⟨_, v, stored⟩ := made.aliases kind aliased
    cases stored.symm.trans found
    rfl

/-- A new scope in a scope that is there, or in none. -/
theorem scopeClosed {scope : Scope} (outer : w.1.Offers scope.outer)
    (empty : ∀ bindings, scope.record = .declarative bindings → bindings = .empty)
    (object : ∀ o, scope.record.object? = some o → o.index < w.1.objects.size) :
    w.1.ScopeClosed ⟨w.1.scopes.size⟩ scope where
  older := outer
  bindings bindings name b record found := by
    rw [empty bindings record] at found
    cases found
  object := object

theorem scopeClosed_of_encloses {scope : Scope} {strict : Bool} (made : Encloses terms w strict scope) :
    w.1.ScopeClosed ⟨w.1.scopes.size⟩ scope := by
  cases made with
  | declarative outer =>
    refine scopeClosed ?_ ?_ nofun
    · rintro _ ⟨⟩
      exact outer
    · rintro _ ⟨⟩
      rfl
  | object _ known outer =>
    refine scopeClosed ?_ nofun ?_
    · rintro _ ⟨⟩
      exact outer
    · rintro _ ⟨⟩
      exact inside known

/-- Every change leads from a closed store to a wider one that is closed. -/
theorem change {F : Store → Store} (made : Change terms w F) : (F w.1).Closed ∧ w.1.Widens (F w.1) := by
  have modify {o : ObjectRef} {f : Object → Object} (narrows : (w.1.object o).kind.Narrows (f (w.1.object o)).kind)
      (ok : w.1.ObjectClosed o (f (w.1.object o))) :
      (w.1.modifyObject o f).Closed ∧ w.1.Widens (w.1.modifyObject o f) :=
    ⟨w.2.modifyObject narrows ok, .of_grows (.modifyObject narrows)⟩
  have store {o : ObjectRef} {name : String} {q : Property} (unaliased : terms.unaliased w o name)
      (held : w.1.KeepsProperty q) :
      (w.1.modifyObject o (·.withProperty name q)).Closed ∧ w.1.Widens (w.1.modifyObject o (·.withProperty name q)) := by
    refine modify .same ((w.2.objects o).withProperty held fun m parameter kind aliased => ?_)
    rw [unaliased.2 m kind] at aliased
    cases aliased
  cases made with
  | addObject made => exact ⟨w.2.addObject (objectClosed_of_makes made), .of_grows (.addObject ..)⟩
  | addFunction known => exact ⟨w.2.addFunction known, .of_grows (.addFunction ..)⟩
  | addProperty _ _ known _ unaliased =>
    exact store unaliased (Store.keepsProperty_complete known.1 known.2.1 known.2.2)
  | changeProperty present granted known unmixed unaliased =>
    exact store unaliased (w.2.holding.redefine present granted unmixed known.1 known.2.1 known.2.2)
  | deleteProperty => exact modify (Object.narrows_without ..) ((w.2.objects _).without _)
  | close o =>
    have ok := w.2.objects o
    exact modify .same (ok.modify rfl .same ok.properties ok.data)
  | @changeAliased o m name parameter d p change bindings b kind aliased present granted known unmixed record =>
    have held (q : Property) (changed : change = some q) : w.1.KeepsProperty q := by
      subst changed
      exact w.2.holding.redefine present granted unmixed known.1 known.2.1 known.2.2
    have data (plain : d.isAccessor = false) (q : Property) (changed : change = some q) : q.isData = true := by
      subst changed
      exact Property.isData_of_changed granted (w.2.holding.keepsProperty_getOwn? present).complete
        (Store.isData_of_aliased kind aliased present) plain
    have redefined := modify (f := (·.redefined name d change)) (Object.narrows_redefined ..)
      ((w.2.objects o).redefined held data)
    rw [Store.defineAliased_eq]
    dsimp only
    split
    · exact redefined
    · cases requested : d.value with
      | none => exact redefined
      | some v =>
        have widens := Store.Widens.withBindings (s := w.1.modifyObject o (·.redefined name d change)) record
        exact ⟨redefined.1.bind record ((known.1 v requested).mono redefined.2.objects), redefined.2.trans (widens _)⟩
  | addScope made => exact ⟨w.2.addScope (scopeClosed_of_encloses made), .of_grows (.addScope ..)⟩
  | declare record => exact ⟨w.2.bind record (Store.holds_of_isPrimitive rfl), .withBindings record _⟩
  | declareImmutable record => exact ⟨w.2.bind record (Store.holds_of_isPrimitive rfl), .withBindings record _⟩
  | assign record _ _ known => exact ⟨w.2.bind record known, .withBindings record _⟩
  | settle record _ _ _ known => exact ⟨w.2.bind record known, .withBindings record _⟩
  | undeclare record => exact ⟨w.2.unbind record, .withBindings record _⟩
  | addGenerator known =>
    refine ⟨w.2.of_same rfl rfl (fun _ mem => .inl mem) fun g gen found => ?_, .of_grows (.of_same rfl rfl)⟩
    rw [Store.generator?_addGenerator] at found
    split at found
    · cases found
      exact .inr (contextClosed known.1)
    · exact .inl found
  | steer _ known =>
    refine ⟨w.2.of_same rfl rfl (fun _ mem => .inl mem) fun g gen found => ?_, .of_grows (.of_same rfl rfl)⟩
    rw [Store.generator?_modifyGenerator] at found
    split at found
    next same =>
      subst same
      obtain ⟨old, there, rfl⟩ := Option.map_eq_some_iff.1 found
      exact .inr (contextClosed (known old there).1)
    · exact .inl found
  | enter known =>
    refine ⟨w.2.of_same rfl rfl (fun ctx mem => ?_) fun _ _ => .inl, .of_grows (.of_same rfl rfl)⟩
    rcases List.mem_cons.1 mem with rfl | mem
    · exact .inr (contextClosed known)
    · exact .inl mem
  | leave =>
    exact ⟨w.2.of_same rfl rfl (fun ctx mem => .inl (List.mem_of_mem_tail mem)) fun _ _ => .inl,
      .of_grows (.of_same rfl rfl)⟩
  | @shift e known =>
    have objects := w.1.objects_setLexical e
    have scopes := w.1.scopes_setLexical e
    refine ⟨w.2.of_same objects scopes (fun ctx mem => ?_) fun g gen found => ?_, ?_⟩
    · rcases Store.mem_contexts_setLexical mem with mem | ⟨head, running, rfl⟩
      · exact .inl mem
      · have old := w.2.contexts head (List.mem_of_head? running)
        exact .inr ⟨(known head running).1, old.vars, old.this, old.own⟩
    · rw [Store.generator?, Store.generators_setLexical] at found
      exact .inl found
    · exact .of_grows (.of_same objects scopes)

theorem context_of_closed {ctx : Context} (closed : w.1.ContextClosed ctx) : terms.context w ctx :=
  ⟨closed.lexical, closed.vars, closed.this, trivial, closed.own⟩

end Closed

/-- The law of runs on stores in which nothing refers outside of them. -/
def Law.closed : Law where
  toTerms := Closed.terms
  right w := w.1
  le w u := w.1.Widens u.1
  running _ := True
  allows _ _ := True
  refl w := .refl w.1
  trans := .trans
  agree _ := rfl
  agree_size _ := rfl
  agree_drives _ := rfl
  agree_head _ _ := rfl
  drives_idle _ := trivial
  change made :=
    have next := Closed.change made
    ⟨⟨_, next.1⟩, rfl, rfl, next.2⟩
  enclose {w _ scope} made :=
    have next := Closed.change (.addScope made)
    ⟨⟨_, next.1⟩, rfl, rfl, next.2, by simp [Closed.terms, Store.addScope], trivial, fun _ _ _ _ => trivial⟩
  value_mono le known := known.mono le.objects
  scope_mono le known := le.inside known
  bound_mono _ _ := trivial
  parameter_mono le known := le.inside known
  unaliased_mono le known := ⟨Nat.lt_of_lt_of_le known.1 le.objects, le.unaliased _ _ known.1 known.2⟩
  declarative_mono le known := le.declarative known
  within_mono _ _ := trivial
  declares_mono _ _ := trivial
  primitive := Store.holds_of_isPrimitive
  present := Store.holds_object
  intrinsic w i := Store.holds_object (w.2.intrinsics i)
  own {w _ _ _} found := (w.2.holding.keepsProperty_getOwn? found).holds
  prototype {w o p} inherits := Store.holds_object (w.2.prototype_inside inherits)
  closure {w o code e strict} kind := (w.2.objects o).closure code e strict kind
  binding {w e bindings name b} record found := (w.2.scopes e).bindings bindings name b record found
  record {w e o _} record := Store.holds_object ((w.2.scopes e).object o (congrArg ScopeRecord.object? record))
  contexts {w ctx} mem := Closed.context_of_closed (w.2.contexts ctx mem)
  generators {w g gen} found := ⟨Closed.context_of_closed (w.2.generators g gen found), fun _ _ _ _ => trivial⟩
  watches_iff _ _ := .rfl
  queues := nofun
  within_refl _ _ := trivial
  outer {w e d _} known found := Nat.lt_trans ((w.2.scopes e).older d found) known
  global w _ := w.2.global
  strict_scope known := known
  found _ _ := trivial
  ranged := .inr id
  bound_object _ _ := trivial
  declarative_of known record := ⟨known, _, record⟩
  declarative_record known := .inr known.2
  missing _ _ _ := trivial
  aliasable known _ _ _ _ _ := known
  unaliased_of known _ free := ⟨Closed.inside known, free⟩
  declares_fixed _ _ := trivial
  declares_global _ _ := trivial
  permits_kind _ := trivial
  running_congr _ _ := trivial
  running_cons _ := trivial
  no_context _ _ := trivial

namespace Closed

/-- An object is replaced by one that stands for no more than it did. -/
theorem obeys_modifyObject {α : Type} {c : Config} {f : Object → Object} {a : α} {x y : Action α}
    (narrows : (w.1.object o).kind.Narrows (f (w.1.object o)).kind) (ok : w.1.ObjectClosed o (f (w.1.object o)))
    (left : x.Does c w.1 a (w.1.modifyObject o f)) (right : y.Does c w.1 a (w.1.modifyObject o f)) :
    Law.closed.Obeys c w x y Law.closed.any := by
  have onward : Law.closed.Onward w ⟨_, w.2.modifyObject narrows ok⟩ :=
    .of_generators (.of_grows (.modifyObject narrows)) rfl
  exact .of_does onward rfl left right trivial

/-- What is stored at an index that stands for a parameter when a request is granted. -/
theorem keepsProperty_of_request {m : ParameterMap} {name parameter : String} {d : Descriptor} {q : Property}
    (kind : (w.1.object o).kind = .arguments (some m)) (aliased : m.parameter? name = some parameter)
    (known : terms.descriptor w d) (unmixed : d.isMixed = false)
    (new : w.1.getOwn? o name = none ∧ q = d.complete ∨
      ∃ p, w.1.getOwn? o name = some p ∧ p.redefine d name = .changed q) :
    w.1.KeepsProperty q ∧ (d.isAccessor = false → q.isData = true) := by
  rcases new with ⟨_, rfl⟩ | ⟨p, present, granted⟩
  · refine ⟨Store.keepsProperty_complete known.1 known.2.1 known.2.2, fun plain => ?_⟩
    rw [Descriptor.complete, plain]
    rfl
  · refine ⟨w.2.holding.redefine present granted unmixed known.1 known.2.1 known.2.2, ?_⟩
    exact Property.isData_of_changed granted (w.2.holding.keepsProperty_getOwn? present).complete
      (Store.isData_of_aliased kind aliased present)

/-- An index that becomes an accessor is detached at once, and any other stays data. -/
theorem aliases : Law.closed.Aliases := by
  intro E E' puts c w o m name d throw object kind known unmixed
  have detach {u : World} (_ : Law.closed.Reached w u) : Law.closed.Obeys c u
      (Action.modify (·.modifyObject o (·.detached name))) (Action.modify (·.modifyObject o (·.detached name)))
      Law.closed.any :=
    obeys_modifyObject (Object.narrows_detached ..) ((u.2.objects o).detached name) .modify .modify
  cases aliased : m.parameter? name with
  | none =>
    have unaliased : terms.unaliased w o name := by
      refine ⟨inside object, fun m' kind' => ?_⟩
      cases kind.symm.trans kind'
      exact aliased
    exact Law.defineInArguments_obeys (fun _ => trivial) puts known
      (Law.defineOrdinary_obeys known unmixed unaliased (.of_kind (by simp [kind]))) detach
  | some parameter =>
    rcases ObjectRef.defineOrdinary_cases w.1 o name d with ⟨t, defines, does⟩ | ⟨_, turnsDown⟩
    · obtain ⟨change, rfl, new⟩ := defines.change
      have granted := does c false
      have held (q : Property) (changed : change = some q) :=
        (keepsProperty_of_request kind aliased known unmixed (new q changed)).1
      have data (plain : d.isAccessor = false) (q : Property) (changed : change = some q) :=
        (keepsProperty_of_request kind aliased known unmixed (new q changed)).2 plain
      cases accessor : d.isAccessor with
      | true =>
        -- The store between the two changes would show a mixed property, but nothing runs on it.
        have does (E : Engine) : (o.defineInArguments E m name d throw).Does c w.1 true
            (w.1.modifyObject o (·.redefined name d change)) := by
          refine .bind granted ?_
          rw [if_pos rfl, aliased, ← Store.modifyObject_detached (.inl accessor)]
          dsimp only
          rw [if_pos accessor]
          exact .modify_bind .pure
        exact obeys_modifyObject (Object.narrows_redefined ..) ((w.2.objects o).redefined held data) (does E) (does E')
      | false =>
        refine Law.defineInArguments_obeys (fun _ => trivial) puts known ?_ detach
        cases change with
        | none => exact .of_does (.refl w) rfl granted granted trivial
        | some q =>
          exact obeys_modifyObject .same
            ((w.2.objects o).withProperty (held q rfl) fun _ _ _ _ => data accessor q rfl) granted granted
    · have refused : Law.closed.Obeys c w (o.defineOrdinary name d false) (o.defineOrdinary name d false)
          fun _ defined => defined = false := .of_does (.refl w) rfl (turnsDown c).lenient (turnsDown c).lenient rfl
      refine .bind refused fun defined u _ no => ?_
      rw [no]
      exact .reject trivial

theorem hosts : Law.closed.Hosts where
  exotics := .of_aliases aliases (fun _ object kind =>
    ⟨inside object, fun _ kind' => by cases kind.symm.trans kind'⟩) nofun
  permits _ := trivial
  allows _ _ := trivial
  bound _ _ _ := trivial
  declares _ _ _ := trivial
  known _ inside := inside
  object {w prototype className kind} grounded := by
    have held : w.1.ObjectHeld (.fresh prototype className kind []) :=
      Store.objectHeld_fresh grounded.1 (List.forall_mem_nil _)
    have ok : w.1.ObjectClosed w.1.nextObject (.fresh prototype className kind []) := by
      refine .of_held held ?_ ?_ ?_ fun e => (w.2.scopes e).object
      · rintro _ _ _ ⟨⟩
        exact grounded.2
      · rintro _ _ _ ⟨⟩ _
        exact grounded.2
      · intro _ _ _ _ _ _ found
        cases found
    exact ⟨⟨_, w.2.addObject ok⟩, rfl, rfl, .of_grows (.addObject ..)⟩
  scope {w outer} offers := by
    have ok : w.1.ScopeClosed ⟨w.1.scopes.size⟩ ⟨.declarative .empty, outer⟩ :=
      scopeClosed offers (fun _ record => by cases record; rfl) fun _ record => by cases record
    exact ⟨⟨_, w.2.addScope ok⟩, rfl, rfl, .of_grows (.addScope ..)⟩
  objectScope {w o provideThis outer} known offers := by
    have ok : w.1.ScopeClosed ⟨w.1.scopes.size⟩ ⟨.object o provideThis, outer⟩ :=
      scopeClosed offers (fun _ record => by cases record) fun _ record => by cases record; exact inside known
    exact ⟨⟨_, w.2.addScope ok⟩, rfl, rfl, .of_grows (.addScope ..)⟩

end Closed

namespace Store

/-- A well-formed store is closed if its objects and scopes stand in the order in which they were made. -/
theorem WellFormed.closed {s : Store} {reserved : ScopeRef → Prop} (h : s.WellFormed reserved)
    (prototypes : ∀ o p, (s.object o).prototype = some p → p.index < o.index)
    (outers : ∀ e d, (s.scope e).outer = some d → d.index < e.index) : s.Closed where
  intrinsics := h.intrinsics
  global := h.global.1
  objects o := {
    properties := (h.objects o).properties
    older := prototypes o
    closure := fun code e strict kind => ((h.objects o).closure code e strict kind).1
    parameters := fun m name parameter kind aliased => by
      have bound := ((h.objects o).aliases m name parameter kind aliased).2
      refine ⟨bound.inside, fun x record => ?_⟩
      obtain ⟨bindings, b, own, _⟩ := bound
      rw [own] at record
      cases record
    data := h.holding.aliases o }
  scopes e := {
    older := outers e
    bindings := h.holding.bindings e
    object := fun o record => by
      cases own : (s.scope e).record with
      | declarative bindings =>
        rw [own] at record
        cases record
      | object x provideThis =>
        rw [own] at record
        cases record
        exact (h.scopes e).record o provideThis own }
  contexts ctx mem :=
    have ok := h.contexts ctx mem
    ⟨ok.lexical.1, ok.vars.1, ok.this, ok.own⟩
  generators g gen found :=
    have ok := (h.generators g gen found).context
    ⟨ok.lexical.1, ok.vars.1, ok.this, ok.own⟩

/-- Each intrinsic object and native function is listed after what it inherits from. -/
theorem older_initial {o p : ObjectRef} (inherits : (initial.object o).prototype = some p) : p.index < o.index := by
  have ordered : (initial.objects.toList.zipIdx.all fun entry => entry.1.prototype.all (·.index < entry.2)) = true := by
    decide +kernel
  cases found : initial.objects[o.index]? with
  | none =>
    rw [object, found] at inherits
    cases inherits
  | some obj =>
    rw [object, found, Option.getD_some] at inherits
    have listed : (obj, o.index) ∈ initial.objects.toList.zipIdx := by
      rw [List.mem_zipIdx_iff_getElem?, Array.getElem?_toList]
      exact found
    have older := List.all_eq_true.1 ordered _ listed
    rw [inherits, Option.all_some] at older
    exact of_decide_eq_true older

theorem closed_initial : initial.Closed := by
  refine wellFormed_initial.closed (fun _ _ => older_initial) fun e d outer => ?_
  cases found : initial.scopes[e.index]? with
  | none =>
    rw [scope, found] at outer
    cases outer
  | some global =>
    obtain rfl := List.mem_singleton.1 (Array.mem_toList_iff.2 (Array.mem_of_getElem? found))
    rw [scope, found] at outer
    cases outer

end Store

/-- Every store of a chronicle on a fresh machine is closed. -/
theorem Machine.closed_of_chronicle {config : Config} {calls : List (Nat × HostCall)} {s : Store}
    (provides : (new config).Provides calls) (reached : .reached s ∈ (new config).chronicle calls) : s.Closed := by
  have tells : Law.closed.Tells ⟨.initial, Store.closed_initial⟩ ((new config).chronicle calls) :=
    Closed.hosts.tells rfl provides
  obtain ⟨ws, stores, _, _⟩ := tells.follows
  have mem : s ∈ ((new config).chronicle calls).filterMap Moment.store? := List.mem_filterMap.2 ⟨_, reached, rfl⟩
  rw [← stores] at mem
  obtain ⟨w, _, rfl⟩ := List.mem_map.1 mem
  exact w.2

end Ecma
