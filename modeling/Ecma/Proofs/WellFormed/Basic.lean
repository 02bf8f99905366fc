import Ecma.Proofs.Law.Program

/-!
# Well-formed stores

What is true of every store that a run from a fresh machine passes. Nothing refers to a place that does not exist, and
what is stored for a property is complete. A binding can be deleted only where no code is that could delete it, which is
why some scopes are reserved for strict code. An index of an `arguments` object that stands for a parameter is writable
data, and the parameter is a binding that can be set and will stay. Code looks names up from a scope inside the one that
has its variables, and what the steps of a generator declare is bound there.

A store grows into another when places are only added, scopes stay where they are and keep the bindings that they have,
and indices that stand for no parameter never come to stand for one. All that well-formedness asks of a part of the store
survives growth.
-/

namespace Ecma

namespace Store

/-- A value that refers to an object of the store, if to any. -/
def Holds (s : Store) (v : Value) : Prop := ∀ o, v = .object o → o.index < s.objects.size

/-- The values of a property refer to objects of the store. -/
def HoldsProperty (s : Store) (p : Property) : Prop :=
  (∀ v, p.descriptor.value = some v → s.Holds v) ∧ (∀ g, p.descriptor.get = some g → s.Holds g) ∧
    ∀ t, p.descriptor.set = some t → s.Holds t

/-- A property is complete and its values refer to objects of the store. -/
inductive KeepsProperty (s : Store) : Property → Prop where
  | data {v : Value} {w e c : Bool} (value : s.Holds v) : KeepsProperty s (.data v w e c)
  | accessor {g t : Value} {e c : Bool} (get : s.Holds g) (set : s.Holds t) : KeepsProperty s (.accessor g t e c)

/-- All properties are complete, and data at an index that stands for a parameter. The values of properties and bindings
refer to objects of the store. -/
structure Holding (s : Store) : Prop where
  properties : ∀ o name p, (s.object o).properties.get? name = some p → s.KeepsProperty p
  aliases : ∀ o m name parameter p, (s.object o).kind = .arguments (some m) → m.parameter? name = some parameter →
    (s.object o).properties.get? name = some p → p.isData = true
  bindings : ∀ e bindings name b, (s.scope e).record = .declarative bindings → bindings.get? name = some b →
    s.Holds b.value

/-- What an object inherits from and what its properties hold is in the store. -/
structure ObjectHeld (s : Store) (obj : Object) : Prop where
  prototype : ∀ p, obj.prototype = some p → p.index < s.objects.size
  properties : ∀ name p, obj.properties.get? name = some p → s.KeepsProperty p

/-- Code that is strict, or is not, may look names up in a scope; some scopes are reserved for strict code. -/
def Usable (s : Store) (reserved : ScopeRef → Prop) (e : ScopeRef) (strict : Bool) : Prop :=
  e.index < s.scopes.size ∧ (strict = false → ¬reserved e)

/-- A name is bound in a scope, if that keeps its bindings in a record of its own. -/
def Binds (s : Store) (e : ScopeRef) (name : String) : Prop :=
  e.index < s.scopes.size ∧ ∀ bindings, (s.scope e).record = .declarative bindings → bindings.contains name = true

/-- A scope keeps its bindings in a record of its own. -/
def Declarative (s : Store) (e : ScopeRef) : Prop :=
  e.index < s.scopes.size ∧ ∃ bindings, (s.scope e).record = .declarative bindings

/-- A scope lies in another, or is that scope. The scopes around it were made before it. -/
inductive Within (s : Store) : ScopeRef → ScopeRef → Prop where
  | here (e : ScopeRef) : Within s e e
  | inside {e d outer : ScopeRef} (next : (s.scope e).outer = some d) (older : d.index < e.index)
      (rest : Within s d outer) : Within s e outer

/-- A name is bound so that an index of an `arguments` object may stand for it. -/
def BindsAliasable (s : Store) (e : ScopeRef) (name : String) : Prop :=
  ∃ bindings b, (s.scope e).record = .declarative bindings ∧ bindings.get? name = some b ∧ b.Aliasable

/-- A property name that stands for no parameter. -/
def Unaliased (s : Store) (o : ObjectRef) (name : String) : Prop :=
  ∀ m, (s.object o).kind = .arguments (some m) → m.parameter? name = none

variable (s : Store) (reserved : ScopeRef → Prop)

structure ObjectOk (obj : Object) : Prop where
  prototype : ∀ p, obj.prototype = some p → p.index < s.objects.size
  properties : ∀ name p, obj.properties.get? name = some p → s.KeepsProperty p
  closure : ∀ code e strict, obj.kind = .function (.script code e strict) → s.Usable reserved e strict
  aliases : ∀ m name parameter, obj.kind = .arguments (some m) → m.parameter? name = some parameter →
    (∃ v e c, obj.properties.get? name = some (.data v true e c)) ∧ s.BindsAliasable m.scope parameter

structure ScopeOk (e : ScopeRef) (scope : Scope) : Prop where
  outer : ∀ d, scope.outer = some d → d.index < s.scopes.size ∧ (reserved d → reserved e)
  bindings : ∀ bindings name b, scope.record = .declarative bindings → bindings.get? name = some b →
    s.Holds b.value ∧ (b.deletable = true → reserved e)
  record : ∀ o provideThis, scope.record = .object o provideThis → o.index < s.objects.size

structure ContextOk (ctx : Context) : Prop where
  lexical : s.Usable reserved ctx.lexical ctx.strict
  vars : s.Usable reserved ctx.vars ctx.strict
  this : s.Holds ctx.thisValue
  within : s.Within ctx.lexical ctx.vars
  own : ctx.vars = .global ∨ s.Declarative ctx.vars

structure GeneratorOk (gen : Generator) : Prop where
  context : s.ContextOk reserved gen.context
  hoisted : ∀ step ∈ gen.steps, ∀ name ∈ step.stmt.varNames, s.Binds gen.context.vars name

/-- A store in which nothing refers outside of it, given the scopes that are reserved for strict code. -/
structure WellFormed : Prop where
  intrinsics : ∀ i : Intrinsic, i.ref.index < s.objects.size
  objects : ∀ o, s.ObjectOk reserved (s.object o)
  scopes : ∀ e, s.ScopeOk reserved e (s.scope e)
  global : ScopeRef.global.index < s.scopes.size ∧ ¬reserved .global
  globalRecord : ∃ o provideThis, (s.scope .global).record = .object o provideThis
  bounded : ∀ e, reserved e → e.index < s.scopes.size
  contexts : ∀ ctx ∈ s.contexts, s.ContextOk reserved ctx
  generators : ∀ g gen, s.generator? g = some gen → s.GeneratorOk reserved gen

end Store

namespace Store.KeepsProperty

variable {s t : Store} {p : Property} (h : s.KeepsProperty p)
include h

theorem holds : s.HoldsProperty p := by
  cases h with
  | data value => exact ⟨by rintro _ ⟨⟩; exact value, nofun, nofun⟩
  | accessor get set => exact ⟨nofun, by rintro _ ⟨⟩; exact get, by rintro _ ⟨⟩; exact set⟩

theorem complete : p.Complete := by
  cases h with
  | data => exact .data ..
  | accessor => exact .accessor ..

end Store.KeepsProperty

theorem Store.HoldsProperty.keeps {s : Store} {p : Property} (h : s.HoldsProperty p) (complete : p.Complete) :
    s.KeepsProperty p := by
  cases complete with
  | data v => exact .data (h.1 v rfl)
  | accessor g t => exact .accessor (h.2.1 g rfl) (h.2.2 t rfl)

theorem Store.WellFormed.holding {s : Store} {reserved : ScopeRef → Prop} (h : s.WellFormed reserved) : s.Holding where
  properties o := (h.objects o).properties
  aliases o m name parameter p kind aliased found := by
    obtain ⟨⟨v, e, c, stored⟩, _⟩ := (h.objects o).aliases m name parameter kind aliased
    cases stored.symm.trans found
    rfl
  bindings e bindings name b record found := ((h.scopes e).bindings bindings name b record found).1

theorem Store.BindsAliasable.inside {s : Store} {e : ScopeRef} {name : String} (h : s.BindsAliasable e name) :
    e.index < s.scopes.size := by
  obtain ⟨bindings, b, record, found, _⟩ := h
  refine Nat.lt_of_not_le fun outside => ?_
  rw [Store.scope, Array.getElem?_eq_none outside] at record
  cases record
  cases found

theorem Store.Holds.mono {s t : Store} {v : Value} (le : s.objects.size ≤ t.objects.size) (h : s.Holds v) : t.Holds v :=
  fun o e => Nat.lt_of_lt_of_le (h o e) le

theorem Store.KeepsProperty.mono {s t : Store} {p : Property} (le : s.objects.size ≤ t.objects.size)
    (h : s.KeepsProperty p) : t.KeepsProperty p := by
  cases h with
  | data value => exact .data (value.mono le)
  | accessor get set => exact .accessor (get.mono le) (set.mono le)

/-- What may become of the record of a scope. -/
inductive ScopeRecord.Grows : ScopeRecord → ScopeRecord → Prop where
  | object (o : ObjectRef) (provideThis : Bool) : Grows (.object o provideThis) (.object o provideThis)
  | declarative {old new : NameMap Binding}
      (keeps : ∀ name b, old.get? name = some b → ∃ b', new.get? name = some b' ∧ (b.Aliasable → b'.Aliasable)) :
    Grows (.declarative old) (.declarative new)

theorem ScopeRecord.Grows.refl (r : ScopeRecord) : r.Grows r := by
  cases r with
  | object o p => exact .object o p
  | declarative bindings => exact .declarative fun _ b found => ⟨b, found, id⟩

theorem ScopeRecord.Grows.trans {r r' r'' : ScopeRecord} (first : r.Grows r') (second : r'.Grows r'') : r.Grows r'' := by
  cases first with
  | object => exact second
  | declarative keeps =>
    cases second with
    | declarative keeps' =>
      refine .declarative fun name b found => ?_
      obtain ⟨b', found', kept⟩ := keeps name b found
      obtain ⟨b'', found'', kept'⟩ := keeps' name b' found'
      exact ⟨b'', found'', kept' ∘ kept⟩

/-- A store that another may become. -/
structure Store.Grows (s t : Store) : Prop where
  objects : s.objects.size ≤ t.objects.size
  scopes : s.scopes.size ≤ t.scopes.size
  records : ∀ e, e.index < s.scopes.size → (s.scope e).record.Grows (t.scope e).record
  outers : ∀ e, e.index < s.scopes.size → (t.scope e).outer = (s.scope e).outer
  unaliased : ∀ o name, o.index < s.objects.size → s.Unaliased o name → t.Unaliased o name

namespace Store.Grows

variable {s t u : Store}

theorem refl (s : Store) : s.Grows s :=
  ⟨Nat.le_refl _, Nat.le_refl _, fun _ _ => .refl _, fun _ _ => rfl, fun _ _ _ => id⟩

theorem trans (first : s.Grows t) (second : t.Grows u) : s.Grows u where
  objects := Nat.le_trans first.objects second.objects
  scopes := Nat.le_trans first.scopes second.scopes
  records e h := (first.records e h).trans (second.records e (Nat.lt_of_lt_of_le h first.scopes))
  outers e h := (second.outers e (Nat.lt_of_lt_of_le h first.scopes)).trans (first.outers e h)
  unaliased o name h free :=
    second.unaliased o name (Nat.lt_of_lt_of_le h first.objects) (first.unaliased o name h free)

theorem holds {v : Value} (h : s.Grows t) (known : s.Holds v) : t.Holds v := known.mono h.objects

theorem keepsProperty {p : Property} (h : s.Grows t) (known : s.KeepsProperty p) : t.KeepsProperty p :=
  known.mono h.objects

theorem bindsAliasable {e : ScopeRef} {name : String} (h : s.Grows t) (known : s.BindsAliasable e name) :
    t.BindsAliasable e name := by
  have inside := known.inside
  obtain ⟨bindings, b, record, found, aliasable⟩ := known
  have grown := h.records e inside
  rw [record] at grown
  generalize after : (t.scope e).record = r at grown
  cases grown with
  | declarative keeps =>
    obtain ⟨b', found', kept⟩ := keeps name b found
    exact ⟨_, b', after, found', kept aliasable⟩

theorem binds {e : ScopeRef} {name : String} (h : s.Grows t) (known : s.Binds e name) : t.Binds e name := by
  have grown := h.records e known.1
  refine ⟨Nat.lt_of_lt_of_le known.1 h.scopes, fun bindings record => ?_⟩
  rw [record] at grown
  generalize before : (s.scope e).record = old at grown
  cases grown with
  | declarative keeps =>
    obtain ⟨b, found⟩ := Option.isSome_iff_exists.1 (known.2 _ before)
    obtain ⟨b', found', _⟩ := keeps name b found
    exact Option.isSome_iff_exists.2 ⟨b', found'⟩

theorem declarative {e : ScopeRef} (h : s.Grows t) (known : s.Declarative e) : t.Declarative e := by
  obtain ⟨inside, bindings, record⟩ := known
  have grown := h.records e inside
  refine ⟨Nat.lt_of_lt_of_le inside h.scopes, ?_⟩
  rw [record] at grown
  generalize (t.scope e).record = new at grown ⊢
  cases grown with
  | declarative => exact ⟨_, rfl⟩

theorem within {e d : ScopeRef} (h : s.Grows t) (known : s.Within e d) : t.Within e d := by
  induction known with
  | here e => exact .here e
  | @inside e d outer next older _ ih =>
    have there : e.index < s.scopes.size := by
      refine Nat.lt_of_not_le fun outside => ?_
      rw [Store.scope, Array.getElem?_eq_none outside] at next
      cases next
    exact .inside ((h.outers e there).trans next) older ih

section Reserved

variable {reserved reserved' : ScopeRef → Prop} (h : s.Grows t)
  (same : ∀ e, e.index < s.scopes.size → (reserved' e ↔ reserved e))
include h same

theorem usable {e : ScopeRef} {strict : Bool} (known : s.Usable reserved e strict) : t.Usable reserved' e strict :=
  ⟨Nat.lt_of_lt_of_le known.1 h.scopes, fun sloppy => mt (same e known.1).1 (known.2 sloppy)⟩

theorem objectOk {obj : Object} (ok : s.ObjectOk reserved obj) : t.ObjectOk reserved' obj where
  prototype p found := Nat.lt_of_lt_of_le (ok.prototype p found) h.objects
  properties name p found := h.keepsProperty (ok.properties name p found)
  closure code e strict kind := h.usable same (ok.closure code e strict kind)
  aliases m name parameter kind aliased :=
    have old := ok.aliases m name parameter kind aliased
    ⟨old.1, h.bindsAliasable old.2⟩

theorem scopeOk {e : ScopeRef} {scope : Scope} (bounded : ∀ e, reserved e → e.index < s.scopes.size)
    (ok : s.ScopeOk reserved e scope) : t.ScopeOk reserved' e scope := by
  have keep (e : ScopeRef) (old : reserved e) : reserved' e := (same e (bounded e old)).2 old
  refine ⟨fun d found => ?_, fun bindings name b record found => ?_, fun o provideThis record => ?_⟩
  · obtain ⟨inside, up⟩ := ok.outer d found
    exact ⟨Nat.lt_of_lt_of_le inside h.scopes, fun new => keep e (up ((same d inside).1 new))⟩
  · obtain ⟨held, deletable⟩ := ok.bindings bindings name b record found
    exact ⟨h.holds held, fun d => keep e (deletable d)⟩
  · exact Nat.lt_of_lt_of_le (ok.record o provideThis record) h.objects

theorem contextOk {ctx : Context} (ok : s.ContextOk reserved ctx) : t.ContextOk reserved' ctx :=
  ⟨h.usable same ok.lexical, h.usable same ok.vars, h.holds ok.this, h.within ok.within, ok.own.imp_right h.declarative⟩

theorem generatorOk {gen : Generator} (ok : s.GeneratorOk reserved gen) : t.GeneratorOk reserved' gen :=
  ⟨h.contextOk same ok.context, fun step mem name declared => h.binds (ok.hoisted step mem name declared)⟩

end Reserved

end Store.Grows

namespace Store.WellFormed

variable {s t : Store} {reserved reserved' : ScopeRef → Prop}

/-- A store that a well-formed one grows into is well formed when all that is new or changed in it is. -/
theorem grow (h : s.WellFormed reserved) (grows : s.Grows t)
    (same : ∀ e, e.index < s.scopes.size → (reserved' e ↔ reserved e))
    (bounded : ∀ e, reserved' e → e.index < t.scopes.size)
    (objects : ∀ o, t.object o = s.object o ∨ t.ObjectOk reserved' (t.object o))
    (scopes : ∀ e, t.scope e = s.scope e ∨ t.ScopeOk reserved' e (t.scope e))
    (contexts : ∀ ctx ∈ t.contexts, ctx ∈ s.contexts ∨ t.ContextOk reserved' ctx)
    (generators : ∀ g gen, t.generator? g = some gen → s.generator? g = some gen ∨ t.GeneratorOk reserved' gen) :
    t.WellFormed reserved' where
  intrinsics i := Nat.lt_of_lt_of_le (h.intrinsics i) grows.objects
  objects o := (objects o).elim (fun old => old ▸ grows.objectOk same (h.objects o)) id
  scopes e := (scopes e).elim (fun old => old ▸ grows.scopeOk same h.bounded (h.scopes e)) id
  global := ⟨Nat.lt_of_lt_of_le h.global.1 grows.scopes, mt (same _ h.global.1).1 h.global.2⟩
  globalRecord := by
    obtain ⟨o, provideThis, record⟩ := h.globalRecord
    have grown := grows.records .global h.global.1
    rw [record] at grown
    generalize (t.scope .global).record = r at grown ⊢
    cases grown with
    | object => exact ⟨o, provideThis, rfl⟩
  bounded := bounded
  contexts ctx mem := (contexts ctx mem).elim (fun old => grows.contextOk same (h.contexts ctx old)) id
  generators g gen found :=
    (generators g gen found).elim (fun old => grows.generatorOk same (h.generators g gen old)) id

end Store.WellFormed

end Ecma
