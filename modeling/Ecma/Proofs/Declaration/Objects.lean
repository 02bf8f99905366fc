import Ecma.Proofs.Assignment

/-!
# Setting one property

What an object shows under a name depends on the name and on the objects that it inherits from. An object that is no
array and stands for no parameters can be given a property without any effect on other names. This takes little of the
store, `Store.Orderly`, which is true of every store that code gets to see and is preserved by all that is done here.
-/

namespace Ecma

/-- An action ends with a type error, and nothing happens before. -/
def Action.RaisesTypeError {α : Type} (x : Action α) (c : Config) (s : Store) : Prop :=
  ∃ f t, f.kind = .typeError ∧ x c s = .abrupt (.fault f) t ∧ x.path c s = [.raised f]

namespace Action

variable {α β : Type} {c : Config} {s t : Store}

theorem Fails.raisesTypeError {x : Action α} {f : Fault} (h : x.Fails c s f) (typeError : f.kind = .typeError) :
    x.RaisesTypeError c s := ⟨f, s, typeError, h.run, h.path⟩

namespace RaisesTypeError

theorem read_bind {r : Store → β} {next : β → Action α} (h : (next (r s)).RaisesTypeError c s) :
    (Action.read r >>= next).RaisesTypeError c s := h

theorem before {x : Action β} (h : x.RaisesTypeError c s) (next : β → Action α) :
    (x >>= next).RaisesTypeError c s := by
  obtain ⟨f, t, typeError, run, path⟩ := h
  refine ⟨f, t, typeError, ?_, ?_⟩
  · rw [bind_apply, run]
    rfl
  · rw [path_bind, run, path]
    rfl

theorem after {x : Action β} {b : β} {next : β → Action α} (first : x.Does c s b t)
    (h : (next b).RaisesTypeError c t) : (x >>= next).RaisesTypeError c s := by
  obtain ⟨f, u, typeError, run, path⟩ := h
  refine ⟨f, u, typeError, ?_, ?_⟩
  · rw [bind_run first.run]
    exact run
  · rw [path_bind, first.run, first.path]
    exact path

end RaisesTypeError

end Action

namespace Store

variable {s t u : Store} {o : ObjectRef} {key name : String}

/-! ## Lookups that agree -/

/-- What the lookup of properties rests on: an object is younger than what it inherits from, its properties are complete,
and what stands for a parameter can be set. -/
structure Orderly (s : Store) : Prop where
  intrinsics : ∀ i : Intrinsic, i.ref.index < s.objects.size
  older : ∀ o p, s.parent? o = some p → p.index < o.index
  backed : ∀ o, s.Backed o

theorem Closed.orderly {reserved : ScopeRef → Prop} (closed : s.Closed) (ok : s.WellFormed reserved) : s.Orderly :=
  ⟨closed.intrinsics, closed.parent_older, ok.backed⟩

/-- An object has a name as it did: it shows the same property of its own and from what it inherits from, and takes an
assignment if it did. -/
structure SameName (s t : Store) (o : ObjectRef) (key : String) : Prop where
  own : t.getOwn? o key = s.getOwn? o key
  found : t.getProperty? o key = s.getProperty? o key
  writable : t.canPut o key = s.canPut o key

namespace Orderly

variable (before : s.Orderly) (after : t.Orderly)
include before

theorem ends : ∀ o, Walk s.parent? (some o) (s.prototypeChain o) := walk_of_older before.older

/-- What is found is complete. -/
theorem complete {p : Property} (found : s.getProperty? o key = some p) : p.Complete := by
  obtain ⟨x, _, own⟩ := List.exists_of_findSome?_eq_some found
  exact (before.backed x).complete_getOwn? own

include after

theorem getProperty?_congr (parents : ∀ x, x.index ≤ o.index → t.parent? x = s.parent? x)
    (own : ∀ x, x.index ≤ o.index → t.getOwn? x key = s.getOwn? x key) :
    t.getProperty? o key = s.getProperty? o key := by
  -- By induction on the age of the object, since what it inherits from is older.
  induction age : o.index using Nat.strongRecOn generalizing o with
  | ind n ih =>
    have here := own o (Nat.le_refl _)
    cases found : s.getOwn? o key with
    | some p => rw [getProperty?_of_own found, getProperty?_of_own (here.trans found)]
    | none =>
      rw [getProperty?_of_inherited before.ends found, getProperty?_of_inherited after.ends (here.trans found)]
      rw [← parent?, ← parent?, parents o (Nat.le_refl _)]
      cases inherits : s.parent? o with
      | none => rfl
      | some p =>
        have older := before.older o p inherits
        have below (x : ObjectRef) (small : x.index ≤ p.index) : x.index ≤ o.index :=
          Nat.le_trans small (Nat.le_of_lt older)
        exact ih p.index (age ▸ older) (fun x small => parents x (below x small))
          (fun x small => own x (below x small)) rfl

theorem sameName (parents : ∀ x, x.index ≤ o.index → t.parent? x = s.parent? x)
    (own : ∀ x, x.index ≤ o.index → t.getOwn? x key = s.getOwn? x key)
    (extensible : (t.object o).extensible = (s.object o).extensible) : s.SameName t o key where
  own := own o (Nat.le_refl _)
  found := before.getProperty?_congr after parents own
  writable := by
    have inherited : (t.object o).prototype.bind (t.getProperty? · key) =
        (s.object o).prototype.bind (s.getProperty? · key) := by
      rw [← parent?, ← parent?, parents o (Nat.le_refl _)]
      cases inherits : s.parent? o with
      | none => rfl
      | some p =>
        have older := Nat.le_of_lt (before.older o p inherits)
        exact before.getProperty?_congr after (fun x small => parents x (Nat.le_trans small older))
          fun x small => own x (Nat.le_trans small older)
    rw [canPut, canPut, own o (Nat.le_refl _), inherited, extensible]

end Orderly

/-- An object with no rules of its own for defining properties: it is no array and stands for no parameters. -/
structure Plain (s : Store) (o : ObjectRef) : Prop where
  inside : o.index < s.objects.size
  other : (s.object o).kind ≠ .array
  free : ∀ name, s.Unaliased o name

/-- A property of an object is set. Of what was there nothing else is different. -/
structure Touches (s t : Store) (o : ObjectRef) (name : String) : Prop where
  orderly : t.Orderly
  plain : t.Plain o
  names : ∀ key, key ≠ name → s.SameName t o key
  others : ∀ x, x ≠ o → t.object x = s.object x
  size : t.objects.size = s.objects.size
  scopes : t.scopes = s.scopes
  contexts : t.contexts = s.contexts

/-- The objects that come with a function are complete and stand for no parameters. -/
theorem Orderly.objectHeld_of_new {code : FunctionCode} {e : ScopeRef} {strict : Bool} (h : s.Orderly)
    (new : (s.addFunction code e strict).object o ≠ s.object o) :
    (s.addFunction code e strict).ObjectHeld ((s.addFunction code e strict).object o) ∧
      ∀ m, ((s.addFunction code e strict).object o).kind ≠ .arguments (some m) := by
  obtain ⟨instances, function⟩ := objectHeld_addFunction h.intrinsics code e strict
  rw [object_addFunction] at new ⊢
  split at new
  next last =>
    rw [if_pos last]
    exact ⟨instances, (Object.instancePrototype_plain ..).2⟩
  next earlier =>
    split at new
    next first =>
      rw [if_neg earlier, if_pos first]
      refine ⟨function, fun m kind => ?_⟩
      cases kind
    · exact absurd rfl new

theorem Orderly.addFunction (h : s.Orderly) (code : FunctionCode) (e : ScopeRef) (strict : Bool) :
    (s.addFunction code e strict).Orderly := by
  have size := s.size_addFunction code e strict
  refine ⟨fun i => ?_, fun o p inherits => ?_, fun o => ?_⟩
  · have := h.intrinsics i
    omega
  · rw [parent?, object_addFunction] at inherits
    split at inherits
    next new =>
      unfold Object.instancePrototype at inherits
      split at inherits
      · cases inherits
        have := h.intrinsics .generatorPrototype
        omega
      · cases inherits
        have := h.intrinsics .objectPrototype
        omega
    · split at inherits
      next new =>
        cases inherits
        have := h.intrinsics .functionPrototype
        omega
      · exact h.older o p inherits
  · by_cases old : (s.addFunction code e strict).object o = s.object o
    · exact (h.backed o).of_same (congrArg Object.kind old) (congrArg Object.properties old) rfl
    · obtain ⟨held, plain⟩ := h.objectHeld_of_new old
      exact ⟨fun name p stored => (held.properties name p stored).complete, fun m _ _ kind => absurd kind (plain m)⟩

/-- New objects change nothing about those that are there. -/
theorem Orderly.sameName_addFunction (h : s.Orderly) (inside : o.index < s.objects.size) (code : FunctionCode)
    (e : ScopeRef) (strict : Bool) (key : String) : s.SameName (s.addFunction code e strict) o key := by
  have same (x : ObjectRef) (below : x.index ≤ o.index) : (s.addFunction code e strict).object x = s.object x := by
    rw [object_addFunction, if_neg (by omega), if_neg (by omega)]
  refine h.sameName (h.addFunction code e strict) (fun x below => ?_) (fun x below => ?_) ?_
  · rw [parent?, same x below, parent?]
  · have object := same x below
    exact (h.backed x).getOwn?_of_same (congrArg Object.kind object) (congrArg Object.properties object) rfl key
  · rw [same o (Nat.le_refl _)]

theorem Plain.addFunction (h : s.Plain o) (code : FunctionCode) (e : ScopeRef) (strict : Bool) :
    (s.addFunction code e strict).Plain o := by
  have inside := h.inside
  have same : (s.addFunction code e strict).object o = s.object o := by
    rw [object_addFunction, if_neg (by omega), if_neg (by omega)]
  refine ⟨?_, ?_, fun name m kind => ?_⟩
  · simp only [Store.addFunction, Store.addObject, Array.size_push]
    omega
  · rw [same]
    exact h.other
  · rw [same] at kind
    exact h.free name m kind

/-- A request that is granted sets one property. -/
theorem Redefines.touches {d : Descriptor} (h : s.Redefines t o name d) (orderly : s.Orderly) (plain : s.Plain o) :
    s.Touches t o name := by
  have scopes : t.scopes = s.scopes := by rw [h.scopes, passing_of_unaliased (plain.free name)]
  have parents (x : ObjectRef) : t.parent? x = s.parent? x := by
    by_cases here : x = o
    · rw [here]
      exact h.prototype
    · rw [parent?, h.others x here, parent?]
  have after : t.Orderly := by
    refine ⟨fun i => h.size ▸ orderly.intrinsics i, fun x p inherits => ?_, fun x => ?_⟩
    · exact orderly.older x p (parents x ▸ inherits)
    · by_cases here : x = o
      · rw [here]
        exact h.backed (orderly.backed o)
      · have same := h.others x here
        exact (orderly.backed x).of_same (congrArg Object.kind same) (congrArg Object.properties same) scopes
  have shown (x : ObjectRef) (key : String) (apart : key ≠ name) : t.getOwn? x key = s.getOwn? x key := by
    refine h.shown (orderly.backed x) (.inr apart) ?_
    rw [standsFor?_eq_none_iff.2 (plain.free name)]
    exact (Decidable.em (s.standsFor? x key = none)).imp_right .inr
  refine ⟨after, ⟨h.size ▸ plain.inside, ?_, ?_⟩, fun key apart => ?_, h.others, h.size, scopes, h.contexts⟩
  · exact fun array => plain.other (h.narrows.array array)
  · exact fun key => unaliased_of_narrows h.narrows (plain.free key)
  · exact orderly.sameName after (fun x _ => parents x) (fun x _ => shown x key apart) h.extensible

theorem Touches.trans (first : s.Touches t o name) (second : t.Touches u o name) : s.Touches u o name where
  orderly := second.orderly
  plain := second.plain
  names key apart :=
    have a := first.names key apart
    have b := second.names key apart
    ⟨b.own.trans a.own, b.found.trans a.found, b.writable.trans a.writable⟩
  others x apart := (second.others x apart).trans (first.others x apart)
  size := second.size.trans first.size
  scopes := second.scopes.trans first.scopes
  contexts := second.contexts.trans first.contexts

end Store

namespace ObjectRef

variable {s : Store} {o : ObjectRef} {name : String}

/-- A request for plain data is granted, or is a type error. -/
theorem define_plain (orderly : s.Orderly) (plain : s.Plain o) (name : String) (deletable : Bool) :
    (∃ t, s.Touches t o name ∧ t.getOwn? o name = some (.data .undefined true true deletable) ∧
      ∀ E c, (o.define E name (Property.data .undefined true true deletable).descriptor true).Does c s true t) ∨
    ∀ E c, (o.define E name (Property.data .undefined true true deletable).descriptor true).RaisesTypeError c s := by
  have unmixed : (Property.data .undefined true true deletable).descriptor.isMixed = false := rfl
  rcases define_decides (orderly.backed o) plain.inside plain.other unmixed name with
    ⟨_, t, redefines, does⟩ | ⟨_, turnsDown⟩
  · refine .inl ⟨t, redefines.touches orderly plain, ?_, fun E c => does E c true⟩
    obtain ⟨q, fields, shown⟩ := redefines.property
    rw [shown]
    have full : q.descriptor = (Property.data .undefined true true deletable).descriptor := by
      rw [fields]
      cases present : s.getOwn? o name with
      | none => rfl
      | some p => cases (orderly.backed o).complete_getOwn? present <;> rfl
    rw [Property.descriptor_injective full]
  · refine .inr fun E c => ?_
    obtain ⟨f, typeError, fails⟩ := (turnsDown E c).strict
    exact fails.raisesTypeError typeError

/-- An assignment that can succeed and finds no accessor leaves the value in data that can be written. -/
theorem put_plain (orderly : s.Orderly) (plain : s.Plain o) (can : s.canPut o name = true)
    (unset : ∀ p, s.getProperty? o name = some p → p.isAccessor = false) (v : Value) :
    ∃ t, s.Touches t o name ∧ (∃ e c, t.getOwn? o name = some (.data v true e c)) ∧
      ∀ E c throw, (o.put E name v throw).Does c s () t := by
  obtain ⟨t, redefines, does⟩ := put_of_data orderly.ends (orderly.backed o) plain.inside plain.other can unset v
  have own (p : Property) (own : s.getOwn? o name = some p) : p.isAccessor = false :=
    unset p (Store.getProperty?_of_own own)
  refine ⟨t, redefines.touches orderly plain, ?_, does⟩
  rw [redefines.own_assignment (orderly.backed o) own]
  cases present : s.getOwn? o name with
  | none => exact ⟨_, _, rfl⟩
  | some p =>
    have writable : p.writable = true := by simpa [Store.canPut, present, own p present] using can
    refine ⟨p.enumerable, p.configurable, ?_⟩
    rw [Option.elim_some, writable]

end ObjectRef

end Ecma
