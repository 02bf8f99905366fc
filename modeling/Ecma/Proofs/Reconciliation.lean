import Ecma.Proofs.Array.Shape
import Ecma.Proofs.ObjectInvariants
import Ecma.Proofs.Rejection

/-!
# What an ordinary definition decides

A request to define a property goes past a shortcut and a row of guards, and then the property is turned into another
kind and updated. Here is the rule that all of this decides, and the fields that are left: `Store.Allows` says which
requests are granted, and `Descriptor.reconciled` what a property has afterwards, field by field. The shortcut for a
request that finds all it asks for never grants what the guards would refuse.
-/

namespace Ecma

namespace Property

variable {p q : Property} {d : Descriptor} {name : String}

/-- The values and the writability that a request asks for are possible where a property cannot be reconfigured: nothing
is asked, or a property of the same kind has it already, or is data that can still be written. -/
inductive Agrees (d : Descriptor) : Property → Prop where
  | generic {p : Property} (neither : d.isGeneric = true) : Agrees d p
  | writable {v : Value} {e c : Bool} (kind : d.isData = true) : Agrees d (.data v true e c)
  | readOnly {v : Value} {e c : Bool} (kind : d.isData = true) (writable : d.writable ≠ some true)
      (value : ∀ u, d.value = some u → u.same v = true) : Agrees d (.data v false e c)
  | accessor {g t : Value} {e c : Bool} (kind : d.isAccessor = true) (get : ∀ u, d.get = some u → u.same g = true)
      (set : ∀ u, d.set = some u → u.same t = true) : Agrees d (.accessor g t e c)

/-- What a property takes: any request if it can be reconfigured, and otherwise one that leaves its flags and its kind
as they are and agrees with the rest. -/
def Allows (p : Property) (d : Descriptor) : Prop :=
  p.configurable = true ∨
    p.configurable = false ∧ d.configurable ≠ some true ∧ (∀ e, d.enumerable = some e → e = p.enumerable) ∧ Agrees d p

theorem any_not_same_eq_false_iff {requested : Option Value} {v : Value} :
    requested.any (fun u => !u.same v) = false ↔ ∀ u, requested = some u → u.same v = true := by
  cases requested <;> simp

theorem any_ne_eq_false_iff {requested : Option Bool} {b : Bool} :
    requested.any (· ≠ b) = false ↔ ∀ e, requested = some e → e = b := by
  cases requested <;> simp

theorem agrees_data_iff {v : Value} {w e c : Bool} (specific : ¬d.isGeneric = true) :
    Agrees d (.data v w e c) ↔ d.isData = true ∧
      (w = false → d.writable ≠ some true ∧ ∀ u, d.value = some u → u.same v = true) := by
  constructor
  · intro agrees
    cases agrees with
    | generic neither => exact absurd neither specific
    | writable kind => simp [kind]
    | readOnly kind writable value => exact ⟨kind, fun _ => ⟨writable, value⟩⟩
  · rintro ⟨kind, agrees⟩
    cases w with
    | true => exact .writable kind
    | false => exact .readOnly kind (agrees rfl).1 (agrees rfl).2

theorem agrees_accessor_iff {g t : Value} {e c : Bool} (specific : ¬d.isGeneric = true) :
    Agrees d (.accessor g t e c) ↔ d.isAccessor = true ∧
      (∀ u, d.get = some u → u.same g = true) ∧ ∀ u, d.set = some u → u.same t = true := by
  constructor
  · intro agrees
    cases agrees with
    | generic neither => exact absurd neither specific
    | accessor kind get set => exact ⟨kind, get, set⟩
  · rintro ⟨kind, get, set⟩
    exact .accessor kind get set

/-- Where the flags are left as they are, the guards that remain decide whether the rest agrees. -/
theorem refusal?_eq_none_iff_agrees (complete : p.Complete) (unmixed : d.isMixed = false) (fixed : p.configurable = false)
    (configurable : d.configurable ≠ some true) (enumerable : d.enumerable.any (· ≠ p.enumerable) = false) :
    p.refusal? d name = none ↔ Agrees d p := by
  have free : p.configurable ≠ true := by simp [fixed]
  unfold refusal?
  rw [if_neg free, if_neg configurable, if_neg (Bool.eq_false_iff.1 enumerable)]
  by_cases generic : d.isGeneric = true
  · rw [if_pos generic]
    exact ⟨fun _ => .generic generic, fun _ => rfl⟩
  rw [if_neg generic]
  cases complete with
  | data v w e c =>
    rw [agrees_data_iff generic, ← any_not_same_eq_false_iff]
    cases kind : d.isData with
    | false => simp
    | true =>
      cases w with
      | true => simp
      | false =>
        by_cases writable : d.writable = some true
        · simp [writable]
        · cases value : d.value.any (fun u => !u.same v) <;> simp [writable, value]
  | accessor g t e c =>
    have one : d.isAccessor = !d.isData := by
      cases a : d.isAccessor <;> cases b : d.isData <;> simp_all [Descriptor.isGeneric, Descriptor.isMixed]
    rw [agrees_accessor_iff generic, one, ← any_not_same_eq_false_iff, ← any_not_same_eq_false_iff]
    cases kind : d.isData <;> simp [and_comm]

theorem refusal?_eq_none_iff_allows (complete : p.Complete) (unmixed : d.isMixed = false) :
    p.refusal? d name = none ↔ p.Allows d := by
  unfold Allows
  cases fixed : p.configurable with
  | true => simp [refusal?, fixed]
  | false =>
    simp only [Bool.false_eq_true, false_or, true_and]
    by_cases configurable : d.configurable = some true
    · simp [refusal?, fixed, configurable]
    · rw [← any_ne_eq_false_iff]
      cases enumerable : d.enumerable.any (· ≠ p.enumerable) with
      | true =>
        rw [refusal?.eq_def, if_neg (by simp [fixed]), if_neg configurable, if_pos enumerable]
        simp
      | false => simp [refusal?_eq_none_iff_agrees complete unmixed fixed configurable enumerable, configurable]

theorem same_of_keepsValue {requested : Option Value} {v : Value}
    (keeps : Descriptor.keepsValue requested (some v) = true) : ∀ u, requested = some u → u.same v = true := by
  intro u asked
  subst asked
  exact keeps

theorem eq_none_of_keepsValue {requested : Option Value} (keeps : Descriptor.keepsValue requested none = true) :
    requested = none := by
  cases requested with
  | none => rfl
  | some u => cases keeps

theorem eq_of_keepsFlag {requested current : Option Bool} (keeps : Descriptor.keepsFlag requested current = true) :
    ∀ b, requested = some b → current = some b := by
  intro b asked
  subst asked
  have found : some b = current := by simpa [Descriptor.keepsFlag] using keeps
  exact found.symm

/-- A request that finds all it asks for is not against the rule. -/
theorem allows_of_holdsOf (complete : p.Complete) (holds : d.holdsOf p = true) : p.Allows d := by
  simp only [Descriptor.holdsOf, Bool.and_eq_true] at holds
  obtain ⟨⟨⟨⟨⟨value, get⟩, set⟩, writable⟩, enumerable⟩, configurable⟩ := holds
  by_cases free : p.configurable = true
  · exact .inl free
  have fixed : p.configurable = false := Bool.eq_false_iff.2 free
  refine .inr ⟨fixed, ?_, ?_, ?_⟩
  · intro asked
    have now := eq_of_keepsFlag configurable true asked
    cases complete <;> cases now <;> cases fixed
  · intro e asked
    have now := eq_of_keepsFlag enumerable e asked
    cases complete <;> cases now <;> rfl
  · by_cases generic : d.isGeneric = true
    · exact .generic generic
    cases complete with
    | data v w e c =>
      have kind : d.isData = true := by
        simpa [Descriptor.isGeneric, Descriptor.isAccessor, eq_none_of_keepsValue get, eq_none_of_keepsValue set]
          using generic
      cases w with
      | true => exact .writable kind
      | false =>
        apply Agrees.readOnly kind
        · intro asked
          cases eq_of_keepsFlag writable true asked
        · exact same_of_keepsValue value
    | accessor g t e c =>
      have noWritable : d.writable = none := by
        cases asked : d.writable with
        | none => rfl
        | some b => cases eq_of_keepsFlag writable b asked
      have kind : d.isAccessor = true := by
        simpa [Descriptor.isGeneric, Descriptor.isData, eq_none_of_keepsValue value, noWritable] using generic
      exact .accessor kind (same_of_keepsValue get) (same_of_keepsValue set)

/-- A request that says nothing is not against the rule. -/
theorem allows_of_isEmpty (empty : d.isEmpty = true) : p.Allows d := by
  simp only [Descriptor.isEmpty, Bool.and_eq_true, Option.isNone_iff_eq_none] at empty
  obtain ⟨⟨generic, enumerable⟩, configurable⟩ := empty
  by_cases free : p.configurable = true
  · exact .inl free
  · exact .inr ⟨Bool.eq_false_iff.2 free, by simp [configurable], by simp [enumerable], .generic generic⟩

/-- The guards and the two ways around them decide the rule. -/
theorem redefine_refused_iff (complete : p.Complete) (unmixed : d.isMixed = false) :
    (∃ why, p.redefine d name = .refused why) ↔ ¬p.Allows d := by
  constructor
  · rintro ⟨why, refused⟩ allows
    have granted : p.refusal? d name = none := (refusal?_eq_none_iff_allows complete unmixed).2 allows
    rw [redefine_refused refused] at granted
    cases granted
  · intro against
    have stays : ¬(d.isEmpty || d.holdsOf p) = true := by
      rw [Bool.or_eq_true]
      rintro (empty | holds)
      · exact against (allows_of_isEmpty empty)
      · exact against (allows_of_holdsOf complete holds)
    cases refusal : p.refusal? d name with
    | none => exact absurd ((refusal?_eq_none_iff_allows complete unmixed).1 refusal) against
    | some why => exact ⟨why, by rw [redefine, if_neg stays, refusal]⟩

end Property

namespace Descriptor

variable {d : Descriptor} {p : Property} {name : String}

/-- The fields that are requested, and those that are there for the others. -/
def laidOver (d f : Descriptor) : Descriptor :=
  ⟨d.value.or f.value, d.writable.or f.writable, d.get.or f.get, d.set.or f.set, d.enumerable.or f.enumerable,
    d.configurable.or f.configurable⟩

/-- The fields before a request is laid over them: a request for the other kind resets those of this kind. -/
def resetFor (f d : Descriptor) : Descriptor :=
  if d.isGeneric || f.isData == d.isData then f
  else if f.isData then { f with value := none, writable := none, get := some .undefined, set := some .undefined }
  else { f with value := some .undefined, writable := some false, get := none, set := none }

/-- What a property has where a request does not say. -/
def defaults (d : Descriptor) : Descriptor :=
  if d.isAccessor then ⟨none, none, some .undefined, some .undefined, some false, some false⟩
  else ⟨some .undefined, some false, none, none, some false, some false⟩

/-- The fields that a request asks for, laid over those that are there, or over defaults where there are none. -/
def reconciled (d : Descriptor) (current : Option Property) : Descriptor :=
  d.laidOver ((current.map fun p => p.descriptor.resetFor d).getD d.defaults)

theorem descriptor_complete (unmixed : d.isMixed = false) : d.complete.descriptor = d.reconciled none := by
  unfold complete reconciled defaults
  by_cases accessor : d.isAccessor = true
  · have data : d.isData = false := by simpa [isMixed, accessor] using unmixed
    obtain ⟨value, writable⟩ := isData_eq_false.1 data
    simp [accessor, Property.accessor, laidOver, value, writable]
  · obtain ⟨get, set⟩ := isAccessor_eq_false.1 (Bool.eq_false_iff.2 accessor)
    simp [accessor, Property.data, laidOver, get, set]

theorem or_of_keepsValue {requested : Option Value} {v : Option Value} (keeps : keepsValue requested v = true) :
    requested.or v = v := by
  cases requested with
  | none => rfl
  | some u =>
    cases v with
    | none => cases keeps
    | some w => exact congrArg some (Value.same_iff.1 keeps)

theorem or_of_keepsFlag {requested b : Option Bool} (keeps : keepsFlag requested b = true) : requested.or b = b := by
  cases requested with
  | none => rfl
  | some u => simpa [keepsFlag] using keeps

/-- The fields of a request that is kept are there already, and of no other kind. -/
theorem reconciled_of_holdsOf (complete : p.Complete) (holds : d.holdsOf p = true) : d.reconciled (some p) = p.descriptor := by
  simp only [holdsOf, Bool.and_eq_true] at holds
  obtain ⟨⟨⟨⟨⟨value, get⟩, set⟩, writable⟩, enumerable⟩, configurable⟩ := holds
  have kept : p.descriptor.resetFor d = p.descriptor := by
    cases complete with
    | data v w e c =>
      have kind : d.isAccessor = false :=
        isAccessor_eq_false.2 ⟨Property.eq_none_of_keepsValue get, Property.eq_none_of_keepsValue set⟩
      simp [resetFor, isGeneric, kind, Property.data, isData]
    | accessor g t e c =>
      have noValue : d.value = none := Property.eq_none_of_keepsValue value
      have noWritable : d.writable = none := by simpa [keepsFlag, Property.accessor] using writable
      simp [resetFor, Property.accessor, isData, noValue, noWritable]
  simp only [reconciled, Option.map_some, Option.getD_some, kept, laidOver, or_of_keepsValue value,
    or_of_keepsValue get, or_of_keepsValue set, or_of_keepsFlag writable, or_of_keepsFlag enumerable,
    or_of_keepsFlag configurable]

theorem reconciled_of_isEmpty (nothing : d.isEmpty = true) : d.reconciled (some p) = p.descriptor := by
  simp only [isEmpty, Bool.and_eq_true, Option.isNone_iff_eq_none] at nothing
  obtain ⟨⟨generic, enumerable⟩, configurable⟩ := nothing
  have kinds : d.isAccessor = false ∧ d.isData = false := by simpa [isGeneric] using generic
  obtain ⟨get, set⟩ := isAccessor_eq_false.1 kinds.1
  obtain ⟨value, writable⟩ := isData_eq_false.1 kinds.2
  simp [reconciled, resetFor, generic, laidOver, value, writable, get, set, enumerable, configurable]

/-- A request that leaves a property as it is gives it the fields it has. -/
theorem reconciled_of_unchanged (h : p.redefine d name = .unchanged) (complete : p.Complete) :
    d.reconciled (some p) = p.descriptor :=
  (Property.redefine_unchanged h).elim reconciled_of_isEmpty (reconciled_of_holdsOf complete)

/-- A request resets the fields of a property by turning it into the kind that is asked for. -/
theorem resetFor_descriptor (complete : p.Complete) : p.descriptor.resetFor d = (p.convert d).descriptor := by
  unfold resetFor Property.convert
  cases complete with
  | data v w e c =>
    rw [Property.isData]
    split
    · rfl
    · rfl
  | accessor g s e c =>
    rw [Property.isData]
    split
    · rfl
    · rfl

theorem reconciled_of_changed {q : Property} (h : p.redefine d name = .changed q) (complete : p.Complete) :
    d.reconciled (some p) = q.descriptor := by
  obtain ⟨_, _, rfl⟩ := Property.redefine_changed h
  exact congrArg d.laidOver (resetFor_descriptor complete)

end Descriptor

namespace Store

variable {s t : Store} {o : ObjectRef} {name : String} {q : Property}

/-- The value of the parameter that a property name stands for. -/
def parameterAt? (s : Store) (o : ObjectRef) (name : String) : Option Value :=
  match (s.object o).kind with
  | .arguments (some m) => (m.parameter? name).map (s.parameterValue (s.objects.size + 1) m.scope)
  | _ => none

/-- What an object shows of a property that it has stored: it has the value of the parameter that its name stands for,
if it stands for one. -/
def showing (s : Store) (o : ObjectRef) (name : String) (p : Property) : Property :=
  (s.parameterAt? o name).elim p p.withValue

theorem parameterAt?_of_unaliased (free : s.Unaliased o name) : s.parameterAt? o name = none := by
  unfold parameterAt?
  split
  next m kind => rw [free m kind, Option.map_none]
  · rfl

theorem showing_of_unaliased (free : s.Unaliased o name) : s.showing o name q = q := by
  rw [showing, parameterAt?_of_unaliased free, Option.elim_none]

theorem showing_showing : s.showing o name (s.showing o name q) = s.showing o name q := by
  unfold showing
  cases s.parameterAt? o name <;> rfl

/-- An object shows what it has stored. -/
theorem getOwn?_of_stored (stored : (s.object o).properties.get? name = some q) :
    s.getOwn? o name = some (s.showing o name q) := by
  by_cases free : s.Unaliased o name
  · rw [showing_of_unaliased free, getOwn?_of_unaliased stored free]
  · simp only [Unaliased, Classical.not_forall] at free
    obtain ⟨m, kind, aliased⟩ := free
    obtain ⟨parameter, aliased⟩ := Option.ne_none_iff_exists'.1 aliased
    simp [getOwn?_of_aliased stored kind aliased, showing, parameterAt?, kind, aliased]

/-- What is shown is shown as it is. -/
theorem showing_of_getOwn? (shown : s.getOwn? o name = some q) : s.showing o name q = q := by
  cases stored : (s.object o).properties.get? name with
  | some p =>
    rw [getOwn?_of_stored stored] at shown
    cases shown
    exact showing_showing
  | none =>
    apply showing_of_unaliased
    intro m kind
    simp [getOwn?_of_get?_eq_none stored, characters, kind] at shown

/-- Stores that differ in one property of one object at most. -/
structure SameBut (s t : Store) (o : ObjectRef) (name : String) : Prop extends s.SameOutside t o where
  stored : ∀ key, key ≠ name → (t.object o).properties.get? key = (s.object o).properties.get? key
  shown : ∀ other key, other ≠ o ∨ key ≠ name → t.getOwn? other key = s.getOwn? other key

theorem SameBut.refl (s : Store) (o : ObjectRef) (name : String) : s.SameBut s o name :=
  ⟨.refl s o, fun _ _ => rfl, fun _ _ _ => rfl⟩

section WellFormed

variable {reserved : ScopeRef → Prop} (ok : s.WellFormed reserved)
include ok

/-- The value of a parameter that a name stands for depends on scopes alone. -/
theorem parameterAt?_congr (kind : (t.object o).kind = (s.object o).kind) (scopes : t.scopes = s.scopes) :
    t.parameterAt? o name = s.parameterAt? o name := by
  unfold parameterAt?
  rw [kind]
  split
  next m before =>
    cases aliased : m.parameter? name with
    | none => rfl
    | some parameter =>
      obtain ⟨_, bindings, b, record, _⟩ := (ok.objects o).aliases m name parameter before aliased
      have record' : (t.scope m.scope).record = .declarative bindings := by rw [scope, scopes, ← scope, record]
      simp only [Option.map_some, parameterValue, record, record']
  · rfl

theorem showing_congr (kind : (t.object o).kind = (s.object o).kind) (scopes : t.scopes = s.scopes) :
    t.showing o name q = s.showing o name q := by
  rw [showing, showing, parameterAt?_congr ok kind scopes]

theorem getOwn?_congr (kind : (t.object o).kind = (s.object o).kind) (scopes : t.scopes = s.scopes)
    (stored : (t.object o).properties.get? name = (s.object o).properties.get? name) :
    t.getOwn? o name = s.getOwn? o name := by
  cases found : (s.object o).properties.get? name with
  | some q =>
    rw [getOwn?_of_stored found, getOwn?_of_stored (stored.trans found), showing_congr ok kind scopes]
  | none =>
    rw [getOwn?_of_get?_eq_none found, getOwn?_of_get?_eq_none (stored.trans found), characters, kind, characters]

/-- Storing a property changes that property and nothing else. -/
theorem sameBut_withProperty (inside : o.index < s.objects.size) (q : Property) :
    s.SameBut (s.modifyObject o (·.withProperty name q)) o name := by
  have outside : s.SameOutside (s.modifyObject o (·.withProperty name q)) o := .modifyObject rfl
  have stored (key : String) (apart : key ≠ name) :
      ((s.modifyObject o (·.withProperty name q)).object o).properties.get? key =
        (s.object o).properties.get? key := by
    rw [object_modifyObject s _ inside, Object.withProperty, NameMap.get?_insert, if_neg apart]
  refine ⟨outside, stored, fun other key apart => ?_⟩
  by_cases here : other = o
  · subst here
    exact getOwn?_congr ok outside.kind rfl (stored key (apart.resolve_left (not_not_intro rfl)))
  · have same := outside.others other here
    apply getOwn?_congr ok
    · rw [same]
    · rfl
    · rw [same]

theorem getOwn?_withProperty (inside : o.index < s.objects.size) (q : Property) :
    (s.modifyObject o (·.withProperty name q)).getOwn? o name = some (s.showing o name q) := by
  have new := object_modifyObject s (·.withProperty name q) inside
  rw [← showing_congr ok (t := s.modifyObject o (·.withProperty name q))]
  · apply getOwn?_of_stored
    rw [new, Object.withProperty, NameMap.get?_insert, if_pos rfl]
  · rw [new, Object.withProperty]
  · rfl

end WellFormed

/-- The rule for a request to define a property of an object: a name that is not there can be added as long as the
object is extensible, and a property that is there must take the request. -/
def Allows (s : Store) (o : ObjectRef) (name : String) (d : Descriptor) : Prop :=
  match s.getOwn? o name with
  | none => (s.object o).extensible = true
  | some p => p.Allows d

end Store

namespace ObjectRef

variable {s t : Store} {o : ObjectRef} {name : String} {d : Descriptor} {r : Option Bool}

/-- A request is granted if the rule allows it, and refused without any change otherwise. -/
theorem Defines.decides (h : Defines s o name d r t) (complete : ∀ p, s.getOwn? o name = some p → p.Complete)
    (unmixed : d.isMixed = false) :
    (r = some true ↔ s.Allows o name d) ∧ (r ≠ some true → t = s) := by
  refine ⟨?_, h.unchanged⟩
  unfold Store.Allows
  cases h with
  | added absent extensible => simp [absent, extensible]
  | closed absent extensible no => simp [absent, extensible, no]
  | @kept p present granted =>
    rw [present]
    refine ⟨fun _ => ?_, fun _ => rfl⟩
    exact (Property.redefine_unchanged granted).elim Property.allows_of_isEmpty
      (Property.allows_of_holdsOf (complete p present))
  | @changed p q present granted =>
    rw [present]
    have free := (Property.redefine_changed granted).2.1
    exact ⟨fun _ => (Property.refusal?_eq_none_iff_allows (complete p present) unmixed).1 free, fun _ => rfl⟩
  | @refused _ p why present refusal no =>
    rw [present]
    have against := (Property.redefine_refused_iff (complete p present) unmixed).1 ⟨why, refusal⟩
    exact ⟨fun yes => absurd yes no, fun allows => absurd allows against⟩

/-- A request that is granted leaves the property with the fields that were asked for, and all else as it was. -/
theorem Defines.reconciles {reserved : ScopeRef → Prop} (h : Defines s o name d (some true) t)
    (ok : s.WellFormed reserved) (inside : o.index < s.objects.size) (unmixed : d.isMixed = false) :
    s.SameBut t o name ∧
      ∃ q, q.descriptor = d.reconciled (s.getOwn? o name) ∧ t.getOwn? o name = some (s.showing o name q) := by
  cases h with
  | added absent extensible =>
    refine ⟨Store.sameBut_withProperty ok inside _, d.complete, ?_, Store.getOwn?_withProperty ok inside _⟩
    rw [absent]
    exact Descriptor.descriptor_complete unmixed
  | @kept p present granted =>
    refine ⟨.refl s o name, p, ?_, ?_⟩
    · rw [present]
      exact (Descriptor.reconciled_of_unchanged granted (ok.complete_getOwn? present)).symm
    · rw [Store.showing_of_getOwn? present]
      exact present
  | @changed p q present granted =>
    refine ⟨Store.sameBut_withProperty ok inside _, q, ?_, Store.getOwn?_withProperty ok inside _⟩
    rw [present]
    exact (Descriptor.reconciled_of_changed granted (ok.complete_getOwn? present)).symm
  | closed _ _ no => exact absurd rfl no
  | refused _ _ no => exact absurd rfl no

/-- How a request ends in either mode, with what comes of it. -/
theorem defineOrdinary_run (s : Store) (o : ObjectRef) (name : String) (d : Descriptor) (c : Config) :
    ∃ granted t, Defines s o name d (some granted) t ∧ o.defineOrdinary name d false c s = .value granted t ∧
    (granted = true → o.defineOrdinary name d true c s = .value true t) ∧
    (granted = false → ∃ f, f.kind = .typeError ∧ o.defineOrdinary name d true c s = .abrupt (.fault f) t) := by
  rcases defineOrdinary_cases s o name d with ⟨t, defines, does⟩ | ⟨refused, turnsDown⟩
  · exact ⟨true, t, defines, (does c false).run, fun _ => (does c true).run, by simp⟩
  · obtain ⟨f, kind, fails⟩ := (turnsDown c).strict
    exact ⟨false, s, refused _ (by simp), (turnsDown c).lenient.run, by simp, fun _ => ⟨f, kind, fails.run⟩⟩

/-- A request of one kind to define a property of an object, as any object defines it that is no array and stands for no
parameters, is granted exactly if the rule allows it, in either mode. The property then has the fields that were there,
reset where the request changes the kind, with those of the request laid over them, or over defaults if it is new; and
nothing else changes. A request that is refused changes nothing, and is a type error where the caller asked for a
fault. -/
theorem definition_follows_rule {reserved : ScopeRef → Prop} (ok : s.WellFormed reserved)
    (inside : o.index < s.objects.size) (name : String) (unmixed : d.isMixed = false) (c : Config) :
    (∀ throw, (∃ t, o.defineOrdinary name d throw c s = .value true t) ↔ s.Allows o name d) ∧
      (∀ throw t, o.defineOrdinary name d throw c s = .value true t → s.SameBut t o name ∧
        ∃ q, q.descriptor = d.reconciled (s.getOwn? o name) ∧ t.getOwn? o name = some (s.showing o name q) ∧
          (s.Unaliased o name → t.getOwn? o name = some q)) ∧
      (¬s.Allows o name d → o.defineOrdinary name d false c s = .value false s ∧
        ∃ f, f.kind = .typeError ∧ o.defineOrdinary name d true c s = .abrupt (.fault f) s) := by
  obtain ⟨granted, t, defines, lenient, yes, no⟩ := defineOrdinary_run s o name d c
  obtain ⟨rule, same⟩ := defines.decides (fun _ => ok.complete_getOwn?) unmixed
  cases granted with
  | true =>
    have run (throw : Bool) : o.defineOrdinary name d throw c s = .value true t := by
      cases throw with
      | true => exact yes rfl
      | false => exact lenient
    have allows := rule.1 rfl
    refine ⟨fun throw => ⟨fun _ => allows, fun _ => ⟨t, run throw⟩⟩, fun throw u granted => ?_, fun against => ?_⟩
    · rw [run throw] at granted
      cases granted
      obtain ⟨rest, q, fields, shown⟩ := defines.reconciles ok inside unmixed
      refine ⟨rest, q, fields, shown, fun free => ?_⟩
      rw [shown, Store.showing_of_unaliased free]
    · exact absurd allows against
  | false =>
    have kept : t = s := same (by simp)
    subst kept
    obtain ⟨f, kind, strict⟩ := no rfl
    have against : ¬t.Allows o name d := by
      intro allows
      cases rule.2 allows
    have stops (throw : Bool) (u : Store) : o.defineOrdinary name d throw c t ≠ .value true u := by
      cases throw with
      | true => simp [strict]
      | false => simp [lenient]
    refine ⟨fun throw => ⟨?_, fun allows => absurd allows against⟩, fun throw u granted => ?_,
      fun _ => ⟨lenient, f, kind, strict⟩⟩
    · rintro ⟨u, granted⟩
      exact absurd granted (stops throw u)
    · exact absurd granted (stops throw u)

/-- The length of the array that other arrays inherit from, which can be written but not reconfigured. -/
theorem definition_follows_rule_length :
    (∃ t, Intrinsic.arrayPrototype.ref.defineOrdinary "length" ⟨some (.ofNat 1), some false, none, none, none, none⟩
        true .standard .initial = .value true t ∧
      t.getOwn? Intrinsic.arrayPrototype.ref "length" = some (.data (.ofNat 1) false false false)) ∧
    Intrinsic.arrayPrototype.ref.defineOrdinary "length" ⟨none, none, none, none, some true, none⟩ false .standard
      .initial = .value false .initial := by
  have present : Store.initial.getOwn? Intrinsic.arrayPrototype.ref "length" =
      some (.data (.ofNat 0) true false false) := by decide +kernel
  have inside : Intrinsic.arrayPrototype.ref.index < Store.initial.objects.size := by decide +kernel
  have free : Store.initial.Unaliased Intrinsic.arrayPrototype.ref "length" := by
    intro m kind
    cases kind
  obtain ⟨decides, reconciles, _⟩ := definition_follows_rule
    (d := ⟨some (.ofNat 1), some false, none, none, none, none⟩) Store.wellFormed_initial inside "length" rfl .standard
  obtain ⟨_, _, refuses⟩ := definition_follows_rule (d := ⟨none, none, none, none, some true, none⟩)
    Store.wellFormed_initial inside "length" rfl .standard
  refine ⟨?_, (refuses ?_).1⟩
  · obtain ⟨t, granted⟩ := (decides true).2 (by
      rw [Store.Allows, present]
      exact .inr ⟨rfl, by simp, by simp, .writable rfl⟩)
    obtain ⟨_, q, fields, _, shown⟩ := reconciles true t granted
    refine ⟨t, granted, ?_⟩
    rw [shown free]
    rw [present] at fields
    obtain ⟨fields'⟩ := q
    cases fields
    rfl
  · rw [Store.Allows, present]
    rintro (free | ⟨_, _, enumerable, _⟩)
    · cases free
    · cases enumerable true rfl

end ObjectRef

end Ecma
