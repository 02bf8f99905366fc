import Ecma.Proofs.Definition
import Ecma.Proofs.Number.Double
import Ecma.Proofs.Redefinition
import Ecma.Proofs.WellFormed.Made

/-!
# The shape of arrays

An array records its length in a property that is neither enumerated nor reconfigured, and all of its elements lie below
it. That does not hold while a property of the array is being defined: an element is added before the length grows, and
the length shrinks before the elements beyond it are deleted, from the last one down to the first that cannot be deleted.
`Spans` says of such a store what the length is and below what the elements lie, and `Counts` that this is one number.
Each part of a definition has one lemma on what it makes of a span, and `defineInArray_quiet` puts them together.
-/

namespace Ecma

/-- An array gives up no parameters with a property. -/
theorem Object.without_array {obj : Object} (name : String) (kind : obj.kind = .array) :
    obj.without name = { obj with properties := obj.properties.erase name } := by
  unfold without detached
  dsimp only
  rw [kind]

namespace Store

/-- An array has a length, which can be written or not, and elements below a bound. -/
structure Spans (s : Store) (o : ObjectRef) (n : Nat) (writable : Bool) (bound : Nat) : Prop where
  kind : (s.object o).kind = .array
  small : n < 4294967296
  length : s.getOwn? o "length" = some (.data (.ofNat n) writable false false)
  elements : ∀ i < 4294967295, Index.name i ∈ s.ownKeys o → i < bound

/-- An array has a length, which can be written or not, and no element at or beyond it. -/
def Counts (s : Store) (o : ObjectRef) (n : Nat) (writable : Bool) : Prop := s.Spans o n writable n

variable {s t : Store} {o : ObjectRef} {name : String} {n k bound : Nat} {w : Bool}

theorem getOwn?_array (kind : (s.object o).kind = .array) (name : String) :
    s.getOwn? o name = (s.object o).properties.get? name := by
  unfold getOwn? ownWith
  dsimp only
  rw [kind]

theorem ownKeys_array (kind : (s.object o).kind = .array) : s.ownKeys o = (s.object o).properties.keys := by
  unfold ownKeys
  dsimp only
  rw [kind]

theorem inside_of_array (kind : (s.object o).kind = .array) : o.index < s.objects.size := by
  refine Nat.lt_of_not_le fun outside => ?_
  rw [object, Array.getElem?_eq_none outside] at kind
  cases kind

theorem ownKeys_without (kind : (s.object o).kind = .array) (name : String) :
    (s.modifyObject o (·.without name)).ownKeys o = (s.ownKeys o).filter (· ≠ name) := by
  have new := object_modifyObject s (·.without name) (inside_of_array kind)
  rw [Object.without_array name kind] at new
  rw [ownKeys_array (by rw [new]; exact kind), new, NameMap.keys_erase, ownKeys_array kind]

namespace Spans

theorem mono {bound' : Nat} (h : s.Spans o n w bound) (le : bound ≤ bound') : s.Spans o n w bound' :=
  ⟨h.kind, h.small, h.length, fun i small mem => Nat.lt_of_lt_of_le (h.elements i small mem) le⟩

/-- The array after a change, from what is stored in it then. -/
theorem modify {f : Object → Object} {n' bound' : Nat} {w' : Bool} (h : s.Spans o n w bound)
    (kind : (f (s.object o)).kind = .array) (small : n' < 4294967296)
    (length : (f (s.object o)).properties.get? "length" = some (.data (.ofNat n') w' false false))
    (elements : ∀ i < 4294967295, Index.name i ∈ (f (s.object o)).properties.keys → i < bound') :
    (s.modifyObject o f).Spans o n' w' bound' := by
  have new := object_modifyObject s f (inside_of_array h.kind)
  have kind' : ((s.modifyObject o f).object o).kind = .array := new ▸ kind
  refine ⟨kind', small, ?_, ?_⟩
  · rw [getOwn?_array kind', new, length]
  · rw [ownKeys_array kind', new]
    exact elements

theorem stored (h : s.Spans o n w bound) :
    (s.object o).properties.get? "length" = some (.data (.ofNat n) w false false) :=
  getOwn?_array h.kind "length" ▸ h.length

theorem keys (h : s.Spans o n w bound) {i : Nat} (small : i < 4294967295)
    (mem : Index.name i ∈ (s.object o).properties.keys) : i < bound :=
  h.elements i small (ownKeys_array h.kind ▸ mem)

/-- The length gets another value. -/
theorem withLength {n' : Nat} {w' : Bool} (h : s.Spans o n w bound) (small : n' < 4294967296) :
    (s.modifyObject o (·.withProperty "length" (.data (.ofNat n') w' false false))).Spans o n' w' bound := by
  refine h.modify h.kind small ((NameMap.get?_insert ..).trans (if_pos rfl)) fun i index mem => ?_
  have known : "length" ∈ (s.object o).properties.keys :=
    NameMap.contains_iff_mem_keys.1 (Option.isSome_iff_exists.2 ⟨_, h.stored⟩)
  rw [Object.withProperty, NameMap.keys_insert, if_pos known] at mem
  exact h.keys index mem

/-- Another property is set, which may be an element. -/
theorem withProperty {bound' : Nat} {p : Property} (h : s.Spans o n w bound) (other : name ≠ "length")
    (le : bound ≤ bound') (below : ∀ i < 4294967295, Index.name i = name → i < bound') :
    (s.modifyObject o (·.withProperty name p)).Spans o n w bound' := by
  refine h.modify h.kind h.small ?_ fun i index mem => ?_
  · rw [Object.withProperty, NameMap.get?_insert, if_neg other.symm, h.stored]
  · rw [Object.withProperty, NameMap.keys_insert] at mem
    split at mem
    · exact Nat.lt_of_lt_of_le (h.keys index mem) le
    · rcases List.mem_append.1 mem with old | new
      · exact Nat.lt_of_lt_of_le (h.keys index old) le
      · exact below i index (List.mem_singleton.1 new)

/-- A property is deleted. It is not the length, which cannot be deleted. -/
theorem without {p : Property} (h : s.Spans o n w bound) (present : s.getOwn? o name = some p)
    (configurable : p.configurable = true) : (s.modifyObject o (·.without name)).Spans o n w bound := by
  have other : name ≠ "length" := by
    rintro rfl
    cases h.length.symm.trans present
    cases configurable
  have erased := Object.without_array name h.kind
  refine h.modify ?_ h.small ?_ fun i index mem => ?_
  · rw [erased]
    exact h.kind
  · rw [erased, NameMap.get?_erase, if_neg other.symm, h.stored]
  · rw [erased, NameMap.keys_erase] at mem
    exact h.keys index (List.mem_filter.1 mem).1

theorem closed (h : s.Spans o n w bound) : (s.modifyObject o Object.closed).Spans o n w bound :=
  h.modify h.kind h.small h.stored fun _ => h.keys

/-- A store in which the object is the same. -/
theorem of_same (h : s.Spans o n w bound) (same : t.object o = s.object o) : t.Spans o n w bound := by
  have kind : (t.object o).kind = .array := same ▸ h.kind
  refine ⟨kind, h.small, ?_, ?_⟩
  · rw [getOwn?_array kind, same, h.stored]
  · rw [ownKeys_array kind, same]
    exact fun _ => h.keys

end Spans

/-- An array counts its elements, as it did before where its length was read-only. -/
def Recounts (t : Store) (o : ObjectRef) (n : Nat) (w : Bool) : Prop :=
  (∃ n' w', t.Counts o n' w') ∧ (w = false → t.Counts o n false)

theorem Counts.recounts (h : s.Counts o n w) : s.Recounts o n w := by
  refine ⟨⟨n, w, h⟩, ?_⟩
  rintro rfl
  exact h

theorem Counts.recounts_writable {n' : Nat} (h : s.Counts o n' w) : s.Recounts o n true := ⟨⟨n', w, h⟩, nofun⟩

end Store

/-- A primitive becomes a number without any code. -/
theorem Value.toNumber_of_isPrimitive {E : Engine} {v : Value} (h : v.isPrimitive = true) :
    v.toNumber E = pure v.primitiveNumber := by
  cases v with
  | object => cases h
  | _ => rfl

theorem Value.toNumber_run {E : Engine} {v : Value} (h : v.isPrimitive = true) (c : Config) (s : Store) :
    v.toNumber E c s = .value v.primitiveNumber s := by
  rw [toNumber_of_isPrimitive h]
  rfl

theorem Value.toUint32_run {E : Engine} {v : Value} (h : v.isPrimitive = true) (c : Config) (s : Store) :
    v.toUint32 E c s = .value (Number.toUint32 v.primitiveNumber) s := by
  rw [toUint32, toNumber_of_isPrimitive h, map_pure]
  rfl

/-- A request for a value, in which the wish that it be read-only is put off. -/
theorem Descriptor.readOnlyLater {d : Descriptor} {v : Value} (asked : d.value = some v) (data : d.isAccessor = false) :
    (if d.writable = some false then { d with writable := some true } else d).value = some v ∧
      (if d.writable = some false then { d with writable := some true } else d).isAccessor = false ∧
      (if d.writable = some false then { d with writable := some true } else d).writable.getD true = true := by
  split
  · exact ⟨asked, data, rfl⟩
  next other =>
    refine ⟨asked, data, ?_⟩
    cases requested : d.writable with
    | none => rfl
    | some b =>
      cases b with
      | true => rfl
      | false => exact absurd requested other

namespace Property

variable {d : Descriptor} {name : String} {v : Value} {why : Fault}

theorem redefine_refused {p : Property} (h : p.redefine d name = .refused why) : p.refusal? d name = some why := by
  unfold redefine at h
  split at h
  · cases h
  · split at h
    next refusal =>
      cases h
      exact refusal
    · cases h

/-- Data that can be written, but is neither enumerated nor reconfigured, refuses only to become anything else. -/
theorem refusal?_eq_none_iff (data : d.isAccessor = false) :
    (Property.data v true false false).refusal? d name = none ↔
      Descriptor.keepsFlag d.configurable (some false) = true ∧ Descriptor.keepsFlag d.enumerable (some false) = true := by
  obtain ⟨value, writable, get, set, enumerable, configurable⟩ := d
  obtain ⟨rfl, rfl⟩ : get = none ∧ set = none := by simpa [Descriptor.isAccessor] using data
  have kinds : value.isSome = false ∧ writable.isSome = false ∨ (value.isSome || writable.isSome) = true := by
    cases value <;> cases writable <;> simp
  rcases configurable with _ | (_ | _) <;> rcases enumerable with _ | (_ | _) <;>
    rcases kinds with none | some <;> simp_all [refusal?, Descriptor.keepsFlag, Descriptor.isGeneric, Descriptor.isData,
      Descriptor.isAccessor]

theorem keepsValue_iff {requested : Option Value} :
    Descriptor.keepsValue requested (some v) = true ↔ requested.getD v = v := by
  cases requested with
  | none => simp [Descriptor.keepsValue]
  | some u => exact Value.same_iff

/-- A request that changes nothing of data asks for the value and the flags that are there. -/
theorem kept_data {w e c : Bool} (h : (Property.data v w e c).redefine d name = .unchanged) :
    d.value.getD v = v ∧ d.writable.getD w = w ∧
      Descriptor.keepsFlag d.configurable (some c) = true ∧ Descriptor.keepsFlag d.enumerable (some e) = true := by
  rcases redefine_unchanged h with empty | holds
  · obtain ⟨value, writable, get, set, enumerable, configurable⟩ := d
    simp only [Descriptor.isEmpty, Descriptor.isGeneric, Descriptor.isData, Bool.and_eq_true, Bool.not_eq_true',
      Bool.or_eq_false_iff, Option.isSome_eq_false_iff, Option.isNone_iff_eq_none] at empty
    obtain ⟨⟨⟨_, rfl, rfl⟩, rfl⟩, rfl⟩ := empty
    exact ⟨rfl, rfl, rfl, rfl⟩
  · simp only [Descriptor.holdsOf, Bool.and_eq_true] at holds
    exact ⟨keepsValue_iff.1 holds.1.1.1.1.1, keepsFlag_iff.1 holds.1.1.2, holds.2, holds.1.2⟩

end Property

namespace ObjectRef

variable {s t : Store} {o : ObjectRef} {name : String} {d : Descriptor} {n k bound : Nat} {w : Bool} {r : Option Bool}
  {c : Config}

theorem arrayLength_eq (h : s.Spans o n w bound) : o.arrayLength s = (n, w) := by
  rw [arrayLength, h.length]
  exact congrArg (·, w) (Number.toUInt32_ofNat h.small)

namespace Defines

theorem unchanged (h : Defines s o name d r t) (no : r ≠ some true) : t = s := by
  cases h with
  | added => exact absurd rfl no
  | kept => rfl
  | changed => exact absurd rfl no
  | closed => rfl
  | refused => rfl

/-- A property other than the length, which may be an element. -/
theorem spans {bound' : Nat} (h : Defines s o name d r t) (spans : s.Spans o n w bound) (other : name ≠ "length")
    (le : bound ≤ bound') (below : ∀ i < 4294967295, Index.name i = name → i < bound') : t.Spans o n w bound' := by
  cases h with
  | added => exact spans.withProperty other le below
  | kept => exact spans.mono le
  | changed => exact spans.withProperty other le below
  | closed => exact spans.mono le
  | refused => exact spans.mono le

/-- The length becomes what was asked for, if that is granted. -/
theorem length (h : Defines s o "length" d (some true) t) (spans : s.Spans o n w bound) (unmixed : d.isMixed = false)
    (small : k < 4294967296) (asked : d.value.getD (.ofNat n) = .ofNat k) :
    t.Spans o k (d.writable.getD w) bound := by
  have there {p : Property} (present : s.getOwn? o "length" = some p) : .data (.ofNat n) w false false = p :=
    Option.some.inj (spans.length.symm.trans present)
  cases h with
  | added absent => cases spans.length.symm.trans absent
  | @kept p present granted =>
    obtain rfl := there present
    obtain ⟨keeps, writable, _⟩ := Property.kept_data granted
    obtain rfl := Number.ofNat_injective spans.small small (keeps.symm.trans asked)
    rw [writable]
    exact spans
  | @changed p q present granted =>
    obtain rfl := there present
    obtain ⟨_, _, shape, rfl⟩ := Property.fixed_changed granted (.data ..) unmixed rfl
    cases shape
    rw [asked]
    exact spans.withLength small
  | closed _ _ no => exact absurd rfl no
  | refused _ _ no => exact absurd rfl no

/-- A length that is read-only stays. -/
theorem length_readOnly (h : Defines s o "length" d r t) (spans : s.Spans o n false bound) (unmixed : d.isMixed = false) :
    t = s := by
  cases h with
  | added absent => cases spans.length.symm.trans absent
  | changed present granted =>
    cases spans.length.symm.trans present
    obtain ⟨_, _, shape, _⟩ := Property.fixed_changed granted (.data ..) unmixed rfl
    cases shape
  | kept => rfl
  | closed => rfl
  | refused => rfl

/-- A length that can be written refuses only to be enumerated or reconfigured. -/
theorem length_granted_iff (h : Defines s o "length" d r t) (spans : s.Spans o n true bound)
    (data : d.isAccessor = false) :
    r = some true ↔
      Descriptor.keepsFlag d.configurable (some false) = true ∧ Descriptor.keepsFlag d.enumerable (some false) = true := by
  have there {p : Property} (present : s.getOwn? o "length" = some p) : .data (.ofNat n) true false false = p :=
    Option.some.inj (spans.length.symm.trans present)
  cases h with
  | added absent => cases spans.length.symm.trans absent
  | closed absent => cases spans.length.symm.trans absent
  | kept present granted =>
    obtain rfl := there present
    exact ⟨fun _ => (Property.kept_data granted).2.2, fun _ => rfl⟩
  | changed present granted =>
    obtain rfl := there present
    exact ⟨fun _ => (Property.refusal?_eq_none_iff data).1 (Property.redefine_changed granted).2.1, fun _ => rfl⟩
  | refused present refusal no =>
    obtain rfl := there present
    refine ⟨fun yes => absurd yes no, fun flags => ?_⟩
    cases (Property.redefine_refused refusal).symm.trans ((Property.refusal?_eq_none_iff data).2 flags)

end Defines

/-! ## Elements -/

theorem defineElement_quiet {i : Nat} {throw : Bool} (counts : s.Counts o n w) (index : Index.element? name = some i) :
    (o.defineElement i name d throw).Quiet c s fun _ t => t.Recounts o n w := by
  obtain ⟨rfl, small⟩ := Index.element?_eq_some_iff.1 index
  have other := Index.name_ne_length small
  refine .read_bind ?_
  rw [arrayLength_eq counts]
  dsimp only
  split
  · exact .reject fun _ _ => counts.recounts
  next admitted =>
  refine .bind defineOrdinary_quiet (fun defined t defines => ?_) fun t defines => ?_
  · cases defined with
    | false =>
      obtain rfl := defines.unchanged nofun
      exact .reject fun _ _ => counts.recounts
    | true =>
      rw [if_pos rfl]
      split
      next beyond =>
        -- the element is there and the length does not know of it yet
        have writable : w = true := by
          cases w with
          | true => rfl
          | false => exact absurd (by simpa using beyond) admitted
        subst writable
        have spans : t.Spans o n true (i + 1) :=
          defines.spans counts other (Nat.le_succ_of_le beyond) fun j _ same => Index.name_injective same ▸ Nat.lt_succ_self j
        rw [Number.ofNat_add_one (Nat.lt_succ_of_lt small)]
        refine .bind defineOrdinary_quiet (fun grows u grown => .pure ?_) fun u grown => ?_
        · cases (grown.length_granted_iff spans rfl).2 ⟨rfl, rfl⟩
          exact Store.Counts.recounts_writable (grown.length spans rfl (Nat.succ_lt_succ small) rfl)
        · cases (grown.length_granted_iff spans rfl).2 ⟨rfl, rfl⟩
      next inside =>
        have spans : t.Counts o n w :=
          defines.spans counts other (Nat.le_refl n) fun j _ same => Index.name_injective same ▸ Nat.lt_of_not_le inside
        exact .pure spans.recounts
  · obtain rfl := defines.unchanged nofun
    exact counts.recounts

theorem Deletes.spans {done : Bool} (h : Deletes s o name done t) (spans : s.Spans o n w bound) :
    t.Spans o n w bound ∧ ∀ key ∈ t.ownKeys o, key ∈ s.ownKeys o ∧ (done = true → key ≠ name) := by
  cases h with
  | missing absent =>
    refine ⟨spans, fun key mem => ⟨mem, fun _ same => ?_⟩⟩
    rw [Store.getOwn?_array spans.kind] at absent
    rw [Store.ownKeys_array spans.kind, same, ← NameMap.contains_iff_mem_keys, NameMap.contains, absent] at mem
    cases mem
  | deleted present configurable =>
    have after := spans.without present configurable
    refine ⟨after, fun key mem => ?_⟩
    rw [Store.ownKeys_without spans.kind] at mem
    obtain ⟨old, other⟩ := List.mem_filter.1 mem
    exact ⟨old, fun _ => of_decide_eq_true other⟩
  | kept =>
    refine ⟨spans, fun key mem => ⟨mem, fun done => ?_⟩⟩
    cases done

/-- Deleting all elements from an index on, the last one first, leaves those below the index, or those up to the first
that cannot be deleted. -/
theorem deleteElements_quiet {indices : List Nat} {start : Nat} (spans : s.Spans o n w bound)
    (ordered : indices.Pairwise (· ≥ ·)) (from_start : ∀ i ∈ indices, start ≤ i)
    (covered : ∀ i < 4294967295, Index.name i ∈ s.ownKeys o → i < start ∨ i ∈ indices) :
    (o.deleteElements indices).Quiet c s fun r t => ∃ stop, r = some stop ∧
      t.Spans o n w (stop.elim start (· + 1)) ∧ ∀ i, stop = some i → i ∈ indices := by
  induction ordered generalizing s with
  | nil =>
    refine .pure ⟨none, rfl, ⟨spans.kind, spans.small, spans.length, fun i small mem => ?_⟩, nofun⟩
    exact (covered i small mem).resolve_right List.not_mem_nil
  | @cons first rest least _ ih =>
    refine .bind delete_quiet (fun done t deletes => ?_) fun t deletes => ?_
    · obtain ⟨_, same, deletes⟩ := deletes
      cases same
      obtain ⟨spans', keys⟩ := deletes.spans spans
      cases done with
      | true =>
        refine (ih spans' (fun i mem => from_start i (List.mem_cons_of_mem _ mem)) fun i small mem => ?_).mono ?_
        · obtain ⟨old, other⟩ := keys _ mem
          refine (covered i small old).imp_right fun there => (List.mem_cons.1 there).resolve_left ?_
          rintro rfl
          exact other rfl rfl
        · rintro r t ⟨stop, rfl, spans, inside⟩
          exact ⟨stop, rfl, spans, fun i same => List.mem_cons_of_mem _ (inside i same)⟩
      | false =>
        refine .pure ⟨some first, rfl, ⟨spans'.kind, spans'.small, spans'.length, fun i small mem => ?_⟩, ?_⟩
        · rcases covered i small (keys _ mem).1 with below | there
          · exact Nat.lt_succ_of_lt (Nat.lt_of_lt_of_le below (from_start first (List.mem_cons_self ..)))
          · rcases List.mem_cons.1 there with rfl | there
            · exact Nat.lt_succ_self _
            · exact Nat.lt_succ_of_le (least i there)
        · rintro _ ⟨⟩
          exact List.mem_cons_self ..
    · obtain ⟨_, same, _⟩ := deletes
      cases same

theorem deleteElementsFrom_quiet {start : Nat} (spans : s.Spans o n w bound) :
    (o.deleteElements (o.elementsFrom s start)).Quiet c s fun r t => ∃ stop, r = some stop ∧
      t.Spans o n w (stop.elim start (· + 1)) ∧ ∀ i, stop = some i → i < 4294967295 := by
  obtain ⟨ordered, elements⟩ := elementsFrom_spec s o start
  have covered (i : Nat) (index : i < 4294967295) (mem : Index.name i ∈ s.ownKeys o) :
      i < start ∨ i ∈ o.elementsFrom s start :=
    (Nat.lt_or_ge i start).imp_right fun ge => (elements i).2 ⟨ge, index, mem⟩
  refine (deleteElements_quiet spans ordered (fun i mem => ((elements i).1 mem).1) covered).mono ?_
  rintro r t ⟨stop, rfl, left, deleted⟩
  exact ⟨stop, rfl, left, fun i same => ((elements i).1 (deleted i same)).2.1⟩

/-! ## The length -/

/-- A length that does not shrink. -/
theorem Defines.recounts (h : Defines s o "length" d r t) (counts : s.Counts o n w) (unmixed : d.isMixed = false)
    (small : k < 4294967296) (asked : d.value.getD (.ofNat n) = .ofNat k) (le : n ≤ k) : t.Recounts o n w := by
  by_cases yes : r = some true
  · subst yes
    cases w with
    | true => exact Store.Counts.recounts_writable ((h.length counts unmixed small asked).mono le)
    | false =>
      obtain rfl := h.length_readOnly counts unmixed
      exact counts.recounts
  · obtain rfl := h.unchanged yes
    exact counts.recounts

theorem defineLength_ordinary {throw : Bool} (counts : s.Counts o n w) (unmixed : d.isMixed = false)
    (small : k < 4294967296) (asked : d.value.getD (.ofNat n) = .ofNat k) (le : n ≤ k) :
    (o.defineOrdinary "length" d throw).Quiet c s fun _ t => t.Recounts o n w :=
  defineOrdinary_quiet.mono fun _ _ defines => defines.recounts counts unmixed small asked le

/-- A length that can be written is set beyond the elements that are left. -/
theorem defineLength_restored {length : Nat} {throw : Bool} {why : Fault} (spans : s.Spans o length true k)
    (small : k < 4294967296) (asked : d.value = some (.ofNat k)) (data : d.isAccessor = false)
    (flags : Descriptor.keepsFlag d.configurable (some false) = true ∧
      Descriptor.keepsFlag d.enumerable (some false) = true) :
    (do let _ ← o.defineOrdinary "length" d false; .reject throw why : Action Bool).Quiet c s
      fun _ t => t.Recounts o n true := by
  refine .bind defineOrdinary_quiet (fun r t defines => .reject fun _ _ => ?_) fun t defines => ?_
  · cases (defines.length_granted_iff spans data).2 flags
    have set : d.value.getD (.ofNat length) = .ofNat k := by rw [asked, Option.getD_some]
    exact Store.Counts.recounts_writable (defines.length spans (Law.unmixed_of_not_accessor data) small set)
  · cases (defines.length_granted_iff spans data).2 flags

theorem shorten_quiet {length : Nat} {throw : Bool} (counts : s.Counts o n true) (shorter : length < n)
    (asked : d.value = some (.ofNat length)) (data : d.isAccessor = false) :
    (o.shorten length d throw).Quiet c s fun _ t => t.Recounts o n true := by
  have small : length < 4294967296 := Nat.lt_trans shorter counts.small
  obtain ⟨value, data, writable⟩ := Descriptor.readOnlyLater asked data
  unfold shorten
  dsimp only
  generalize (if d.writable = some false then { d with writable := some true } else d) = granted at value data writable ⊢
  refine .bind defineOrdinary_quiet (fun defined t defines => ?_) fun t defines => ?_
  · cases defined with
    | false =>
      obtain rfl := defines.unchanged nofun
      exact .reject fun _ _ => counts.recounts
    | true =>
      have flags := (defines.length_granted_iff counts data).1 rfl
      have set : granted.value.getD (.ofNat n) = .ofNat length := by rw [value, Option.getD_some]
      have spans := defines.length counts (Law.unmixed_of_not_accessor data) small set
      rw [writable] at spans
      refine .read_bind (.bind (deleteElementsFrom_quiet spans) (fun stop u post => ?_) fun u post => ?_)
      · obtain ⟨_, same, left, index⟩ := post
        cases same
        cases stop with
        | some i =>
          have index := index i rfl
          dsimp only
          rw [Number.ofNat_add_one (Nat.lt_succ_of_lt index)]
          refine defineLength_restored left (Nat.succ_lt_succ index) ?_ ?_ ?_
          · split <;> rfl
          · split <;> exact data
          · split <;> exact flags
        | none =>
          have counts : u.Counts o length true := left
          dsimp only
          split
          · refine .bind (defineLength_ordinary counts rfl small rfl (Nat.le_refl _))
              (fun _ _ post => .pure ⟨post.1, nofun⟩) fun _ post => ⟨post.1, nofun⟩
          · exact .pure counts.recounts_writable
      · obtain ⟨_, same, _⟩ := post
        cases same
  · obtain rfl := defines.unchanged nofun
    exact counts.recounts

theorem defineLength_quiet {E : Engine} {throw : Bool} (counts : s.Counts o n w) (unmixed : d.isMixed = false)
    (primitive : ∀ v, d.value = some v → v.isPrimitive = true) :
    (o.defineLength E d throw).Quiet c s fun _ t => t.Recounts o n w := by
  refine .read_bind ?_
  rw [arrayLength_eq counts]
  dsimp only
  cases asked : d.value with
  | none =>
    have kept : d.value.getD (.ofNat n) = .ofNat n := by rw [asked, Option.getD_none]
    exact defineLength_ordinary counts unmixed counts.small kept (Nat.le_refl n)
  | some v =>
    have data : d.isAccessor = false := by simpa [Descriptor.isMixed, Descriptor.isData, asked] using unmixed
    have small : Number.toUint32 v.primitiveNumber < 4294967296 := Number.toUint32_lt _
    simp only [Value.toUint32, Value.toNumber_of_isPrimitive (primitive v asked), map_pure, pure_bind]
    refine .sizing_bind ?_
    split
    · exact .fail counts.recounts
    split
    next longer =>
      exact defineLength_ordinary counts (Law.unmixed_of_not_accessor data) small rfl longer
    next shorter =>
      split
      next writable =>
        subst writable
        exact shorten_quiet counts (Nat.lt_of_not_le shorter) rfl data
      · exact .reject fun _ _ => counts.recounts

/-- Defining a property of an array leaves it counting its elements. A length that was read-only stays. -/
theorem defineInArray_quiet {E : Engine} {throw : Bool} (counts : s.Counts o n w) (unmixed : d.isMixed = false)
    (primitive : name = "length" → ∀ v, d.value = some v → v.isPrimitive = true) :
    (o.defineInArray E name d throw).Quiet c s fun _ t => t.Recounts o n w := by
  unfold defineInArray
  split
  next length => exact defineLength_quiet counts unmixed (primitive length)
  next other =>
    split
    next i index => exact defineElement_quiet counts index
    next noIndex =>
      refine defineOrdinary_quiet.mono fun _ t defines => Store.Counts.recounts ?_
      refine defines.spans counts other (Nat.le_refl n) fun i small written => ?_
      cases noIndex.symm.trans (Index.element?_eq_some_iff.2 ⟨written, small⟩)

end ObjectRef

end Ecma
