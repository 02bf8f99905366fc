import Ecma.Proofs.OwnKeys
import Ecma.Proofs.Rejection

/-!
# The order of own names

The names of an object stand in the order in which they were added. A request to set or delete a property that runs no
code changes the list by that name at most: it is added at the end, or taken out, and what is turned down leaves the list
as it was. Only the length of an array takes others along, namely the elements beyond it, and the names that are left
keep their order.
-/

namespace Ecma

namespace Store

/-- The names of an object once one of them is set. -/
def keysWith (s : Store) (o : ObjectRef) (name : String) : List String :=
  if name ∈ s.ownKeys o then s.ownKeys o else s.ownKeys o ++ [name]

/-- The names of an object after a request to set one of them. -/
structure Sets (s t : Store) (o : ObjectRef) (name : String) (granted : Prop) : Prop where
  yes : granted → t.ownKeys o = s.keysWith o name
  no : ¬granted → t.ownKeys o = s.ownKeys o

/-- The names of an object after a request to delete one of them. -/
structure Drops (s t : Store) (o : ObjectRef) (name : String) (granted : Prop) : Prop where
  yes : granted → t.ownKeys o = (s.ownKeys o).filter (· ≠ name)
  no : ¬granted → t.ownKeys o = s.ownKeys o

/-- An array has lost nothing but elements, and no name has moved. -/
structure Trims (s t : Store) (o : ObjectRef) : Prop where
  kind : (t.object o).kind = .array
  order : (t.ownKeys o).Sublist (s.ownKeys o)
  kept : ∀ name ∈ s.ownKeys o, name ∈ t.ownKeys o ∨ (Index.element? name).isSome = true

/-- The name is that of the length of an array. -/
def IsLength (s : Store) (o : ObjectRef) (name : String) : Prop := (s.object o).kind = .array ∧ name = "length"

variable {s t u : Store} {o : ObjectRef} {name : String}

namespace Sets

variable {wish wish' : Prop}

theorem refused (no : ¬wish) : s.Sets s o name wish := ⟨fun yes => absurd yes no, fun _ => rfl⟩

theorem granted (yes : wish) (keys : t.ownKeys o = s.keysWith o name) : s.Sets t o name wish :=
  ⟨fun _ => keys, fun no => absurd yes no⟩

theorem iff (h : s.Sets t o name wish) (same : wish' ↔ wish) : s.Sets t o name wish' :=
  ⟨fun yes => h.yes (same.1 yes), fun no => h.no (mt same.2 no)⟩

end Sets

namespace Trims

theorem of_keys (kind : (t.object o).kind = .array) (keys : t.ownKeys o = s.ownKeys o) : s.Trims t o :=
  ⟨kind, keys ▸ .refl _, fun _ mem => .inl (keys ▸ mem)⟩

theorem refl (kind : (s.object o).kind = .array) : s.Trims s o := .of_keys kind rfl

theorem trans (first : s.Trims t o) (second : t.Trims u o) : s.Trims u o where
  kind := second.kind
  order := second.order.trans first.order
  kept name mem := (first.kept name mem).elim (second.kept name) .inr

/-- The length is no element. -/
theorem length_mem (h : s.Trims t o) (there : "length" ∈ s.ownKeys o) : "length" ∈ t.ownKeys o :=
  (h.kept "length" there).resolve_right (by decide)

end Trims

theorem keysWith_of_mem (mem : name ∈ s.ownKeys o) : s.keysWith o name = s.ownKeys o := if_pos mem

theorem mem_ownKeys {p : Property} (stored : (s.object o).properties.get? name = some p) : name ∈ s.ownKeys o := by
  rw [ownKeys_eq]
  exact List.mem_append_right _ (Object.mem_keys stored)

/-- An object keeps its names with the names of what it stores. -/
theorem ownKeys_modifyObject {f : Object → Object} (inside : o.index < s.objects.size)
    (narrows : (s.object o).kind.Narrows (f (s.object o)).kind) :
    (s.modifyObject o f).ownKeys o = (s.object o).kind.indices ++ (f (s.object o)).properties.keys := by
  rw [ownKeys_eq, object_modifyObject s f inside, narrows.indices]

theorem ownKeys_withProperty (p : Property) (brief : s.Brief o) (inside : o.index < s.objects.size)
    (shown : (s.getOwn? o name).isSome = true → ∃ q, (s.object o).properties.get? name = some q) :
    (s.modifyObject o (·.withProperty name p)).ownKeys o = s.keysWith o name := by
  rw [ownKeys_modifyObject inside .same, Object.withProperty, NameMap.keys_insert, keysWith]
  by_cases present : name ∈ s.ownKeys o
  · obtain ⟨q, stored⟩ := shown (brief.mem_ownKeys_iff.1 present)
    rw [if_pos present, if_pos (Object.mem_keys stored), ownKeys_eq]
  · have absent : name ∉ (s.object o).properties.keys := by
      intro mem
      rw [ownKeys_eq] at present
      exact present (List.mem_append_right _ mem)
    rw [if_neg present, if_neg absent, ownKeys_eq, List.append_assoc]

/-- Defining an index that stands for a parameter adds no name. -/
theorem ownKeys_defineAliased {p : Property} (stored : (s.object o).properties.get? name = some p)
    (inside : o.index < s.objects.size) (d : Descriptor) (change : Option Property) (e : ScopeRef)
    (bindings : NameMap Binding) (parameter : String) (b : Binding) :
    (s.defineAliased o name d change e bindings parameter b).ownKeys o = s.ownKeys o := by
  have keys : (s.modifyObject o (·.redefined name d change)).ownKeys o = s.ownKeys o := by
    rw [ownKeys_modifyObject inside (Object.narrows_redefined ..), (Object.redefined_eq ..).1, ownKeys_eq]
    cases change with
    | none => rfl
    | some q => rw [Option.map_some, Option.getD_some, NameMap.keys_insert, if_pos (Object.mem_keys stored)]
  rw [defineAliased_eq]
  dsimp only
  split
  · exact keys
  · cases d.value with
    | none => exact keys
    | some v => exact keys

end Store

namespace ObjectRef

variable {s t : Store} {o : ObjectRef} {name : String} {d : Descriptor} {r : Option Bool} {c : Config} {throw : Bool}
  {E : Engine}

theorem Defines.sets (h : Defines s o name d r t) (brief : s.Brief o) (inside : o.index < s.objects.size)
    (unmixed : d.isMixed = false) : s.Sets t o name (r = some true) := by
  cases h with
  | added absent =>
    refine .granted rfl (Store.ownKeys_withProperty _ brief inside fun present => ?_)
    rw [absent] at present
    cases present
  | kept present =>
    refine .granted rfl (Store.keysWith_of_mem (brief.mem_ownKeys_iff.2 ?_)).symm
    rw [present]
    rfl
  | changed present granted =>
    exact .granted rfl (Store.ownKeys_withProperty _ brief inside fun _ => Store.stored_of_changed present granted unmixed)
  | closed _ _ no => exact .refused no
  | refused _ _ no => exact .refused no

/-- A definition changes no more than the properties of its object. -/
theorem Defines.kind (h : Defines s o name d r t) : (t.object o).kind = (s.object o).kind := by
  have set (p : Property) : ((s.modifyObject o (·.withProperty name p)).object o).kind = (s.object o).kind := by
    rcases Store.object_modifyObject_cases s o (·.withProperty name p) o with same | ⟨_, _, new⟩
    · rw [same]
    · rw [new]
      rfl
  cases h with
  | added => exact set _
  | changed => exact set _
  | kept => rfl
  | closed => rfl
  | refused => rfl

theorem defineOrdinary_keys (brief : s.Brief o) (inside : o.index < s.objects.size) (unmixed : d.isMixed = false) :
    (o.defineOrdinary name d throw).Quiet c s fun r t => s.Sets t o name (r = some true) :=
  defineOrdinary_quiet.mono fun _ _ defines => defines.sets brief inside unmixed

theorem delete_keys (tidy : s.Tidy) (brief : s.Brief o) (inside : o.index < s.objects.size) :
    (o.delete name throw).Quiet c s fun r t => s.Drops t o name (r = some true) := by
  refine .read_bind ?_
  cases found : s.getOwn? o name with
  | none =>
    refine .pure ⟨fun _ => (List.filter_eq_self.2 fun key mem => decide_eq_true ?_).symm, fun no => absurd rfl no⟩
    rintro rfl
    rw [brief.mem_ownKeys_iff, found] at mem
    cases mem
  | some p =>
    dsimp only
    cases configurable : p.configurable with
    | false => exact .reject fun _ no => ⟨fun yes => absurd yes no, fun _ => rfl⟩
    | true =>
      refine .modify_bind (.pure ⟨fun _ => ?_, fun no => absurd rfl no⟩)
      obtain ⟨q, stored⟩ := Store.stored_of_configurable found configurable
      have apart := tidy.not_mem_indices brief stored
      have others : (s.object o).kind.indices.filter (· ≠ name) = (s.object o).kind.indices := by
        refine List.filter_eq_self.2 fun key mem => decide_eq_true ?_
        rintro rfl
        exact apart mem
      rw [Store.ownKeys_modifyObject inside (Object.narrows_without ..), Store.ownKeys_eq, List.filter_append, others,
        Object.without, Object.properties_detached, NameMap.keys_erase]

/-- A name that is there is set once more. -/
theorem Defines.keys_of_mem (h : Defines s o name d r t) (brief : s.Brief o) (inside : o.index < s.objects.size)
    (unmixed : d.isMixed = false) (mem : name ∈ s.ownKeys o) : t.ownKeys o = s.ownKeys o := by
  have sets := h.sets brief inside unmixed
  by_cases yes : r = some true
  · rw [sets.yes yes, Store.keysWith_of_mem mem]
  · exact sets.no yes

theorem Defines.inside (h : Defines s o name d r t) (inside : o.index < s.objects.size) : o.index < t.objects.size := by
  cases h with
  | added => simpa [Store.modifyObject] using inside
  | changed => simpa [Store.modifyObject] using inside
  | kept => exact inside
  | closed => exact inside
  | refused => exact inside

theorem Defines.not_granted {p : Property} {why : Fault} (h : Defines s o name d r t) (present : s.getOwn? o name = some p)
    (refusal : p.redefine d name = .refused why) : r ≠ some true := by
  cases h with
  | added absent => cases absent.symm.trans present
  | kept there granted =>
    cases there.symm.trans present
    cases granted.symm.trans refusal
  | changed there granted =>
    cases there.symm.trans present
    cases granted.symm.trans refusal
  | closed _ _ no => exact no
  | refused _ _ no => exact no

/-- An array grows with its elements, and its length stays in its place. -/
theorem defineElement_keys {i : Nat} (tidy : s.Tidy) (kind : (s.object o).kind = .array) (unmixed : d.isMixed = false) :
    (o.defineElement i name d throw).Quiet c s fun r t => s.Sets t o name (r = some true) := by
  have inside := Store.inside_of_array kind
  obtain ⟨v, w, e, _, stored⟩ := (tidy o).length kind
  refine .read_bind ?_
  dsimp only
  split
  · exact .reject fun _ no => .refused no
  refine .bind defineOrdinary_quiet (fun defined t defines => ?_) fun t defines => ?_
  · have sets := defines.sets (Store.brief_of_array kind) inside unmixed
    cases defined with
    | false =>
      obtain rfl := defines.unchanged nofun
      exact .reject fun _ no => .refused no
    | true =>
      have keys := sets.yes rfl
      rw [if_pos rfl]
      split
      · have there : "length" ∈ t.ownKeys o := by
          rw [keys, Store.keysWith]
          split
          · exact Store.mem_ownKeys stored
          · exact List.mem_append_left _ (Store.mem_ownKeys stored)
        have kind' := defines.kind.trans kind
        have length {r : Option Bool} {u : Store} {x : Value} (grows : Defines t o "length" (.ofValue x) r u) :
            u.ownKeys o = s.keysWith o name := by
          rw [grows.keys_of_mem (Store.brief_of_array kind') (defines.inside inside) rfl there, keys]
        refine .bind defineOrdinary_answers (fun _ u grows => .pure (.granted rfl (length grows.1))) fun u grows => ?_
        exact absurd rfl (grows.2 rfl)
      · exact .pure (.granted rfl keys)
  · obtain rfl := defines.unchanged nofun
    exact .refused nofun

theorem defineInArguments_keys {reserved : ScopeRef → Prop} {m : ParameterMap} (ok : s.WellFormed reserved)
    (kind : (s.object o).kind = .arguments (some m)) (brief : s.Brief o) (inside : o.index < s.objects.size)
    (unmixed : d.isMixed = false) :
    (o.defineInArguments E m name d throw).Quiet c s fun r t => s.Sets t o name (r = some true) := by
  cases aliased : m.parameter? name with
  | none =>
    unfold defineInArguments
    refine .bind defineOrdinary_quiet (fun defined t defines => ?_) fun t defines => ?_
    · cases defined with
      | false =>
        obtain rfl := defines.unchanged nofun
        exact .reject fun _ no => .refused no
      | true =>
        simp only [aliased, if_true]
        exact .pure (defines.sets brief inside unmixed)
    · obtain rfl := defines.unchanged nofun
      exact .refused nofun
  | some parameter =>
    obtain ⟨bindings, b, v, e, configurable, record, found, aliasable, stored, present⟩ := ok.getOwn?_aliased kind aliased
    have same (change : Option Property) (granted : (Property.data b.value true e configurable).Grants d name change) :
        (o.defineInArguments E m name d throw).Quiet c s fun r t => s.Sets t o name (r = some true) := by
      refine .of_does (defineInArguments_aliased present granted aliased record found aliasable.mutable) (.granted rfl ?_)
      rw [Store.ownKeys_defineAliased stored inside, Store.keysWith_of_mem (Store.mem_ownKeys stored)]
    cases granted : (Property.data b.value true e configurable).redefine d name with
    | unchanged => exact same none granted
    | changed q => exact same (some q) granted
    | refused why =>
      unfold defineInArguments
      refine .bind defineOrdinary_quiet (fun defined t defines => ?_) fun t defines => ?_
      · cases defined with
        | false =>
          obtain rfl := defines.unchanged nofun
          exact .reject fun _ no => .refused no
        | true => exact absurd rfl (defines.not_granted present granted)
      · obtain rfl := defines.unchanged nofun
        exact .refused nofun

/-- A request for both kinds of property at once comes to nothing. -/
theorem check_quiet {α : Type} {f : Unit → Action α} {Q : Option α → Store → Prop} (mixed : Q none s)
    (unmixed : d.isMixed = false → (f ()).Quiet c s Q) : (d.check >>= f).Quiet c s Q := by
  unfold Descriptor.check
  cases kinds : d.isMixed with
  | true =>
    have fails : (Action.fail .mixedDescriptor : Action Unit).Quiet c s fun r t => r = none ∧ t = s := .fail ⟨rfl, rfl⟩
    exact .bind fails nofun fun t post => post.2 ▸ mixed
  | false => exact ⟨(unmixed kinds).leaves, (unmixed kinds).path⟩

theorem define_keys {reserved : ScopeRef → Prop} (ok : s.WellFormed reserved) (tidy : s.Tidy) (brief : s.Brief o)
    (inside : o.index < s.objects.size) (other : ¬s.IsLength o name) :
    (o.define E name d throw).Quiet c s fun r t => s.Sets t o name (r = some true) := by
  refine check_quiet (.refused nofun) fun unmixed => .read_bind ?_
  cases kind : (s.object o).kind with
  | array =>
    dsimp only
    unfold defineInArray
    rw [if_neg fun same => other ⟨kind, same⟩]
    cases Index.element? name with
    | some i => exact defineElement_keys tidy kind unmixed
    | none => exact defineOrdinary_keys brief inside unmixed
  | arguments mapped =>
    cases mapped with
    | none => exact defineOrdinary_keys brief inside unmixed
    | some m => exact defineInArguments_keys ok kind brief inside unmixed
  | _ => exact defineOrdinary_keys brief inside unmixed

/-- No setter is called for an assignment to a property. -/
def Unset (s : Store) (o : ObjectRef) (name : String) : Prop := (s.getProperty? o name).bind (·.setter?) = none

/-- An assignment that calls no setter is refused, or asks for a definition. -/
theorem tryPut_quiet {v : Value} {Q : Option Bool → Store → Prop} (unset : Unset s o name)
    (refused : ∀ r, r ≠ some true → Q r s)
    (defines : ∀ d, d.value = some v → (o.define E name d throw).Quiet c s Q) :
    (o.tryPut E name v throw).Quiet c s Q := by
  refine .read_bind ?_
  split
  · refine .read_bind ?_
    split
    · exact defines _ rfl
    · refine .read_bind ?_
      rw [unset]
      exact defines _ rfl
  · exact .reject refused

/-- An assignment is granted, in either mode, if it succeeds where refusal is a fault. -/
theorem tryPut_granted_iff (v : Value) (throw : Bool) :
    (∃ t, o.tryPut E name v throw c s = .value true t) ↔ ∃ t, o.put E name v true c s = .value () t := by
  have reports : (o.tryPut E name v false c s).Reports (o.tryPut E name v true c s) := tryPut_reports c s
  have quits : (∃ done t, o.tryPut E name v true c s = .value done t) ↔ ∃ t, o.put E name v true c s = .value () t := by
    rw [put_eq_tryPut, Action.bind_apply]
    cases o.tryPut E name v true c s with
    | value done t => exact ⟨fun _ => ⟨t, rfl⟩, fun _ => ⟨done, t, rfl⟩⟩
    | abrupt e t => exact ⟨nofun, nofun⟩
    | exhausted t => exact ⟨nofun, nofun⟩
  rw [← quits]
  cases throw with
  | true => exact reports.granted_iff.2
  | false => exact reports.granted_iff.1

theorem put_keys {reserved : ScopeRef → Prop} {v : Value} (ok : s.WellFormed reserved) (tidy : s.Tidy) (brief : s.Brief o)
    (inside : o.index < s.objects.size) (other : ¬s.IsLength o name) (unset : Unset s o name) :
    (o.put E name v throw).Quiet c s fun _ t => s.Sets t o name (∃ u, o.put E name v true c s = .value () u) := by
  have tries : (o.tryPut E name v throw).Quiet c s fun r t => s.Sets t o name (r = some true) :=
    tryPut_quiet unset (fun _ no => .refused no) fun _ _ => define_keys ok tidy brief inside other
  rw [put_eq_tryPut]
  refine .bind tries.traced (fun done t post => .pure (post.1.iff ?_)) fun t post => post.1.iff ?_
  · rw [← tryPut_granted_iff v throw, post.2.1 done rfl]
    constructor
    · rintro ⟨u, same⟩
      cases same
      rfl
    · intro same
      cases same
      exact ⟨t, rfl⟩
  · obtain ⟨e, stopped⟩ := post.2.2 rfl
    rw [← tryPut_granted_iff v throw, stopped]
    exact ⟨nofun, nofun⟩

/-! ## The length of an array -/

theorem Defines.trims (h : Defines s o "length" d r t) (kind : (s.object o).kind = .array) (unmixed : d.isMixed = false)
    (there : "length" ∈ s.ownKeys o) : s.Trims t o := by
  have keys := h.keys_of_mem (Store.brief_of_array kind) (Store.inside_of_array kind) unmixed there
  exact .of_keys (h.kind.trans kind) keys

theorem Deletes.trims {i : Nat} {done : Bool} (h : Deletes s o (Index.name i) done t) (kind : (s.object o).kind = .array)
    (element : i < 4294967295) : s.Trims t o := by
  cases h with
  | missing => exact .refl kind
  | kept => exact .refl kind
  | deleted =>
    have new := Store.object_modifyObject s (·.without (Index.name i)) (Store.inside_of_array kind)
    have kind' : ((s.modifyObject o (·.without (Index.name i))).object o).kind = .array := by
      rw [new, Object.without_array _ kind]
      exact kind
    have keys := Store.ownKeys_without kind (Index.name i)
    refine ⟨kind', keys ▸ List.filter_sublist, fun name mem => ?_⟩
    by_cases same : name = Index.name i
    · rw [same, Index.element?_eq_some_iff.2 ⟨rfl, element⟩]
      exact .inr rfl
    · exact .inl (keys ▸ List.mem_filter.2 ⟨mem, decide_eq_true same⟩)

theorem deleteElements_trims {indices : List Nat} (kind : (s.object o).kind = .array)
    (elements : ∀ i ∈ indices, i < 4294967295) :
    (o.deleteElements indices).Quiet c s fun r t => r ≠ none ∧ s.Trims t o := by
  induction indices generalizing s with
  | nil => exact .pure ⟨nofun, .refl kind⟩
  | cons i rest ih =>
    obtain ⟨first, others⟩ := List.forall_mem_cons.1 elements
    refine .bind delete_quiet (fun done t post => ?_) fun t post => ?_
    · obtain ⟨_, _, deletes⟩ := post
      have trims := deletes.trims kind first
      split
      · exact (ih trims.kind others).mono fun _ _ post => ⟨post.1, trims.trans post.2⟩
      · exact .pure ⟨nofun, trims⟩
    · obtain ⟨_, same, _⟩ := post
      cases same

theorem shorten_trims {length : Nat} (kind : (s.object o).kind = .array) (data : d.isAccessor = false)
    (there : "length" ∈ s.ownKeys o) : (o.shorten length d throw).Quiet c s fun _ t => s.Trims t o := by
  have granted : (if d.writable = some false then { d with writable := some true } else d).isAccessor = false := by
    split <;> exact data
  unfold shorten
  dsimp only
  generalize (if d.writable = some false then { d with writable := some true } else d) = granted at granted ⊢
  refine .bind defineOrdinary_quiet (fun defined t defines => ?_) fun t defines => ?_
  · have first := defines.trims kind (Law.unmixed_of_not_accessor granted) there
    cases defined with
    | false => exact .reject fun _ _ => first
    | true =>
      have elements : ∀ i ∈ o.elementsFrom t length, i < 4294967295 := fun i mem =>
        (((elementsFrom_spec t o length).2 i).1 mem).2.1
      refine .read_bind (.bind (deleteElements_trims first.kind elements) (fun stop u post => ?_) fun u post => ?_)
      · have second := first.trans post.2
        have last {e : Descriptor} {r : Option Bool} {x : Store} (defines : Defines u o "length" e r x)
            (unmixed : e.isMixed = false) : s.Trims x o :=
          second.trans (defines.trims second.kind unmixed (second.length_mem there))
        cases stop with
        | some i =>
          refine .bind defineOrdinary_quiet (fun _ x defines => .reject fun _ _ => last defines ?_) fun x defines =>
            last defines ?_
          · split <;> exact Law.unmixed_of_not_accessor granted
          · split <;> exact Law.unmixed_of_not_accessor granted
        | none =>
          dsimp only
          split
          · exact .bind defineOrdinary_quiet (fun _ x defines => .pure (last defines rfl)) fun x defines =>
              last defines rfl
          · exact .pure second
      · exact absurd rfl post.1
  · exact defines.trims kind (Law.unmixed_of_not_accessor granted) there

theorem defineLength_trims (kind : (s.object o).kind = .array) (unmixed : d.isMixed = false)
    (there : "length" ∈ s.ownKeys o) (primitive : ∀ v, d.value = some v → v.isPrimitive = true) :
    (o.defineLength E d throw).Quiet c s fun _ t => s.Trims t o := by
  refine .read_bind ?_
  dsimp only
  cases asked : d.value with
  | none => exact defineOrdinary_quiet.mono fun _ _ defines => defines.trims kind unmixed there
  | some v =>
    have data : d.isAccessor = false := by simpa [Descriptor.isMixed, Descriptor.isData, asked] using unmixed
    simp only [Value.toUint32, Value.toNumber_of_isPrimitive (primitive v asked), map_pure, pure_bind]
    refine .sizing_bind ?_
    split
    · exact .fail (.refl kind)
    split
    · exact defineOrdinary_quiet.mono fun _ _ defines => defines.trims kind (Law.unmixed_of_not_accessor data) there
    split
    · exact shorten_trims kind data there
    · exact .reject fun _ _ => .refl kind

/-- A primitive that is to become the length of an array takes nothing but elements. -/
theorem define_trims (tidy : s.Tidy) (length : s.IsLength o name)
    (primitive : ∀ v, d.value = some v → v.isPrimitive = true) :
    (o.define E name d throw).Quiet c s fun _ t => s.Trims t o := by
  obtain ⟨kind, rfl⟩ := length
  obtain ⟨v, w, e, _, stored⟩ := (tidy o).length kind
  refine check_quiet (.refl kind) fun unmixed => .read_bind ?_
  rw [kind]
  dsimp only
  rw [defineInArray, if_pos rfl]
  exact defineLength_trims kind unmixed (Store.mem_ownKeys stored) primitive

/-- The length of an array is data, so no setter is called for it. -/
theorem unset_length (tidy : s.Tidy) (length : s.IsLength o name) : Unset s o name := by
  obtain ⟨kind, rfl⟩ := length
  obtain ⟨v, w, e, _, stored⟩ := (tidy o).length kind
  have own : s.getOwn? o "length" = some (.data v w e false) := (Store.getOwn?_array kind "length").trans stored
  rw [Unset, Store.getProperty?, Store.prototypeChain, Store.chainFrom, List.findSome?_cons, own]
  rfl

theorem put_trims {v : Value} (tidy : s.Tidy) (length : s.IsLength o name) (primitive : v.isPrimitive = true) :
    (o.put E name v throw).Quiet c s fun _ t => s.Trims t o := by
  have tries : (o.tryPut E name v throw).Quiet c s fun _ t => s.Trims t o := by
    refine tryPut_quiet (unset_length tidy length) (fun _ _ => .refl length.1) fun d asked => ?_
    refine define_trims tidy length fun u same => ?_
    rw [← Option.some.inj (asked.symm.trans same)]
    exact primitive
  rw [put_eq_tryPut]
  exact .bind tries (fun _ _ post => .pure post) fun _ => id

end ObjectRef

/-- In every store of a session, the names that an object lists are those of its own properties, each of them once. A
request that runs no code to define, assign or delete one of them, in either mode, adds it at the end or takes it out if
it is granted, and does nothing to the list otherwise. For the length of an array nothing but elements goes, and what is
left keeps its order. -/
theorem Machine.own_names_kept (config : Config) (requests : List (Nat × Request))
    (grounded : (new config).Grounded requests) (s : Store) (mem : s ∈ (new config).visited requests) (o : ObjectRef)
    (brief : s.Brief o) :
    ((s.ownKeys o).Nodup ∧ ∀ name, name ∈ s.ownKeys o ↔ (s.getOwn? o name).isSome = true) ∧
      (o.index < s.objects.size → ∀ (E : Engine) c name throw,
        (¬s.IsLength o name →
          (∀ d, (o.define E name d throw).Quiet c s fun r t => s.Sets t o name (r = some true)) ∧
          ∀ v, ObjectRef.Unset s o name → (o.put E name v throw).Quiet c s fun _ t =>
            s.Sets t o name (∃ u, o.put E name v true c s = .value () u)) ∧
        (o.delete name throw).Quiet c s (fun r t => s.Drops t o name (r = some true)) ∧
        (s.IsLength o name →
          (∀ d, (∀ v, d.value = some v → v.isPrimitive = true) →
            (o.define E name d throw).Quiet c s fun _ t => s.Trims t o) ∧
          ∀ v, v.isPrimitive = true → (o.put E name v throw).Quiet c s fun _ t => s.Trims t o)) := by
  obtain ⟨tidy, reserved, ok⟩ := tidy_of_visited config grounded mem
  refine ⟨⟨tidy.nodup_ownKeys brief, fun _ => brief.mem_ownKeys_iff⟩, fun inside E c name throw => ⟨fun other => ?_, ?_,
    fun length => ?_⟩⟩
  · exact ⟨fun _ => ObjectRef.define_keys ok tidy brief inside other, fun _ => ObjectRef.put_keys ok tidy brief inside other⟩
  · exact ObjectRef.delete_keys tidy brief inside
  · exact ⟨fun _ => ObjectRef.define_trims tidy length, fun _ => ObjectRef.put_trims tidy length⟩

/-- An array of two elements gets another property. -/
def Request.labelArray : List (Nat × Request) :=
  [(0, .newArray [.null, .null]), (0, .put ⟨57⟩ "x" .null false)]

/-- The array lists its length, its elements and the other property. A shorter length takes nothing but elements. -/
theorem Machine.own_names_kept_labelled :
    (new .standard).Grounded Request.labelArray ∧
      ((new .standard).served Request.labelArray).store.ownKeys ⟨57⟩ = ["length", "0", "1", "x"] ∧
      (((new .standard).served Request.labelArray).store.ownKeys ⟨57⟩).Nodup ∧
      ((⟨57⟩ : ObjectRef).put (.ofBudget 0) "length" (.ofNat 1) true).Quiet .standard
        ((new .standard).served Request.labelArray).store
        fun _ t => ((new .standard).served Request.labelArray).store.Trims t ⟨57⟩ := by
  have grounded : (new .standard).Grounded Request.labelArray := by
    refine ⟨?_, ?_, trivial⟩
    · exact List.forall_mem_cons.2 ⟨nofun, List.forall_mem_cons.2 ⟨nofun, List.forall_mem_nil _⟩⟩
    · refine List.forall_mem_cons.2 ⟨?_, List.forall_mem_cons.2 ⟨nofun, List.forall_mem_nil _⟩⟩
      rintro o ⟨⟩
      decide +kernel
  have keys : ((new .standard).served Request.labelArray).store.ownKeys ⟨57⟩ = ["length", "0", "1", "x"] := by
    decide +kernel
  have kind : (((new .standard).served Request.labelArray).store.object ⟨57⟩).kind = .array := rfl
  obtain ⟨⟨nodup, _⟩, requests⟩ := own_names_kept .standard Request.labelArray grounded _ (served_mem_visited _) ⟨57⟩
    (Store.brief_of_array kind)
  obtain ⟨_, _, length⟩ := requests (Store.inside_of_array kind) (.ofBudget 0) .standard "length" true
  exact ⟨grounded, keys, nodup, (length ⟨kind, rfl⟩).2 _ rfl⟩

end Ecma
