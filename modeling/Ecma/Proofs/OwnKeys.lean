import Ecma.Proofs.Array.Shape
import Ecma.Proofs.ObjectInvariants
import Ecma.Proofs.Session

/-!
# The names of own properties

An object lists the names of its own properties: first the places of the characters it shows, if it is a string, and then
the names it has stored. The list is right as long as no name is stored twice and no place of a character is stored too.
Both hold of whatever evaluation makes and are kept by every change of a store, since nothing is ever added under a name
that already shows something.
-/

namespace Ecma

/-- The names under which an object of some kind shows what it does not store. -/
def ObjectKind.indices : ObjectKind → List String
  | string t => (List.range t.length).map Index.name
  | _ => []

theorem ObjectKind.Narrows.indices {kind kind' : ObjectKind} (narrows : kind.Narrows kind') :
    kind'.indices = kind.indices := by
  cases narrows with
  | same => rfl
  | detached before =>
    subst before
    rfl

theorem Store.ownKeys_eq (s : Store) (o : ObjectRef) :
    s.ownKeys o = (s.object o).kind.indices ++ (s.object o).properties.keys := by
  unfold ownKeys
  dsimp only
  cases (s.object o).kind with
  | _ => rfl

namespace Object

/-- No name is stored twice, none that shows a character is stored, and an array has a length that stays one. -/
structure Tidy (obj : Object) : Prop where
  nodup : obj.properties.keys.Nodup
  apart : ∀ name ∈ obj.kind.indices, (Index.ofName? name).isSome = true → obj.properties.get? name = none
  length : obj.kind = .array → ∃ v w e, v.IsCount ∧ obj.properties.get? "length" = some (.data v w e false)

variable {obj : Object} {name : String}

theorem mem_keys {p : Property} (stored : obj.properties.get? name = some p) : name ∈ obj.properties.keys :=
  NameMap.contains_iff_mem_keys.1 (Option.isSome_iff_exists.2 ⟨p, stored⟩)

theorem not_mem_keys (absent : obj.properties.get? name = none) : name ∉ obj.properties.keys := by
  rw [← NameMap.contains_iff_mem_keys, NameMap.contains, absent]
  exact Bool.false_ne_true

namespace Tidy

/-- The object gets other properties. -/
theorem modify {obj' : Object} (h : obj.Tidy) (narrows : obj.kind.Narrows obj'.kind)
    (nodup : obj'.properties.keys.Nodup)
    (apart : ∀ name ∈ obj.kind.indices, (Index.ofName? name).isSome = true → obj.properties.get? name = none →
      obj'.properties.get? name = none)
    (length : obj.kind = .array → ∀ v w e, v.IsCount → obj.properties.get? "length" = some (.data v w e false) →
      ∃ v w e, v.IsCount ∧ obj'.properties.get? "length" = some (.data v w e false)) : obj'.Tidy where
  nodup := nodup
  apart name mem index := by
    rw [narrows.indices] at mem
    exact apart name mem index (h.apart name mem index)
  length kind := by
    have before : obj.kind = .array := by
      rw [kind] at narrows
      generalize obj.kind = before at narrows ⊢
      cases narrows
      rfl
    obtain ⟨v, w, e, counts, stored⟩ := h.length before
    exact length before v w e counts stored

/-- A property gets into its place. A new name is none that shows a character, and the length of an array stays one. -/
theorem withProperty {p : Property} (h : obj.Tidy)
    (apart : name ∈ obj.kind.indices → (Index.ofName? name).isSome = true → obj.properties.get? name ≠ none)
    (length : obj.kind = .array → name = "length" → ∃ v w e, v.IsCount ∧ p = .data v w e false) :
    (obj.withProperty name p).Tidy := by
  refine h.modify .same ?_ (fun other mem index absent => ?_) fun kind v w e counts stored => ?_
  · exact NameMap.nodup_keys_insert h.nodup name p
  · rw [Object.withProperty, NameMap.get?_insert, if_neg, absent]
    rintro rfl
    exact apart mem index absent
  · rw [Object.withProperty, NameMap.get?_insert]
    by_cases same : name = "length"
    · obtain ⟨v, w, e, counts, rfl⟩ := length kind same
      exact ⟨v, w, e, counts, if_pos same.symm⟩
    · exact ⟨v, w, e, counts, (if_neg (Ne.symm same)).trans stored⟩

theorem detached (h : obj.Tidy) (name : String) : (obj.detached name).Tidy := by
  refine h.modify (narrows_detached obj name) ?_ ?_ ?_ <;> rw [properties_detached]
  · exact h.nodup
  · exact fun _ _ _ => id
  · exact fun _ v w e counts stored => ⟨v, w, e, counts, stored⟩

/-- A property goes. It is not the length of an array. -/
theorem without (h : obj.Tidy) (other : obj.kind = .array → name ≠ "length") : (obj.without name).Tidy := by
  have properties : (obj.without name).properties = obj.properties.erase name := properties_detached
  refine h.modify (narrows_without obj name) ?_ ?_ ?_ <;> rw [properties]
  · rw [NameMap.keys_erase]
    exact h.nodup.filter _
  · intro key _ _ absent
    rw [NameMap.get?_erase, absent]
    split <;> rfl
  · intro kind v w e counts stored
    exact ⟨v, w, e, counts, by rw [NameMap.get?_erase, if_neg (other kind).symm, stored]⟩

theorem closed (h : obj.Tidy) : obj.closed.Tidy := ⟨h.nodup, h.apart, h.length⟩

end Tidy

/-- The elements of a list stand under different names. -/
theorem names_elements (values : List Value) :
    (elements values).map (·.1) = (List.range values.length).map Index.name := by
  have second : values.zipIdx.map Prod.snd = List.range values.length := by
    rw [List.zipIdx_map_snd, List.range_eq_range']
  rw [← second, elements, List.map_map, List.map_map]
  rfl

theorem nodup_indices (n : Nat) : ((List.range n).map Index.name).Nodup :=
  List.pairwise_map.2 (List.nodup_range.imp fun apart same => apart (Index.name_injective same))

/-- Words before and after the places of a list. -/
theorem nodup_around_indices (n : Nat) (before after : List String) (apart : (before ++ after).Nodup)
    (words : ∀ name ∈ before ++ after, name.toList.all Char.isDigit = false) :
    (before ++ (List.range n).map Index.name ++ after).Nodup := by
  have moved : (before ++ (List.range n).map Index.name ++ after).Perm
      ((List.range n).map Index.name ++ (before ++ after)) := by
    rw [← List.append_assoc]
    exact List.perm_append_comm.append_right after
  rw [moved.nodup_iff]
  refine List.nodup_append.2 ⟨nodup_indices n, apart, ?_⟩
  rintro a index b word rfl
  obtain ⟨i, _, rfl⟩ := List.mem_map.1 index
  have digits := words _ word
  rw [Index.all_isDigit_name] at digits
  cases digits

/-- Objects without characters that are no arrays. -/
theorem tidy_fresh {prototype : Option ObjectRef} {className : ClassName} {kind : ObjectKind}
    {entries : List (String × Property)} (nodup : (entries.map (·.1)).Nodup) (plain : kind.indices = [])
    (other : kind ≠ .array) : (Object.fresh prototype className kind entries).Tidy where
  nodup := nodup
  apart name mem := by
    have none : name ∈ kind.indices := mem
    rw [plain] at none
    cases none
  length kind := absurd kind other

theorem tidy_array (values : List Value) : (Object.array values).Tidy := by
  refine ⟨?_, nofun, fun _ => ⟨_, _, _, .counted values.length, rfl⟩⟩
  have places := nodup_around_indices values.length ["length"] [] (by decide) (by decide)
  rw [List.append_nil, ← names_elements] at places
  exact places

/-- The length of a text is no place in it. -/
theorem tidy_string (t : Text) : (Object.string t).Tidy := by
  refine ⟨List.pairwise_singleton .., fun name _ index => ?_, nofun⟩
  refine List.lookup_eq_none_iff.2 (List.forall_mem_cons.2 ⟨?_, List.forall_mem_nil _⟩)
  rw [bne_iff_ne]
  rintro rfl
  have noIndex : Index.ofName? "length" = none := by decide
  rw [noIndex] at index
  cases index

theorem tidy_arguments (callee : ObjectRef) (params : List String) (args : List Value) (e : ScopeRef) (strict : Bool) :
    (Object.arguments callee params args e strict).Tidy := by
  cases strict with
  | true =>
    refine tidy_fresh ?_ rfl nofun
    rw [List.map_append, List.map_cons, names_elements]
    exact nodup_around_indices args.length ["length"] ["caller", "callee"] (by decide) (by decide)
  | false =>
    refine tidy_fresh ?_ rfl nofun
    rw [List.map_append, List.map_cons, names_elements]
    exact nodup_around_indices args.length ["length"] ["callee"] (by decide) (by decide)

theorem tidy_function (code : FunctionCode) (e : ScopeRef) (strict : Bool) (prototype : ObjectRef) :
    (Object.function code e strict prototype).Tidy := by
  cases strict with
  | true => exact tidy_fresh (by simp) rfl nofun
  | false => exact tidy_fresh (by simp) rfl nofun

theorem tidy_instancePrototype (code : FunctionCode) (f : ObjectRef) : (instancePrototype code f).Tidy := by
  unfold instancePrototype
  split
  · exact tidy_fresh .nil rfl nofun
  · exact tidy_fresh (by simp) rfl nofun

theorem tidy_of_makes {V : Terms} {w : V.World} (made : Makes V w obj) : obj.Tidy := by
  cases made with
  | array => exact tidy_array _
  | string t => exact tidy_string t
  | arguments => exact tidy_arguments ..
  | error message =>
    refine tidy_fresh ?_ rfl nofun
    cases message with
    | none => exact .nil
    | some t => exact List.pairwise_singleton ..
  | @description p =>
    refine tidy_fresh ?_ rfl nofun
    split
    · simp
    · simp
  | iteratorResult => exact tidy_fresh (by simp) rfl nofun
  | _ => exact tidy_fresh .nil rfl nofun

end Object

theorem Intrinsic.tidy_toObject (i : Intrinsic) : i.toObject.Tidy := by
  cases i with
  | arrayPrototype => exact ⟨by decide, nofun, fun _ => ⟨_, _, _, .counted 0, rfl⟩⟩
  | errorPrototype kind => cases kind <;> exact Object.tidy_fresh (by decide) rfl nofun
  | throwTypeError =>
    have native : (Native.throwTypeError.toObject []).Tidy := Object.tidy_fresh (by decide) rfl nofun
    exact native.closed
  | _ => exact Object.tidy_fresh (by decide) rfl nofun

theorem Native.tidy_toObject (n : Native) : (n.toObject n.statics).Tidy := by
  cases n with
  | object => exact Object.tidy_fresh (by decide) rfl nofun
  | error kind => exact Object.tidy_fresh (by simp [statics]) rfl nofun
  | _ => exact Object.tidy_fresh (by decide) rfl nofun

namespace Store

variable {s t : Store} {o : ObjectRef} {name : String}

/-- All objects of a store are tidy. -/
def Tidy (s : Store) : Prop := ∀ o, (s.object o).Tidy

theorem tidy_initial : initial.Tidy := by
  intro o
  cases found : initial.objects[o.index]? with
  | none =>
    rw [object, found]
    refine Object.tidy_fresh .nil rfl ?_
    intro array
    cases array
  | some obj =>
    rw [object, found, Option.getD_some]
    have mem : obj ∈ Intrinsic.all.map Intrinsic.toObject ++ Native.installed.map fun n => n.toObject n.statics :=
      List.mem_of_getElem? (List.getElem?_toArray .. ▸ found)
    rcases List.mem_append.1 mem with mem | mem
    · obtain ⟨i, _, rfl⟩ := List.mem_map.1 mem
      exact i.tidy_toObject
    · obtain ⟨n, _, rfl⟩ := List.mem_map.1 mem
      exact n.tidy_toObject

/-- A name that shows a character shows something. -/
theorem getOwn?_of_mem_indices (shown : name ∈ (s.object o).kind.indices) (index : (Index.ofName? name).isSome = true) :
    s.getOwn? o name ≠ none := by
  intro absent
  rw [getOwn?_of_get?_eq_none (get?_eq_none_of_getOwn? absent), characters] at absent
  cases kind : (s.object o).kind with
  | string t =>
    rw [kind] at shown absent
    obtain ⟨i, inside, rfl⟩ := List.mem_map.1 shown
    obtain ⟨j, read⟩ := Option.isSome_iff_exists.1 index
    obtain rfl : j = i := Index.name_injective (Index.name_of_ofName? read).1
    have inside := List.mem_range.1 inside
    simp [character?, read, List.getElem?_eq_getElem inside] at absent
  | _ =>
    rw [kind] at shown
    cases shown

/-- What an object has not is put under a name that shows nothing. -/
theorem Tidy.addProperty (h : s.Tidy) (absent : s.getOwn? o name = none) (p : Property) :
    ((s.object o).withProperty name p).Tidy := by
  refine (h o).withProperty (fun shown index _ => getOwn?_of_mem_indices shown index absent) fun kind same => ?_
  obtain ⟨v, w, e, _, stored⟩ := (h o).length kind
  rw [getOwn?_array kind, same, stored] at absent
  cases absent

/-- What an object has gets another property in its place. -/
theorem Tidy.changeProperty {p q : Property} {d : Descriptor} (h : s.Tidy) (present : s.getOwn? o name = some p)
    (granted : p.redefine d name = .changed q) (unmixed : d.isMixed = false) (length : s.KeepsLength o name d) :
    ((s.object o).withProperty name q).Tidy := by
  obtain ⟨p', stored⟩ := stored_of_changed present granted unmixed
  refine (h o).withProperty (fun _ _ absent => ?_) fun kind same => ?_
  · cases stored.symm.trans absent
  · subst same
    obtain ⟨v, w, e, counts, fixed⟩ := (h o).length kind
    rw [getOwn?_array kind, fixed] at present
    cases present
    obtain ⟨_, _, before, rfl⟩ := Property.fixed_changed granted (.data ..) unmixed rfl
    cases before
    refine ⟨_, _, _, ?_, rfl⟩
    cases asked : d.value with
    | none => exact counts
    | some v => exact length kind rfl v asked

theorem Tidy.modifyObject {f : Object → Object} (h : s.Tidy) (tidy : (f (s.object o)).Tidy) :
    (s.modifyObject o f).Tidy := by
  intro other
  rcases object_modifyObject_cases s o f other with same | ⟨rfl, _, new⟩
  · rw [same]
    exact h other
  · rw [new]
    exact tidy

theorem Tidy.of_objects (h : s.Tidy) (objects : t.objects = s.objects) : t.Tidy := by
  intro o
  rw [object, objects]
  exact h o

theorem Tidy.change {V : Terms} {w : V.World} {F : Store → Store} (h : (V.left w).Tidy) (made : Change V w F) :
    (F (V.left w)).Tidy := by
  cases made with
  | addObject made =>
    intro o
    rw [object_addObject]
    split
    · exact Object.tidy_of_makes made
    · exact h o
  | addFunction =>
    intro o
    rw [object_addFunction]
    split
    · exact Object.tidy_instancePrototype ..
    · split
      · exact Object.tidy_function ..
      · exact h o
  | addProperty absent => exact h.modifyObject (h.addProperty absent _)
  | changeProperty present granted _ unmixed _ length =>
    exact h.modifyObject (h.changeProperty present granted unmixed length)
  | @changeAliased o m name parameter d p change bindings b kind aliased present granted _ unmixed =>
    have first : ((change.map (((V.left w).object o).withProperty name)).getD ((V.left w).object o)).Tidy := by
      cases change with
      | none => exact h o
      | some q => exact h.changeProperty present granted unmixed (.of_kind (by simp [kind]))
    have redefined : (((V.left w).object o).redefined name d change).Tidy := by
      unfold Object.redefined
      split
      · exact first.detached name
      · exact first
    have whole : ((V.left w).modifyObject o (·.redefined name d change)).Tidy := h.modifyObject redefined
    rw [defineAliased_eq]
    dsimp only
    split
    · exact whole
    · cases d.value with
      | none => exact whole
      | some v => exact whole.of_objects rfl
  | @deleteProperty o name p present configurable =>
    refine h.modifyObject ((h o).without fun kind same => ?_)
    obtain ⟨v, w, e, _, fixed⟩ := (h o).length kind
    rw [getOwn?_array kind, same, fixed] at present
    cases present
    cases configurable
  | close o => exact h.modifyObject (h o).closed
  | addScope => exact h.of_objects rfl
  | declare => exact h.of_objects rfl
  | declareImmutable => exact h.of_objects rfl
  | assign => exact h.of_objects rfl
  | settle => exact h.of_objects rfl
  | undeclare => exact h.of_objects rfl
  | addGenerator => exact h.of_objects rfl
  | steer => exact h.of_objects rfl
  | enter => exact h.of_objects rfl
  | leave => exact h.of_objects rfl
  | shift => exact h.of_objects (objects_setLexical ..)

/-- All characters of a string have indices for names. -/
def Brief (s : Store) (o : ObjectRef) : Prop := ∀ t, (s.object o).kind = .string t → t.length ≤ 4294967296

theorem brief_of_array (kind : (s.object o).kind = .array) : s.Brief o := by
  intro t string
  cases kind.symm.trans string

theorem Brief.isSome_ofName? (brief : s.Brief o) (shown : name ∈ (s.object o).kind.indices) :
    (Index.ofName? name).isSome = true := by
  cases kind : (s.object o).kind with
  | string t =>
    rw [kind] at shown
    obtain ⟨i, inside, rfl⟩ := List.mem_map.1 shown
    rw [Index.ofName?_name (Nat.lt_of_lt_of_le (List.mem_range.1 inside) (brief t kind))]
    rfl
  | _ =>
    rw [kind] at shown
    cases shown

/-- A character that is shown is at one of the places of the text. -/
theorem mem_indices_of_characters {p : Property} (shown : characters (s.object o) name = some p) :
    name ∈ (s.object o).kind.indices := by
  unfold characters at shown
  cases kind : (s.object o).kind with
  | string t =>
    rw [kind] at shown
    obtain ⟨i, read, there⟩ := Option.bind_eq_some_iff.1 shown
    obtain ⟨c, found, _⟩ := Option.map_eq_some_iff.1 there
    rw [← (Index.name_of_ofName? read).1]
    exact List.mem_map_of_mem (List.mem_range.2 (List.getElem?_eq_some_iff.1 found).1)
  | _ =>
    rw [kind] at shown
    cases shown

/-- What an object has it lists. -/
theorem mem_ownKeys_of_getOwn? {p : Property} (present : s.getOwn? o name = some p) : name ∈ s.ownKeys o := by
  rw [ownKeys_eq, List.mem_append]
  cases stored : (s.object o).properties.get? name with
  | some q => exact .inr (Object.mem_keys stored)
  | none =>
    rw [getOwn?_of_get?_eq_none stored] at present
    exact .inl (mem_indices_of_characters present)

/-- What an object lists it has, unless the name is a place in a text and too great for an index. -/
theorem mem_ownKeys_iff (index : name ∈ (s.object o).kind.indices → (Index.ofName? name).isSome = true) :
    name ∈ s.ownKeys o ↔ (s.getOwn? o name).isSome = true := by
  rw [Option.isSome_iff_exists]
  refine ⟨fun listed => ?_, fun ⟨p, present⟩ => mem_ownKeys_of_getOwn? present⟩
  rw [ownKeys_eq, List.mem_append] at listed
  rw [← Option.isSome_iff_exists, Option.isSome_iff_ne_none]
  rcases listed with shown | key
  · exact getOwn?_of_mem_indices shown (index shown)
  · intro absent
    exact Object.not_mem_keys (get?_eq_none_of_getOwn? absent) key

theorem Brief.mem_ownKeys_iff (brief : s.Brief o) : name ∈ s.ownKeys o ↔ (s.getOwn? o name).isSome = true :=
  Store.mem_ownKeys_iff brief.isSome_ofName?

/-- What can be deleted is stored: the characters of a string cannot. -/
theorem stored_of_configurable {p : Property} (present : s.getOwn? o name = some p) (configurable : p.configurable = true) :
    ∃ q, (s.object o).properties.get? name = some q := by
  cases stored : (s.object o).properties.get? name with
  | some q => exact ⟨q, rfl⟩
  | none =>
    rw [getOwn?_of_get?_eq_none stored] at present
    obtain ⟨u, rfl⟩ := characters_eq_some present
    cases configurable

namespace Tidy

theorem not_mem_indices (h : s.Tidy) (brief : s.Brief o) {p : Property}
    (stored : (s.object o).properties.get? name = some p) : name ∉ (s.object o).kind.indices := by
  intro shown
  cases stored.symm.trans ((h o).apart name shown (brief.isSome_ofName? shown))

theorem nodup_ownKeys (h : s.Tidy) (brief : s.Brief o) : (s.ownKeys o).Nodup := by
  have indices : (s.object o).kind.indices.Nodup := by
    cases (s.object o).kind with
    | string t => exact Object.nodup_indices _
    | _ => exact .nil
  rw [ownKeys_eq]
  refine List.nodup_append.2 ⟨indices, (h o).nodup, ?_⟩
  rintro a shown b key rfl
  exact Object.not_mem_keys ((h o).apart a shown (brief.isSome_ofName? shown)) key

end Tidy

end Store

theorem World.Steps.tidy {w u : World} (steps : w.Steps u) (h : w.store.Tidy) : u.store.Tidy := by
  induction steps with
  | refl => exact h
  | step _ last ih =>
    rw [last.store]
    exact Store.Tidy.change (V := World.terms) ih last.made

/-- Every store of a session is well formed and tidy. -/
theorem Machine.tidy_of_visited (config : Config) {requests : List (Nat × Request)}
    (grounded : (new config).Grounded requests) {s : Store} (mem : s ∈ (new config).visited requests) :
    s.Tidy ∧ ∃ reserved, s.WellFormed reserved := by
  obtain ⟨w, steps, rfl⟩ := Machine.exists_world_of_visited config grounded mem
  exact ⟨steps.tidy Store.tidy_initial, w.reserved, w.ok⟩

end Ecma
