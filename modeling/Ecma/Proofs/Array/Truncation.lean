import Ecma.Proofs.Array.Length
import Ecma.Proofs.KeyOrder
import Ecma.Proofs.Number.Integer
import Ecma.Proofs.Reconciliation

/-!
# What is left of an array that gets shorter

An array that gets shorter loses elements, the last one first, and stops right after an element that cannot be deleted.
`Cut` says which names are left, that they stand in the order in which they stood, and that nothing else of the store is
different but the length. Each part of the request has one lemma on what it cuts: setting the length cuts nothing, a
deletion cuts one name, and the deletions one after the other cut the elements beyond the last one that is pinned.
-/

namespace Ecma

/-! ## Cuts -/

/-- A name that is not that of an element at or beyond a bound. -/
def Index.below (bound : Nat) (name : String) : Bool := (element? name).all (· < bound)

theorem Index.below_iff {bound : Nat} {name : String} :
    below bound name = true ↔ ∀ i < 4294967295, Index.name i = name → i < bound := by
  have named (i : Nat) : (i < 4294967295 ∧ Index.name i = name) ↔ element? name = some i :=
    and_comm.trans element?_eq_some_iff.symm
  simp only [below, Option.all_eq_true, ← named, decide_eq_true_eq, and_imp]

namespace Store

/-- An element that cannot be deleted. -/
def Pinned (s : Store) (o : ObjectRef) (i : Nat) : Prop :=
  i < 4294967295 ∧ ∃ p, s.getOwn? o (Index.name i) = some p ∧ p.configurable = false

/-- What is left of an array: it has lost the names that were not to be kept, and its length may be another one. Nothing
else is different, in the array or outside of it. -/
structure Cut (s t : Store) (o : ObjectRef) (keeps : String → Bool) (length : Property) : Prop extends
    s.SameOutside t o where
  length : t.getOwn? o "length" = some length
  keys : t.ownKeys o = (s.ownKeys o).filter keeps
  kept : ∀ name ∈ t.ownKeys o, name ≠ "length" → t.getOwn? o name = s.getOwn? o name

variable {s t u : Store} {o : ObjectRef} {name : String} {keeps keeps' : String → Bool} {p p' : Property}

theorem mem_ownKeys_array (kind : (s.object o).kind = .array) :
    name ∈ s.ownKeys o ↔ (s.getOwn? o name).isSome = true := (brief_of_array kind).mem_ownKeys_iff

namespace Cut

theorem refl (length : s.getOwn? o "length" = some p) : s.Cut s o (fun _ => true) p where
  toSameOutside := .refl s o
  length := length
  keys := by simp
  kept _ _ _ := rfl

theorem trans (first : s.Cut t o keeps p) (second : t.Cut u o keeps' p') :
    s.Cut u o (fun name => keeps name && keeps' name) p' where
  toSameOutside := first.toSameOutside.trans second.toSameOutside
  length := second.length
  keys := by
    rw [second.keys, first.keys, List.filter_filter]
    simp only [Bool.and_comm]
  kept name mem other := by
    have before : name ∈ t.ownKeys o := by
      rw [second.keys] at mem
      exact List.mem_of_mem_filter mem
    rw [second.kept name mem other, first.kept name before other]

theorem congr (h : s.Cut t o keeps p) (same : ∀ name ∈ s.ownKeys o, keeps name = keeps' name) :
    s.Cut t o keeps' p where
  toSameOutside := h.toSameOutside
  length := h.length
  keys := by
    rw [h.keys]
    exact List.filter_congr same
  kept := h.kept

/-- The length is set once more. -/
theorem resized (first : s.Cut t o keeps p) (second : t.Cut u o (fun _ => true) p') : s.Cut u o keeps p' :=
  (first.trans second).congr fun _ _ => Bool.and_true _

/-- An element that cannot be deleted stays so as long as it is kept, and no other becomes so. -/
theorem pinned_iff (h : s.Cut t o keeps p) (kind : (s.object o).kind = .array) {i : Nat} :
    t.Pinned o i ↔ s.Pinned o i ∧ keeps (Index.name i) = true := by
  have mem : Index.name i ∈ t.ownKeys o ↔ Index.name i ∈ s.ownKeys o ∧ keeps (Index.name i) = true := by
    rw [h.keys, List.mem_filter]
  constructor
  · rintro ⟨small, p, shown, fixed⟩
    have there : Index.name i ∈ t.ownKeys o := by
      rw [mem_ownKeys_array (h.kind.trans kind), shown]
      rfl
    rw [h.kept _ there (Index.name_ne_length small)] at shown
    exact ⟨⟨small, p, shown, fixed⟩, (mem.1 there).2⟩
  · rintro ⟨⟨small, p, shown, fixed⟩, keep⟩
    have there : Index.name i ∈ t.ownKeys o := by
      apply mem.2
      rw [mem_ownKeys_array kind, shown]
      exact ⟨rfl, keep⟩
    refine ⟨small, p, ?_, fixed⟩
    rw [h.kept _ there (Index.name_ne_length small), shown]

theorem spans {n bound : Nat} {w : Bool} (h : s.Cut t o (Index.below bound) (.data (.ofNat n) w false false))
    (kind : (s.object o).kind = .array) (small : n < 4294967296) : t.Spans o n w bound where
  kind := h.kind.trans kind
  small := small
  length := h.length
  elements i index mem := by
    rw [h.keys] at mem
    exact Index.below_iff.1 (List.mem_filter.1 mem).2 i index rfl

end Cut

/-- A length that is stored leaves all else of an array as it was. -/
theorem cut_withLength (kind : (s.object o).kind = .array) (there : s.getOwn? o "length" = some p) (q : Property) :
    s.Cut (s.modifyObject o (·.withProperty "length" q)) o (fun _ => true) q := by
  have new := object_modifyObject s (·.withProperty "length" q) (inside_of_array kind)
  have kind' : ((s.modifyObject o (·.withProperty "length" q)).object o).kind = .array := by
    rw [new]
    exact kind
  have known : "length" ∈ (s.object o).properties.keys := by
    rw [← ownKeys_array kind, mem_ownKeys_array kind, there]
    rfl
  refine ⟨.modifyObject rfl, ?_, ?_, fun name _ other => ?_⟩
  · rw [getOwn?_array kind', new, Object.withProperty, NameMap.get?_insert, if_pos rfl]
  · rw [ownKeys_array kind', new, Object.withProperty, NameMap.keys_insert, if_pos known, ownKeys_array kind]
    simp
  · rw [getOwn?_array kind', new, Object.withProperty, NameMap.get?_insert, if_neg other, getOwn?_array kind]

/-- The last of the elements from an index on that cannot be deleted, if there is one. -/
structure Stops (s : Store) (o : ObjectRef) (start : Nat) (stop : Option Nat) : Prop where
  pinned : ∀ m, stop = some m → start ≤ m ∧ s.Pinned o m
  last : ∀ i, start ≤ i → s.Pinned o i → ∃ m, stop = some m ∧ i ≤ m

/-- Beyond the last one, no element is one that cannot be deleted. -/
theorem Stops.not_pinned {start i : Nat} {stop : Option Nat} (h : s.Stops o start stop)
    (beyond : stop.elim start (· + 1) ≤ i) : ¬s.Pinned o i := by
  intro pinned
  cases stop with
  | none =>
    obtain ⟨m, same, _⟩ := h.last i beyond pinned
    cases same
  | some m =>
    have later : m + 1 ≤ i := beyond
    have from_start := (h.pinned m rfl).1
    obtain ⟨_, same, last⟩ := h.last i (by omega) pinned
    cases same
    omega

theorem Stops.of_cut {start : Nat} {stop : Option Nat} (h : s.Stops o start stop) (cut : s.Cut t o (fun _ => true) p)
    (kind : (s.object o).kind = .array) : t.Stops o start stop := by
  have same (i : Nat) : t.Pinned o i ↔ s.Pinned o i := by simp [cut.pinned_iff kind]
  exact ⟨fun m stops => (h.pinned m stops).imp_right (same m).2, fun i le pinned => h.last i le ((same i).1 pinned)⟩

end Store

namespace ObjectRef

variable {s t : Store} {o : ObjectRef} {name : String} {d : Descriptor} {r : Option Bool} {p : Property}
  {n k bound start : Nat} {stop : Option Nat}

/-! ## Deletions -/

/-- An element is deleted unless it cannot be. -/
theorem Deletes.done_iff {i : Nat} {done : Bool} (h : Deletes s o (Index.name i) done t) (small : i < 4294967295) :
    done = true ↔ ¬s.Pinned o i := by
  cases h with
  | missing absent => simp [Store.Pinned, absent]
  | deleted present configurable => simp [Store.Pinned, present, configurable]
  | kept present fixed => simp [Store.Pinned, present, fixed, small]

/-- An element that is deleted leaves all else of an array as it was. -/
theorem Deletes.cut {i : Nat} (h : Deletes s o (Index.name i) true t) (small : i < 4294967295)
    (kind : (s.object o).kind = .array) (length : s.getOwn? o "length" = some p) :
    s.Cut t o (fun name => decide (name ≠ Index.name i)) p := by
  cases h with
  | missing absent =>
    refine (Store.Cut.refl length).congr fun name mem => ?_
    have other : name ≠ Index.name i := by
      rintro rfl
      rw [Store.mem_ownKeys_array kind, absent] at mem
      cases mem
    simp [other]
  | deleted present configurable =>
    have new := Store.object_modifyObject s (·.without (Index.name i)) (Store.inside_of_array kind)
    have erased := Object.without_array (Index.name i) kind
    have keys := Store.ownKeys_without kind (Index.name i)
    have same (name : String) (other : name ≠ Index.name i) :
        (s.modifyObject o (·.without (Index.name i))).getOwn? o name = s.getOwn? o name := by
      rw [Store.getOwn?_array (by rw [new, erased]; exact kind), new, erased, NameMap.get?_erase, if_neg other,
        Store.getOwn?_array kind]
    refine ⟨.modifyObject erased, ?_, keys, fun name mem _ => same name ?_⟩
    · rw [same "length" (Index.name_ne_length small).symm, length]
    · rw [keys] at mem
      exact of_decide_eq_true (List.mem_filter.1 mem).2

/-- Elements that can be deleted are deleted one after the other. -/
theorem deleteElements_append {indices : List Nat} (c : Config) (kind : (s.object o).kind = .array)
    (length : s.getOwn? o "length" = some p) (small : ∀ i ∈ indices, i < 4294967295)
    (free : ∀ i ∈ indices, ¬s.Pinned o i) :
    ∃ t, (∀ rest, o.deleteElements (indices ++ rest) c s = o.deleteElements rest c t) ∧
      s.Cut t o (fun name => decide (name ∉ indices.map Index.name)) p := by
  induction indices generalizing s with
  | nil =>
    refine ⟨s, fun _ => rfl, (Store.Cut.refl length).congr ?_⟩
    simp
  | cons i indices ih =>
    obtain ⟨small_i, small⟩ := List.forall_mem_cons.1 small
    obtain ⟨free_i, free⟩ := List.forall_mem_cons.1 free
    obtain ⟨done, t, deletes, run⟩ := delete_run s o (Index.name i) c
    obtain rfl : done = true := (deletes.done_iff small_i).2 free_i
    have cut := deletes.cut small_i kind length
    have free' (j : Nat) (mem : j ∈ indices) : ¬t.Pinned o j := fun pinned =>
      free j mem ((cut.pinned_iff kind).1 pinned).1
    obtain ⟨u, rest, cut'⟩ := ih (cut.kind.trans kind) cut.length small free'
    refine ⟨u, fun more => ?_, (cut.trans cut').congr fun name _ => ?_⟩
    · rw [List.cons_append, deleteElements, Action.bind_apply, run]
      exact rest more
    · simp

theorem exists_append_of_descending {indices : List Nat} (ordered : indices.Pairwise (· ≥ ·)) (limit : Nat) :
    ∃ beyond rest, indices = beyond ++ rest ∧ (∀ i ∈ beyond, limit ≤ i) ∧ ∀ i ∈ rest, i < limit := by
  induction ordered with
  | nil => exact ⟨[], [], rfl, by simp, by simp⟩
  | @cons first indices least _ ih =>
    by_cases beyond : limit ≤ first
    · obtain ⟨others, rest, rfl, above, below⟩ := ih
      exact ⟨first :: others, rest, rfl, List.forall_mem_cons.2 ⟨beyond, above⟩, below⟩
    · refine ⟨[], first :: indices, rfl, by simp, List.forall_mem_cons.2 ⟨by omega, fun i mem => ?_⟩⟩
      have le := least i mem
      omega

theorem head?_of_descending {indices : List Nat} {m : Nat} (ordered : indices.Pairwise (· ≥ ·)) (mem : m ∈ indices)
    (greatest : ∀ i ∈ indices, i ≤ m) : indices.head? = some m := by
  cases ordered with
  | nil => cases mem
  | @cons first indices least _ =>
    have le := greatest first (List.mem_cons_self ..)
    rcases List.mem_cons.1 mem with rfl | mem
    · rfl
    · have ge := least m mem
      rw [List.head?_cons, Option.some_inj]
      omega

/-- The elements beyond the last one that cannot be deleted come first, and that one is next. -/
theorem elementsFrom_split (kind : (s.object o).kind = .array) (stops : s.Stops o start stop) :
    ∃ beyond rest, o.elementsFrom s start = beyond ++ rest ∧ rest.head? = stop ∧
      ∀ i, i ∈ beyond ↔ stop.elim start (· + 1) ≤ i ∧ i < 4294967295 ∧ Index.name i ∈ s.ownKeys o := by
  obtain ⟨ordered, elements⟩ := elementsFrom_spec s o start
  generalize o.elementsFrom s start = found at ordered elements
  generalize bounded : stop.elim start (· + 1) = limit
  have from_start : start ≤ limit := by
    cases stop with
    | none => exact bounded.le
    | some m => exact bounded ▸ Nat.le_succ_of_le (stops.pinned m rfl).1
  -- whatever is found below the limit was asked for all the same, so it can only be the element that stops
  obtain ⟨beyond, rest, rfl, above, below⟩ := exists_append_of_descending ordered limit
  refine ⟨beyond, rest, rfl, ?_, fun i => ⟨fun mem => ?_, fun there => ?_⟩⟩
  · cases stop with
    | none =>
      rw [List.head?_eq_none_iff, List.eq_nil_iff_forall_not_mem]
      intro i mem
      have le := ((elements i).1 (List.mem_append_right _ mem)).1
      have lt := below i mem
      rw [← bounded, Option.elim_none] at lt
      omega
    | some m =>
      rw [Option.elim_some] at bounded
      obtain ⟨le, small, p, shown, _⟩ := stops.pinned m rfl
      have mem : m ∈ beyond ++ rest := by
        rw [elements, Store.mem_ownKeys_array kind, shown]
        exact ⟨le, small, rfl⟩
      have later : m ∈ rest := by
        apply (List.mem_append.1 mem).resolve_left
        intro mem
        have le := above m mem
        omega
      apply head?_of_descending (List.pairwise_append.1 ordered).2.1 later
      intro i mem
      have lt := below i mem
      omega
  · exact ⟨above i mem, ((elements i).1 (List.mem_append_left _ mem)).2⟩
  · have mem := (elements i).2 ⟨Nat.le_trans from_start there.1, there.2⟩
    apply (List.mem_append.1 mem).resolve_right
    intro mem
    have lt := below i mem
    omega

/-- An element that cannot be deleted ends the deletions. -/
theorem deleteElements_stopped {rest : List Nat} (c : Config) (pinned : ∀ i, rest.head? = some i → s.Pinned o i) :
    o.deleteElements rest c s = .value rest.head? s := by
  cases rest with
  | nil => rfl
  | cons i rest =>
    have fixed := pinned i rfl
    obtain ⟨done, t, deletes, run⟩ := delete_run s o (Index.name i) c
    have refused : done = false := by
      rw [← Bool.not_eq_true, deletes.done_iff fixed.1, not_not]
      exact fixed
    subst refused
    rw [deleteElements, Action.bind_apply, run]
    cases deletes
    rfl

/-- All elements from an index on are deleted that come after the last one that cannot be. -/
theorem deleteElementsFrom_run (c : Config) (kind : (s.object o).kind = .array) (length : s.getOwn? o "length" = some p)
    (stops : s.Stops o start stop) :
    ∃ t, o.deleteElements (o.elementsFrom s start) c s = .value stop t ∧
      s.Cut t o (Index.below (stop.elim start (· + 1))) p := by
  obtain ⟨beyond, rest, split, next, elements⟩ := elementsFrom_split kind stops
  have small (i : Nat) (mem : i ∈ beyond) : i < 4294967295 := ((elements i).1 mem).2.1
  have free (i : Nat) (mem : i ∈ beyond) : ¬s.Pinned o i := stops.not_pinned ((elements i).1 mem).1
  obtain ⟨t, run, cut⟩ := deleteElements_append c kind length small free
  have cut : s.Cut t o (Index.below (stop.elim start (· + 1))) p := by
    refine cut.congr fun name mem => ?_
    rw [Bool.eq_iff_iff, decide_eq_true_iff, Index.below_iff]
    constructor
    · rintro kept i small rfl
      apply Nat.lt_of_not_le
      intro le
      exact kept (List.mem_map_of_mem ((elements i).2 ⟨le, small, mem⟩))
    · intro below deleted
      obtain ⟨i, element, rfl⟩ := List.mem_map.1 deleted
      obtain ⟨le, small, _⟩ := (elements i).1 element
      have lt := below i small rfl
      omega
  refine ⟨t, ?_, cut⟩
  rw [split, run, deleteElements_stopped c, next]
  intro m same
  rw [next] at same
  subst same
  rw [cut.pinned_iff kind, Index.below_iff]
  refine ⟨(stops.pinned m rfl).2, fun i _ same => ?_⟩
  rw [Index.name_injective same]
  exact Nat.lt_succ_self m

/-! ## The length -/

/-- A length that is set leaves all else of an array as it was. -/
theorem Defines.cut {v : Value} {w e : Bool} (h : Defines s o "length" d (some true) t)
    (kind : (s.object o).kind = .array) (length : s.getOwn? o "length" = some (.data v w e false))
    (unmixed : d.isMixed = false) :
    s.Cut t o (fun _ => true) (.data (d.value.getD v) (d.writable.getD w) e false) := by
  have there {p : Property} (present : s.getOwn? o "length" = some p) : .data v w e false = p :=
    Option.some.inj (length.symm.trans present)
  cases h with
  | added absent => cases length.symm.trans absent
  | kept present granted =>
    obtain rfl := there present
    obtain ⟨value, writable, _⟩ := Property.kept_data granted
    rw [value, writable]
    exact .refl length
  | changed present granted =>
    obtain rfl := there present
    obtain ⟨_, _, shape, rfl⟩ := Property.fixed_changed granted (.data ..) unmixed rfl
    cases shape
    exact Store.cut_withLength kind length _
  | closed _ _ no => exact absurd rfl no
  | refused _ _ no => exact absurd rfl no

/-- A request for a length that can be granted sets it. -/
theorem defineOrdinary_length (c : Config) (d : Descriptor) (spans : s.Spans o n true bound)
    (data : d.isAccessor = false) (flags : Descriptor.keepsFlag d.configurable (some false) = true ∧
      Descriptor.keepsFlag d.enumerable (some false) = true) :
    ∃ t, o.defineOrdinary "length" d false c s = .value true t ∧
      s.Cut t o (fun _ => true) (.data (d.value.getD (.ofNat n)) (d.writable.getD true) false false) := by
  obtain ⟨granted, t, defines, run, _⟩ := defineOrdinary_run s o "length" d c
  cases (defines.length_granted_iff spans data).2 flags
  exact ⟨t, run, defines.cut spans.kind spans.length (Law.unmixed_of_not_accessor data)⟩

/-- The length is lowered before the elements beyond it are deleted. -/
theorem lower_run {length : Nat} (c : Config) (d : Descriptor) (counts : s.Counts o n true) (shorter : length < n)
    (asked : d.value = some (.ofNat length)) (data : d.isAccessor = false) (writable : d.writable.getD true = true)
    (flags : Descriptor.keepsFlag d.configurable (some false) = true ∧
      Descriptor.keepsFlag d.enumerable (some false) = true) (stops : s.Stops o length stop) :
    ∃ t, s.Cut t o (Index.below (stop.elim length (· + 1))) (.data (.ofNat length) true false false) ∧
      t.Spans o length true (stop.elim length (· + 1)) ∧
      ∀ (next : Option Nat → Action Bool) (refused : Action Bool),
        (do
          if ← o.defineOrdinary "length" d false then
            next (← o.deleteElements (← .read fun s => o.elementsFrom s length))
          else refused : Action Bool) c s = next stop c t := by
  have small : length < 4294967296 := Nat.lt_trans shorter counts.small
  obtain ⟨t, first, lowered⟩ := defineOrdinary_length c d counts data flags
  rw [asked, writable] at lowered
  have kind := lowered.kind.trans counts.kind
  obtain ⟨u, deleted, cut⟩ := deleteElementsFrom_run c kind lowered.length (stops.of_cut lowered counts.kind)
  refine ⟨u, (lowered.trans cut).congr fun _ _ => Bool.true_and _, cut.spans kind small, fun next refused => ?_⟩
  rw [Action.bind_run first, if_pos rfl, Action.read_bind_run, Action.bind_run deleted]

/-- A length that can be written is made shorter, down to right after the last element that cannot be deleted. -/
theorem shorten_run {length : Nat} (c : Config) (d : Descriptor) (counts : s.Counts o n true) (shorter : length < n)
    (asked : d.value = some (.ofNat length)) (data : d.isAccessor = false)
    (flags : Descriptor.keepsFlag d.configurable (some false) = true ∧
      Descriptor.keepsFlag d.enumerable (some false) = true) (stops : s.Stops o length stop) :
    ∃ t, s.Cut t o (Index.below (stop.elim length (· + 1)))
        (.data (.ofNat (stop.elim length (· + 1))) (d.writable != some false) false false) ∧
      ∀ throw, o.shorten length d throw c s =
        (stop.elim (pure true) fun i => .reject throw (.elementNotDeleted i) : Action Bool) c t := by
  unfold shorten
  dsimp only
  by_cases readOnly : d.writable = some false
  · obtain ⟨t, cut, left, run⟩ :=
      lower_run c { d with writable := some true } counts shorter asked data rfl flags stops
    simp only [if_pos readOnly, run]
    rw [readOnly]
    cases stop with
    | none =>
      obtain ⟨u, last, closed⟩ :=
        defineOrdinary_length c { Descriptor.empty with writable := some false } left rfl ⟨rfl, rfl⟩
      refine ⟨u, cut.resized closed, fun throw => ?_⟩
      rw [Action.bind_run last]
      rfl
    | some m =>
      have index := (stops.pinned m rfl).2.1
      obtain ⟨u, last, raised⟩ :=
        defineOrdinary_length c { d with value := some (.ofNat (m + 1)), writable := some false } left data flags
      refine ⟨u, cut.resized raised, fun throw => ?_⟩
      dsimp only
      rw [Number.ofNat_add_one (Nat.lt_succ_of_lt index)]
      exact Action.bind_run last _
  · have writable : d.writable.getD true = true := by
      cases asked : d.writable with
      | none => rfl
      | some w =>
        cases w with
        | true => rfl
        | false => exact absurd asked readOnly
    obtain ⟨t, cut, left, run⟩ := lower_run c d counts shorter asked data writable flags stops
    simp only [if_neg readOnly, run]
    rw [bne_iff_ne.2 readOnly]
    cases stop with
    | none => exact ⟨t, cut, fun _ => rfl⟩
    | some m =>
      have index := (stops.pinned m rfl).2.1
      obtain ⟨u, last, raised⟩ :=
        defineOrdinary_length c { d with value := some (.ofNat (m + 1)) } left data flags
      rw [writable] at raised
      refine ⟨u, cut.resized raised, fun throw => ?_⟩
      dsimp only
      rw [Number.ofNat_add_one (Nat.lt_succ_of_lt index)]
      exact Action.bind_run last _

theorem define_length {E : Engine} {throw : Bool} (c : Config) (kind : (s.object o).kind = .array)
    (unmixed : d.isMixed = false) : o.define E "length" d throw c s = o.defineLength E d throw c s := by
  have checked : d.check c s = .value () s := by
    rw [Descriptor.check, unmixed]
    rfl
  rw [define, Action.bind_run checked, Action.read_bind_run, kind]
  rfl

/-- The value is converted twice, by code of its own if it is an object, before anything is compared. -/
theorem defineLength_run {E : Engine} {throw : Bool} {c : Config} {v : Value} {k : Nat} {x : Float} {s₁ s₂ : Store}
    (asked : d.value = some v) (counted : v.toUint32 E c s = .value k s₁) (number : v.toNumber E c s₁ = .value x s₂) :
    o.defineLength E d throw c s =
      (if Float.ofNat k != x then .fail .invalidLength
        else if k ≥ (o.arrayLength s).1 then o.defineOrdinary "length" { d with value := some (.ofNat k) } throw
        else if (o.arrayLength s).2 then o.shorten k { d with value := some (.ofNat k) } throw
        else .reject throw .readOnlyLength : Action Bool) c s₂ := by
  unfold defineLength
  rw [Action.read_bind_run, asked]
  have sized : Action.sizing o v c s = .value () s := rfl
  dsimp only
  rw [Action.bind_run sized, Action.bind_run counted, Action.bind_run number]

theorem defineLength_invalid {E : Engine} {throw : Bool} {c : Config} {v : Value} {k : Nat} {x : Float} {s₁ s₂ : Store}
    (asked : d.value = some v) (counted : v.toUint32 E c s = .value k s₁) (number : v.toNumber E c s₁ = .value x s₂)
    (other : (Float.ofNat k == x) = false) : o.defineLength E d throw c s = .abrupt (.fault .invalidLength) s₂ := by
  have differs : (Float.ofNat k != x) = true := by rw [bne, other, Bool.not_false]
  rw [defineLength_run asked counted number, if_pos differs]
  rfl

/-- A primitive that is a lesser length makes an array shorter. -/
theorem defineLength_shorter {E : Engine} {length : Nat} {v : Value} (c : Config) (counts : s.Counts o n true)
    (asked : d.value = some v) (primitive : v.isPrimitive = true) (shorter : length < n)
    (same : (v.primitiveNumber == Float.ofNat length) = true) (throw : Bool) :
    o.defineLength E d throw c s = o.shorten length { d with value := some (.ofNat length) } throw c s := by
  obtain ⟨counted, equal⟩ := Number.toUint32_of_beq (Nat.lt_trans shorter counts.small) same
  have agrees : ¬(Float.ofNat length != v.primitiveNumber) = true := by simp [bne, equal]
  rw [defineLength_run asked (Value.toUint32_run primitive c s) (Value.toNumber_run primitive c s), counted,
    if_neg agrees, arrayLength_eq counts, if_neg (Nat.not_le_of_lt shorter), if_pos rfl]

end ObjectRef

/-- A request for a length, which may also say whether it can be written. -/
def Descriptor.ofLength (v : Value) (writable : Option Bool) : Descriptor := { ofValue v with writable := writable }

/-- A primitive that is exactly a number below the length of an array, where that can be written, makes the array
shorter. Without an element from there on that cannot be deleted, the request is granted, those elements are gone and
the number is the length. Otherwise the elements beyond the last such one are gone, the length lies right after it, and
the request is refused, with a type error where the caller asked for a fault. In both cases the length is read-only if
that was requested, and nothing else changes. A value that is not the same number once it is taken for a length is a
range error, and changes nothing by itself. -/
theorem ObjectRef.truncation_exact {s : Store} {o : ObjectRef} (kind : (s.object o).kind = .array) (E : Engine)
    (c : Config) (v : Value) (writable : Option Bool) :
    (∀ length n, s.Counts o length true → v.isPrimitive = true → n < length →
      (v.primitiveNumber == Float.ofNat n) = true →
        ((∀ i, n ≤ i → ¬s.Pinned o i) →
          ∃ t, s.Cut t o (Index.below n) (.data (.ofNat n) (writable != some false) false false) ∧
            ∀ throw, o.define E "length" (.ofLength v writable) throw c s = .value true t) ∧
        (∀ m, n ≤ m → s.Pinned o m → (∀ i, s.Pinned o i → i ≤ m) →
          ∃ t, s.Cut t o (Index.below (m + 1)) (.data (.ofNat (m + 1)) (writable != some false) false false) ∧
            o.define E "length" (.ofLength v writable) false c s = .value false t ∧
            ∃ f, f.kind = .typeError ∧
              o.define E "length" (.ofLength v writable) true c s = .abrupt (.fault f) t)) ∧
      (v.isPrimitive = true → (Float.ofNat (Number.toUint32 v.primitiveNumber) == v.primitiveNumber) = false →
        ∀ throw, ∃ f, f.kind = .rangeError ∧
          o.define E "length" (.ofLength v writable) throw c s = .abrupt (.fault f) s) ∧
      (∀ k x s₁ s₂, v.toUint32 E c s = .value k s₁ → v.toNumber E c s₁ = .value x s₂ → (Float.ofNat k == x) = false →
        ∀ throw, ∃ f, f.kind = .rangeError ∧
          o.define E "length" (.ofLength v writable) throw c s = .abrupt (.fault f) s₂) := by
  have data : (Descriptor.ofLength v writable).isAccessor = false := rfl
  have unmixed := Law.unmixed_of_not_accessor data
  have asked : (Descriptor.ofLength v writable).value = some v := rfl
  simp only [define_length c kind unmixed]
  refine ⟨fun length n counts primitive shorter same => ?_, fun primitive other throw => ?_,
    fun k x s₁ s₂ counted number other throw => ?_⟩
  · have ends (stop : Option Nat) (stops : s.Stops o n stop) :
        ∃ t, s.Cut t o (Index.below (stop.elim n (· + 1)))
            (.data (.ofNat (stop.elim n (· + 1))) (writable != some false) false false) ∧
          ∀ throw, o.defineLength E (.ofLength v writable) throw c s =
            (stop.elim (pure true) fun i => .reject throw (.elementNotDeleted i) : Action Bool) c t := by
      obtain ⟨t, cut, run⟩ :=
        shorten_run c { Descriptor.ofLength v writable with value := some (.ofNat n) } counts shorter rfl rfl ⟨rfl, rfl⟩
          stops
      refine ⟨t, cut, fun throw => ?_⟩
      rw [defineLength_shorter c counts asked primitive shorter same, run]
    constructor
    · intro free
      have stops : s.Stops o n none := by
        constructor
        · simp
        · intro i le pinned
          exact absurd pinned (free i le)
      exact ends none stops
    · intro m le pinned last
      have stops : s.Stops o n (some m) := by
        constructor
        · simp [le, pinned]
        · intro i _ pinned
          exact ⟨m, rfl, last i pinned⟩
      obtain ⟨t, cut, run⟩ := ends (some m) stops
      exact ⟨t, cut, run false, _, rfl, run true⟩
  · have counted := Value.toUint32_run (E := E) primitive c s
    exact ⟨_, rfl, defineLength_invalid asked counted (Value.toNumber_run primitive c s) other⟩
  · exact ⟨_, rfl, defineLength_invalid asked counted number other⟩

/-- An array of four elements, of which the second cannot be deleted. -/
def Store.pinnedArray : Store :=
  (Store.initial.addObject (.array [.null, .null, .null, .null])).modifyObject ⟨57⟩
    (·.withProperty "1" (.data .null true true false))

theorem Store.pinnedArray_counts : pinnedArray.Counts ⟨57⟩ 4 true := by
  have made : ([.null, .null, .null, .null] : List Value).length < 4294967296 := by decide
  have counts := Store.initial.counts_addObject_array made
  have here : Store.initial.nextObject = ⟨57⟩ := by decide +kernel
  rw [here] at counts
  apply counts.withProperty
  · decide
  · exact Nat.le_refl 4
  · intro i _ same
    rw [Index.name_injective (same.trans (show "1" = Index.name 1 by decide))]
    decide

/-- The array cannot be emptied, but its length becomes read-only. -/
theorem ObjectRef.truncation_exact_pinned :
    ∃ t, Store.pinnedArray.Cut t ⟨57⟩ (Index.below 2) (.data (.ofNat 2) false false false) ∧ ∃ f, f.kind = .typeError ∧
      (⟨57⟩ : ObjectRef).define (.ofBudget 0) "length" (.ofLength (.ofNat 0) (some false)) true .standard
        Store.pinnedArray = .abrupt (.fault f) t := by
  have counts := Store.pinnedArray_counts
  have pinned : Store.pinnedArray.Pinned ⟨57⟩ 1 := ⟨by decide, .data .null true true false, by decide +kernel, rfl⟩
  have last (i : Nat) (also : Store.pinnedArray.Pinned ⟨57⟩ i) : i ≤ 1 := by
    obtain ⟨small, p, shown, fixed⟩ := also
    have below : i < 4 := by
      apply counts.elements i small
      rw [Store.mem_ownKeys_array counts.kind, shown]
      rfl
    have free (j : Nat) (later : j = 2 ∨ j = 3) :
        Store.pinnedArray.getOwn? ⟨57⟩ (Index.name j) = some (.data .null true true true) := by
      rcases later with rfl | rfl <;> decide +kernel
    apply Nat.le_of_not_lt
    intro beyond
    rw [free i (by omega)] at shown
    cases shown
    cases fixed
  obtain ⟨shorter, _⟩ := ObjectRef.truncation_exact counts.kind (.ofBudget 0) .standard (.ofNat 0) (some false)
  obtain ⟨t, cut, _, strict⟩ := (shorter 4 0 counts rfl (by decide) (by decide)).2 1 (by decide) pinned last
  exact ⟨t, cut, strict⟩

end Ecma
