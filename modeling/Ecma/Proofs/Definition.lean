import Ecma.Object.Define
import Ecma.Proofs.Redefinition
import Ecma.Proofs.Silent

/-!
# What defining and deleting a property can do

The definition of a property of an ordinary object, as one step: all that it can come to, each with what it takes. The
same for a deletion that gives no fault. An array that is shortened looks its elements up, the last one first.
-/

namespace Ecma.ObjectRef

variable {s : Store} {o : ObjectRef} {name : String} {d : Descriptor}

/-- What may come of a request to define a property, and the store that is left. -/
inductive Defines (s : Store) (o : ObjectRef) (name : String) (d : Descriptor) : Option Bool → Store → Prop where
  | added (absent : s.getOwn? o name = none) (extensible : (s.object o).extensible = true) :
    Defines s o name d (some true) (s.modifyObject o (·.withProperty name d.complete))
  | kept {p : Property} (present : s.getOwn? o name = some p) (granted : p.redefine d name = .unchanged) :
    Defines s o name d (some true) s
  | changed {p q : Property} (present : s.getOwn? o name = some p) (granted : p.redefine d name = .changed q) :
    Defines s o name d (some true) (s.modifyObject o (·.withProperty name q))
  | closed {r : Option Bool} (absent : s.getOwn? o name = none) (extensible : (s.object o).extensible = false)
      (no : r ≠ some true) : Defines s o name d r s
  | refused {r : Option Bool} {p : Property} {why : Fault} (present : s.getOwn? o name = some p)
      (refusal : p.redefine d name = .refused why) (no : r ≠ some true) : Defines s o name d r s

/-- A definition is granted in either mode, or it is turned down. -/
theorem defineOrdinary_cases (s : Store) (o : ObjectRef) (name : String) (d : Descriptor) :
    (∃ t, Defines s o name d (some true) t ∧ ∀ c throw, (o.defineOrdinary name d throw).Does c s true t) ∨
      (∀ r, r ≠ some true → Defines s o name d r s) ∧ ∀ c, Action.TurnsDown (o.defineOrdinary name d) c s := by
  cases found : s.getOwn? o name with
  | none =>
    cases extensible : (s.object o).extensible with
    | true =>
      refine .inl ⟨_, .added found extensible, fun c throw => .read_bind ?_⟩
      rw [found]
      refine .read_bind ?_
      rw [if_pos extensible]
      exact .modify_bind .pure
    | false =>
      refine .inr ⟨fun r => .closed found extensible, fun c => .read_bind ?_⟩
      rw [found]
      refine .read_bind ?_
      rw [extensible]
      exact .reject rfl
  | some p =>
    cases verdict : p.redefine d name with
    | unchanged =>
      refine .inl ⟨s, .kept found verdict, fun c throw => .read_bind ?_⟩
      rw [found]
      dsimp only
      rw [verdict]
      exact .pure
    | changed q =>
      refine .inl ⟨_, .changed found verdict, fun c throw => .read_bind ?_⟩
      rw [found]
      dsimp only
      rw [verdict]
      exact .modify_bind .pure
    | refused why =>
      refine .inr ⟨fun r => .refused found verdict, fun c => .read_bind ?_⟩
      rw [found]
      dsimp only
      rw [verdict]
      exact .reject (Property.kind_of_refused verdict)

/-- Only a caller that asks for a fault gets one. -/
theorem defineOrdinary_answers {throw : Bool} {c : Config} :
    (o.defineOrdinary name d throw).Quiet c s fun r t => Defines s o name d r t ∧ (throw = false → r ≠ none) := by
  rcases defineOrdinary_cases s o name d with ⟨t, defines, does⟩ | ⟨refused, turnsDown⟩
  · exact .of_does (does c throw) ⟨defines, by simp⟩
  · cases throw with
    | false => exact .of_does (turnsDown c).lenient ⟨refused _ (by simp), by simp⟩
    | true =>
      obtain ⟨f, _, fails⟩ := (turnsDown c).strict
      exact .of_fails fails ⟨refused _ (by simp), by simp⟩

theorem defineOrdinary_quiet {throw : Bool} {c : Config} :
    (o.defineOrdinary name d throw).Quiet c s (Defines s o name d) := defineOrdinary_answers.mono fun _ _ => And.left

/-- What a request that is granted stores, if anything. -/
theorem Defines.change {t : Store} (h : Defines s o name d (some true) t) :
    ∃ change : Option Property, t = (change.map fun q => s.modifyObject o (·.withProperty name q)).getD s ∧
      ∀ q, change = some q → s.getOwn? o name = none ∧ q = d.complete ∨
        ∃ p, s.getOwn? o name = some p ∧ p.redefine d name = .changed q := by
  cases h with
  | added absent => exact ⟨some d.complete, rfl, fun q same => .inl ⟨absent, (Option.some.inj same).symm⟩⟩
  | kept => exact ⟨none, rfl, by simp⟩
  | changed present granted =>
    refine ⟨some _, rfl, fun q same => .inr ⟨_, present, ?_⟩⟩
    rw [granted, Option.some.inj same]
  | closed _ _ no => exact absurd rfl no
  | refused _ _ no => exact absurd rfl no

/-- What may come of a request to delete a property, and the store that is left. -/
inductive Deletes (s : Store) (o : ObjectRef) (name : String) : Bool → Store → Prop where
  | missing (absent : s.getOwn? o name = none) : Deletes s o name true s
  | deleted {p : Property} (present : s.getOwn? o name = some p) (configurable : p.configurable = true) :
    Deletes s o name true (s.modifyObject o (·.without name))
  | kept {p : Property} (present : s.getOwn? o name = some p) (fixed : p.configurable = false) : Deletes s o name false s

theorem delete_quiet {c : Config} :
    (o.delete name false).Quiet c s fun r t => ∃ done, r = some done ∧ Deletes s o name done t := by
  refine .read_bind ?_
  cases found : s.getOwn? o name with
  | none => exact .pure ⟨true, rfl, .missing found⟩
  | some p =>
    dsimp only
    cases configurable : p.configurable with
    | true => exact .modify_bind (.pure ⟨true, rfl, .deleted found configurable⟩)
    | false => exact .pure ⟨false, rfl, .kept found configurable⟩

theorem delete_run (s : Store) (o : ObjectRef) (name : String) (c : Config) :
    ∃ done t, Deletes s o name done t ∧ o.delete name false c s = .value done t := by
  have quiet : (o.delete name false).Quiet c s fun r t => ∃ done, r = some done ∧ Deletes s o name done t :=
    delete_quiet
  obtain ⟨leaves, _⟩ := quiet
  generalize o.delete name false c s = ends at leaves
  cases leaves with
  | value post =>
    obtain ⟨done, same, deletes⟩ := post
    cases same
    exact ⟨_, _, deletes, rfl⟩
  | abrupt post =>
    obtain ⟨_, same, _⟩ := post
    cases same

theorem mem_insertDescending {i j : Nat} {found : List Nat} : j ∈ insertDescending i found ↔ j = i ∨ j ∈ found := by
  induction found with
  | nil => exact List.mem_cons
  | cons first rest ih =>
    rw [insertDescending]
    split
    · exact List.mem_cons
    · rw [List.mem_cons, ih, List.mem_cons]
      exact or_left_comm

theorem pairwise_insertDescending {i : Nat} {found : List Nat} (h : found.Pairwise (· ≥ ·)) :
    (insertDescending i found).Pairwise (· ≥ ·) := by
  induction h with
  | nil => exact List.pairwise_singleton ..
  | @cons first rest least ordered ih =>
    rw [insertDescending]
    split
    next le =>
      exact .cons (List.forall_mem_cons.2 ⟨le, fun j mem => Nat.le_trans (least j mem) le⟩) (.cons least ordered)
    next lt =>
      refine .cons (fun j mem => ?_) ih
      rcases mem_insertDescending.1 mem with rfl | mem
      · exact Nat.le_of_not_le lt
      · exact least j mem

/-- The elements from an index on are all found, and the last one comes first. -/
theorem elementsFrom_spec (s : Store) (o : ObjectRef) (start : Nat) :
    (o.elementsFrom s start).Pairwise (· ≥ ·) ∧ ∀ i, i ∈ o.elementsFrom s start ↔
      start ≤ i ∧ i < 4294967295 ∧ Index.name i ∈ s.ownKeys o := by
  have fold (indices found : List Nat) (ordered : found.Pairwise (· ≥ ·)) :
      (indices.foldl (fun found i => insertDescending i found) found).Pairwise (· ≥ ·) ∧
        ∀ i, i ∈ indices.foldl (fun found i => insertDescending i found) found ↔ i ∈ indices ∨ i ∈ found := by
    induction indices generalizing found with
    | nil => exact ⟨ordered, fun i => by simp⟩
    | cons first rest ih =>
      obtain ⟨sorted, mem⟩ := ih _ (pairwise_insertDescending ordered)
      refine ⟨sorted, fun i => (mem i).trans ?_⟩
      rw [mem_insertDescending, List.mem_cons]
      exact or_left_comm.trans or_assoc.symm
  obtain ⟨sorted, mem⟩ := fold (((s.ownKeys o).filterMap Index.element?).filter (start ≤ ·)) [] .nil
  refine ⟨sorted, fun i => (mem i).trans ?_⟩
  simp only [List.not_mem_nil, or_false, List.mem_filter, List.mem_filterMap, decide_eq_true_eq,
    Index.element?_eq_some_iff]
  constructor
  · rintro ⟨⟨name, mem, rfl, small⟩, from_start⟩
    exact ⟨from_start, small, mem⟩
  · rintro ⟨from_start, small, mem⟩
    exact ⟨⟨_, mem, rfl, small⟩, from_start⟩

end Ecma.ObjectRef
