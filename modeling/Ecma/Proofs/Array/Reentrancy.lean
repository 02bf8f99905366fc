import Ecma.Proofs.Array.Truncation

/-!
# Lengths that are converted by code

A value that is to become the length of an array may be an object, and is then converted by code that may do anything,
also to that array. The length of the array is read before that code runs and not again. A request that is granted
therefore deletes elements if the new length is below the length that was there before, however many elements there are
by then, and leaves them all otherwise: elements that were added by the code may lie beyond the new length. Below it is
said exactly when none does.
-/

namespace Ecma

/-- All elements of an array lie below the length that it records. -/
def Store.Covers (s : Store) (o : ObjectRef) : Prop :=
  ∀ i < 4294967295, Index.name i ∈ s.ownKeys o → i < (o.arrayLength s).1

/-- What is seen of a value and of the store that is left. -/
theorem Outcome.exists_of_pathAfter {α β : Type} {x : Outcome α} {f : α → Store → β} {b : β}
    (seen : x.pathAfter (fun a t => [f a t]) = [b]) : ∃ a t, x = .value a t ∧ f a t = b := by
  cases x with
  | value a t => exact ⟨a, t, rfl, List.singleton_inj.1 seen⟩
  | abrupt => cases seen
  | exhausted => cases seen

/-- Among the elements from an index on that cannot be deleted there is a last one, if there are any. -/
theorem Store.exists_stops (s : Store) (o : ObjectRef) (start : Nat) : ∃ stop, s.Stops o start stop := by
  classical
  by_cases pinned : ∃ i, start ≤ i ∧ s.Pinned o i
  · obtain ⟨i, there⟩ := pinned
    have small : i ≤ 4294967295 := Nat.le_of_lt there.2.1
    refine ⟨some (Nat.findGreatest (fun i => start ≤ i ∧ s.Pinned o i) 4294967295), ?_, fun j from_start also => ?_⟩
    · rintro m ⟨⟩
      exact Nat.findGreatest_spec (P := fun i => start ≤ i ∧ s.Pinned o i) small there
    · exact ⟨_, rfl, Nat.le_findGreatest (Nat.le_of_lt also.1) ⟨from_start, also⟩⟩
  · refine ⟨none, by simp, fun i from_start also => absurd ⟨i, from_start, also⟩ pinned⟩

namespace World

variable {w : World} {c : Config} {s : Store} {v : Value} {budget : Nat}

/-- An action that obeys the law of well-formed stores leads to a later world. -/
theorem exists_steps {α : Type} {x y : Action α} {Q : World → α → Prop} {a : α}
    (obeys : Law.wellFormed.Obeys c w x y Q) (run : x c w.store = .value a s) :
    ∃ u : World, w.Steps u ∧ u.store = s := by
  obtain ⟨u, _, ends⟩ := obeys fun _ _ _ => trivial
  rw [show x c (Law.wellFormed.left w) = .value a s from run] at ends
  generalize y c (Law.wellFormed.right w) = other at ends
  cases ends with
  | value reached _ => exact ⟨u, reached.le, rfl⟩

theorem exists_steps_toNumber {x : Float} (held : w.store.Holds v)
    (run : v.toNumber (.ofBudget budget) c w.store = .value x s) : ∃ u : World, w.Steps u ∧ u.store = s :=
  exists_steps (Law.toNumber_obeys (Law.engines_ofBudget exotics (Nat.le_refl budget)) (Law.value_of_holds held)) run

theorem exists_steps_toUint32 {n : Nat} (held : w.store.Holds v)
    (run : v.toUint32 (.ofBudget budget) c w.store = .value n s) : ∃ u : World, w.Steps u ∧ u.store = s :=
  exists_steps (Law.toUint32_obeys (Law.engines_ofBudget exotics (Nat.le_refl budget)) (Law.value_of_holds held)) run

end World

namespace ObjectRef

variable {s t : Store} {o : ObjectRef} {d : Descriptor} {E : Engine} {c : Config} {throw : Bool} {n : Nat}

theorem unmixed_of_define {name : String} {granted : Bool} (run : o.define E name d throw c s = .value granted t) :
    d.isMixed = false := by
  obtain ⟨_, _, checked, _⟩ := Action.exists_of_bind_eq_value run
  cases mixed : d.isMixed with
  | false => rfl
  | true =>
    rw [Descriptor.check, mixed] at checked
    cases checked

/-- How a request for a length is granted. The value is converted by code that may do anything, also to the array, and
what follows depends on the length that was there before. -/
theorem defineLength_granted (run : o.defineLength E d throw c s = .value true t) :
    d.value = none ∧ o.defineOrdinary "length" d throw c s = .value true t ∨
      ∃ v n x s₁ s₂, d.value = some v ∧ v.toUint32 E c s = .value n s₁ ∧ v.toNumber E c s₁ = .value x s₂ ∧
        (Float.ofNat n == x) = true ∧
        (if n < (o.arrayLength s).1 then o.shorten n { d with value := some (.ofNat n) } throw
          else o.defineOrdinary "length" { d with value := some (.ofNat n) } throw) c s₂ = .value true t := by
  cases asked : d.value with
  | none =>
    unfold defineLength at run
    rw [Action.read_bind_run, asked] at run
    exact .inl ⟨rfl, run⟩
  | some v =>
    have conversions := run
    unfold defineLength at conversions
    rw [Action.read_bind_run, asked] at conversions
    obtain ⟨_, _, sized, conversions⟩ := Action.exists_of_bind_eq_value conversions
    cases sized
    obtain ⟨n, s₁, counted, conversions⟩ := Action.exists_of_bind_eq_value conversions
    obtain ⟨x, s₂, number, _⟩ := Action.exists_of_bind_eq_value conversions
    rw [defineLength_run asked counted number] at run
    refine .inr ⟨v, n, x, s₁, s₂, rfl, counted, number, ?_⟩
    split at run
    · cases run
    next agrees =>
      refine ⟨by simpa [bne] using agrees, ?_⟩
      split at run
      next longer =>
        rw [if_neg (Nat.not_lt_of_le longer)]
        exact run
      next shorter =>
        rw [if_pos (Nat.lt_of_not_le shorter)]
        split at run
        · exact run
        · exact absurd run Action.reject_ne_true

theorem defines_of_run {name : String} {granted : Bool} (run : o.defineOrdinary name d throw c s = .value granted t) :
    Defines s o name d (some granted) t := by
  have quiet : (o.defineOrdinary name d throw).Quiet c s (Defines s o name d) := defineOrdinary_quiet
  obtain ⟨leaves, _⟩ := quiet
  rw [run] at leaves
  cases leaves with
  | value post => exact post

/-- A length that is granted to be shorter leaves no element beyond it, whatever the array looks like. -/
theorem shorten_granted {v : Value} {w e : Bool} (kind : (s.object o).kind = .array)
    (length : s.getOwn? o "length" = some (.data v w e false)) (data : d.isAccessor = false)
    (asked : d.value = some (.ofNat n)) (run : o.shorten n d throw c s = .value true t) :
    ∃ w', s.Cut t o (Index.below n) (.data (.ofNat n) w' e false) := by
  obtain ⟨value, data, _⟩ := Descriptor.readOnlyLater asked data
  unfold shorten at run
  dsimp only at run
  generalize (if d.writable = some false then { d with writable := some true } else d) = granted at value data run
  obtain ⟨defined, u, first, run⟩ := Action.exists_of_bind_eq_value run
  cases defined with
  | false => exact absurd run Action.reject_ne_true
  | true =>
    have lowered := (defines_of_run first).cut kind length (Law.unmixed_of_not_accessor data)
    rw [value, Option.getD_some] at lowered
    have kind' := lowered.kind.trans kind
    obtain ⟨stop, stops⟩ := u.exists_stops o n
    obtain ⟨x, deleted, cut⟩ := deleteElementsFrom_run c kind' lowered.length stops
    rw [if_pos rfl, Action.read_bind_run, Action.bind_run deleted] at run
    have left := (lowered.trans cut).congr fun _ _ => Bool.true_and _
    cases stop with
    | some m =>
      obtain ⟨_, _, _, run⟩ := Action.exists_of_bind_eq_value run
      exact absurd run Action.reject_ne_true
    | none =>
      dsimp only at run
      split at run
      · obtain ⟨granted, y, closing, run⟩ := Action.exists_of_bind_eq_value run
        cases run
        cases granted with
        | true =>
          have closed := (defines_of_run closing).cut (left.kind.trans kind) left.length rfl
          exact ⟨_, left.resized closed⟩
        | false =>
          have kept : t = x := (defines_of_run closing).unchanged (by simp)
          exact ⟨_, kept ▸ left⟩
      · cases run
        exact ⟨_, left⟩

end ObjectRef

theorem Store.Cut.arrayLength_eq {s t : Store} {o : ObjectRef} {n : Nat} {w e : Bool} {keeps : String → Bool}
    (cut : s.Cut t o keeps (.data (.ofNat n) w e false)) (small : n < 4294967296) : (o.arrayLength t).1 = n := by
  rw [ObjectRef.arrayLength, cut.length]
  exact Number.toUInt32_ofNat small

theorem Store.Cut.covers_iff {s t : Store} {o : ObjectRef} {n : Nat} {w e : Bool} {keeps : String → Bool}
    (cut : s.Cut t o keeps (.data (.ofNat n) w e false)) (small : n < 4294967296) :
    t.Covers o ↔ ∀ i < 4294967295, Index.name i ∈ s.ownKeys o → keeps (Index.name i) = true → i < n := by
  simp only [Store.Covers, cut.arrayLength_eq small, cut.keys, List.mem_filter, and_imp]

theorem Value.toUint32_lt {E : Engine} {c : Config} {s t : Store} {v : Value} {n : Nat}
    (run : v.toUint32 E c s = .value n t) : n < 4294967296 := by
  rw [toUint32, map_eq_pure_bind] at run
  obtain ⟨x, _, _, run⟩ := Action.exists_of_bind_eq_value run
  cases run
  exact Number.toUint32_lt x

/-- An array stays one, with a length that cannot be reconfigured. -/
theorem World.Steps.array {w u : World} {o : ObjectRef} (steps : w.Steps u) (tidy : w.store.Tidy)
    (kind : (w.store.object o).kind = .array) : (u.store.object o).kind = .array ∧
      ∃ v writable e, u.store.getOwn? o "length" = some (.data v writable e false) := by
  have narrows := (steps.preserves.keeps o (Store.inside_of_array kind)).kind
  have kind' : (u.store.object o).kind = .array := by
    generalize (u.store.object o).kind = after at narrows
    cases narrows with
    | same => exact kind
    | detached before => cases kind.symm.trans before
  obtain ⟨v, writable, e, _, stored⟩ := (steps.tidy tidy o).length kind'
  refine ⟨kind', v, writable, e, ?_⟩
  rw [Store.getOwn?_array kind', stored]

namespace ObjectRef

variable {w : World} {o : ObjectRef} {d : Descriptor} {c : Config} {throw : Bool} {t : Store}

/-- A request that names no value leaves the number that an array records. -/
theorem covers_of_kept (tidy : w.store.Tidy) (kind : (w.store.object o).kind = .array) (unmixed : d.isMixed = false)
    (asked : d.value = none) (run : o.defineOrdinary "length" d throw c w.store = .value true t) :
    t.Covers o ↔ w.store.Covers o := by
  obtain ⟨_, v, writable, e, length⟩ := World.Steps.refl.array tidy kind
  have cut := (defines_of_run run).cut kind length unmixed
  rw [asked, Option.getD_none] at cut
  have recorded : (o.arrayLength t).1 = (o.arrayLength w.store).1 := by
    rw [arrayLength, cut.length, arrayLength, length]
    cases v <;> rfl
  have keys : t.ownKeys o = w.store.ownKeys o := by
    rw [cut.keys]
    simp
  rw [Store.Covers, Store.Covers, recorded, keys]

/-- A request for a value is granted on the store that its conversions left, but by the length that was there before. -/
theorem cut_of_converted {budget n : Nat} {x : Float} {v : Value} {s₁ s₂ : Store} (tidy : w.store.Tidy)
    (kind : (w.store.object o).kind = .array) (data : d.isAccessor = false) (held : w.store.Holds v)
    (counted : v.toUint32 (.ofBudget budget) c w.store = .value n s₁)
    (number : v.toNumber (.ofBudget budget) c s₁ = .value x s₂)
    (run : (if n < (o.arrayLength w.store).1 then o.shorten n { d with value := some (.ofNat n) } throw
      else o.defineOrdinary "length" { d with value := some (.ofNat n) } throw) c s₂ = .value true t) :
    ∃ writable e, s₂.Cut t o (if n < (o.arrayLength w.store).1 then Index.below n else fun _ => true)
      (.data (.ofNat n) writable e false) := by
  obtain ⟨w₁, first, rfl⟩ := World.exists_steps_toUint32 held counted
  obtain ⟨w₂, second, rfl⟩ := World.exists_steps_toNumber (first.grows.1.holds held) number
  obtain ⟨kind, v, writable, e, length⟩ := (first.trans second).array tidy kind
  split at run
  next shorter =>
    obtain ⟨writable, cut⟩ := shorten_granted (d := { d with value := some (.ofNat n) }) kind length data rfl run
    exact ⟨writable, e, by rw [if_pos shorter]; exact cut⟩
  next longer =>
    have cut := (defines_of_run run).cut kind length (Law.unmixed_of_not_accessor data)
    exact ⟨_, e, by rw [if_neg longer]; exact cut⟩

end ObjectRef

/-- In every store of a session, a request for the length of an array that is granted leaves all elements below the
length exactly if they were there before, where no value is named. Otherwise the value is converted twice, to a number
that becomes the length, and only those elements of the array as the conversions left it are deleted that lie beyond a
length below the one that was there before. So all elements lie below the length exactly if it is below the one that was
there before, or if the conversions left no element beyond it; a primitive, which is converted without any code, leaves
them below it if they were. -/
theorem Machine.length_covers_iff (config : Config) {requests : List (Nat × Request)}
    (grounded : (new config).Grounded requests) {s : Store} (mem : s ∈ (new config).visited requests) {o : ObjectRef}
    (kind : (s.object o).kind = .array) {d : Descriptor} (held : ∀ v, d.value = some v → s.Holds v) {budget : Nat}
    {c : Config} {throw : Bool} {t : Store}
    (run : o.define (.ofBudget budget) "length" d throw c s = .value true t) :
    (d.value = none → (t.Covers o ↔ s.Covers o)) ∧
      ∀ v, d.value = some v → (v.isPrimitive = true → s.Covers o → t.Covers o) ∧
        ∃ n x s₁ s₂ w e, v.toUint32 (.ofBudget budget) c s = .value n s₁ ∧
          v.toNumber (.ofBudget budget) c s₁ = .value x s₂ ∧ (Float.ofNat n == x) = true ∧
          s₂.Cut t o (if n < (o.arrayLength s).1 then Index.below n else fun _ => true) (.data (.ofNat n) w e false) ∧
          (t.Covers o ↔ n < (o.arrayLength s).1 ∨ ∀ i < 4294967295, Index.name i ∈ s₂.ownKeys o → i < n) := by
  obtain ⟨worlds, stores, _, later⟩ := follows_session config grounded
  rw [← stores] at mem
  obtain ⟨w, there, same⟩ := List.mem_map.1 mem
  have tidy := (later w there).tidy Store.tidy_initial
  have here : w.store = s := same
  subst here
  have unmixed : d.isMixed = false := ObjectRef.unmixed_of_define run
  rw [ObjectRef.define_length c kind unmixed] at run
  rcases ObjectRef.defineLength_granted run with ⟨asked, run⟩ | ⟨v, n, x, s₁, s₂, asked, counted, number, agrees, run⟩
  · refine ⟨fun _ => ObjectRef.covers_of_kept tidy kind unmixed asked run, fun v named => ?_⟩
    cases asked.symm.trans named
  · have data : d.isAccessor = false := by simpa [Descriptor.isMixed, Descriptor.isData, asked] using unmixed
    obtain ⟨writable, e, cut⟩ := ObjectRef.cut_of_converted tidy kind data (held v asked) counted number run
    have covers : t.Covers o ↔
        n < (o.arrayLength w.store).1 ∨ ∀ i < 4294967295, Index.name i ∈ s₂.ownKeys o → i < n := by
      rw [cut.covers_iff (Value.toUint32_lt counted)]
      by_cases shorter : n < (o.arrayLength w.store).1
      · rw [if_pos shorter]
        exact ⟨fun _ => .inl shorter, fun _ i index _ below => Index.below_iff.1 below i index rfl⟩
      · simp [shorter]
    refine ⟨fun absent => ?_, fun v' named => ?_⟩
    · cases asked.symm.trans absent
    · cases asked.symm.trans named
      refine ⟨fun primitive covered => covers.2 ?_, n, x, s₁, s₂, writable, e, counted, number, agrees, cut, covers⟩
      -- a primitive is converted without any code, so the array is still the one that was measured
      rw [Value.toUint32_run primitive] at counted
      cases counted
      rw [Value.toNumber_run primitive] at number
      cases number
      rw [or_iff_not_imp_left]
      intro longer i index mem
      have below := covered i index mem
      omega

/-- An array of two elements, and an object that adds an element to it while it is converted to a number. -/
def Request.growingArray (answer : Nat) : List (Nat × Request) :=
  let valueOf : FunctionCode := ⟨none, [], [.expr (.assign (.index (.ident "a") (.number (Float.ofNat 10))) .null),
    .returns (some (.number (Float.ofNat answer)))], false, false⟩
  [(5, .run (.global ⟨[.declare [.mk "a" (some (.array [.item .null, .item .null])),
    .mk "v" (some (.object [.value "valueOf" (.function valueOf)]))]], false⟩))]

def Store.growingArray (answer : Nat) : Store := ((Machine.new .standard).served (Request.growingArray answer)).store

/-- The array is made shorter than it was, so the new element goes with the others. -/
theorem Machine.length_covers_iff_shorter :
    ∃ t, (⟨57⟩ : ObjectRef).define (.ofBudget 4) "length" (.ofValue (.object ⟨58⟩)) true .standard
        (Store.growingArray 1) = .value true t ∧ t.Covers ⟨57⟩ := by
  have grounded : (new .standard).Grounded (Request.growingArray 1) := ⟨List.forall_mem_nil _, trivial⟩
  have kind : ((Store.growingArray 1).object ⟨57⟩).kind = .array := by
    have tag : ((Store.growingArray 1).object ⟨57⟩).kind.ctorIdx = 1 := by decide +kernel
    generalize ((Store.growingArray 1).object ⟨57⟩).kind = kind at tag
    cases kind with
    | array => rfl
    | _ => cases tag
  have held (v : Value) (asked : (Descriptor.ofValue (.object ⟨58⟩)).value = some v) :
      (Store.growingArray 1).Holds v := by
    cases asked
    rintro o ⟨⟩
    decide +kernel
  have seen : ((⟨57⟩ : ObjectRef).define (.ofBudget 4) "length" (.ofValue (.object ⟨58⟩)) true .standard
      (Store.growingArray 1)).pathAfter
        (fun granted t => [(granted, ((⟨57⟩ : ObjectRef).arrayLength t).1)]) = [(true, 1)] := by decide +kernel
  obtain ⟨granted, t, run, shown⟩ := Outcome.exists_of_pathAfter seen
  cases granted with
  | false => cases shown
  | true =>
    have reached : Store.growingArray 1 ∈ (new .standard).visited (Request.growingArray 1) := served_mem_visited _
    obtain ⟨_, converted⟩ := length_covers_iff .standard grounded reached kind held run
    obtain ⟨_, n, x, s₁, s₂, w, e, counted, _, _, cut, covers⟩ := converted _ rfl
    have before : ((⟨57⟩ : ObjectRef).arrayLength (Store.growingArray 1)).1 = 2 := by
      decide +kernel
    have after : n = 1 := by
      rw [← cut.arrayLength_eq (Value.toUint32_lt counted)]
      exact congrArg Prod.snd shown
    refine ⟨t, run, covers.2 (.inl ?_)⟩
    rw [before, after]
    decide

/-- The array is made longer than it was, and the new element lies beyond its length. -/
theorem Machine.length_uncovered :
    ∃ t, (⟨57⟩ : ObjectRef).define (.ofBudget 4) "length" (.ofValue (.object ⟨58⟩)) true .standard
        (Store.growingArray 5) = .value true t ∧ ¬t.Covers ⟨57⟩ := by
  have seen : ((⟨57⟩ : ObjectRef).define (.ofBudget 4) "length" (.ofValue (.object ⟨58⟩)) true .standard
      (Store.growingArray 5)).pathAfter
        (fun granted t => [(granted, ((⟨57⟩ : ObjectRef).arrayLength t).1, t.ownKeys ⟨57⟩)]) =
      [(true, 5, ["length", "0", "1", "10"])] := by decide +kernel
  obtain ⟨granted, t, run, shown⟩ := Outcome.exists_of_pathAfter seen
  obtain ⟨rfl, length, keys⟩ : granted = true ∧ ((⟨57⟩ : ObjectRef).arrayLength t).1 = 5 ∧
      t.ownKeys ⟨57⟩ = ["length", "0", "1", "10"] := by simpa using shown
  refine ⟨t, run, fun covers => ?_⟩
  have below := covers 10 (by decide) (by rw [keys]; decide)
  omega

end Ecma
