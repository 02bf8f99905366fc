import Ecma.Property

/-!
# What a request can do to a property

A request that changes a property gives it what was asked for and leaves the rest. A property that was complete is so
afterwards, unless both kinds were asked for at once. Of the properties that cannot be reconfigured, only writable data
changes: it may get another value and may become read-only.
-/

namespace Ecma

namespace Property

/-! ## Complete properties -/

/-- All fields of one kind are stored, and none of the other. -/
inductive Complete : Property → Prop where
  | data (v : Value) (w e c : Bool) : Complete (.data v w e c)
  | accessor (g s : Value) (e c : Bool) : Complete (.accessor g s e c)

theorem Complete.isData_eq {p : Property} (complete : p.Complete) : p.isData = !p.isAccessor := by cases complete <;> rfl

end Property

namespace Descriptor

variable {d : Descriptor}

theorem isAccessor_eq_false : d.isAccessor = false ↔ d.get = none ∧ d.set = none := by simp [isAccessor]

theorem isData_eq_false : d.isData = false ↔ d.value = none ∧ d.writable = none := by simp [isData]

theorem isData_of_isAccessor (unmixed : d.isMixed = false) (accessor : d.isAccessor = true) : d.isData = false := by
  simpa [isMixed, accessor] using unmixed

theorem isAccessor_of_isData (unmixed : d.isMixed = false) (data : d.isData = true) : d.isAccessor = false := by
  simpa [isMixed, data] using unmixed

/-- What is made where there is nothing is complete, whatever is asked for. -/
theorem complete_complete (d : Descriptor) : d.complete.Complete := by
  unfold complete
  split
  · exact .accessor ..
  · exact .data ..

end Descriptor

namespace Property

variable {p q : Property} {d : Descriptor} {name : String}

/-! ## Changing a property -/

/-- A request for no kind or for the kind that a property has does not convert it. -/
theorem convert_of_kind (kind : d.isGeneric = true ∨ p.isData = d.isData) : p.convert d = p := by
  refine if_pos ?_
  rw [Bool.or_eq_true, beq_iff_eq]
  exact kind

theorem convert_data {v : Value} {w e c : Bool} (kind : d.isAccessor = false) :
    (data v w e c).convert d = data v w e c := by
  refine convert_of_kind ?_
  cases asked : d.isData with
  | true => exact .inr rfl
  | false => exact .inl (by rw [Descriptor.isGeneric, kind, asked]; rfl)

theorem convert_accessor {g s : Value} {e c : Bool} (kind : d.isData = false) :
    (accessor g s e c).convert d = accessor g s e c := convert_of_kind (.inr kind.symm)

/-- A request for accessors turns data into a pair of them. -/
theorem convert_data_of_isAccessor {v : Value} {w e c : Bool} (unmixed : d.isMixed = false) (kind : d.isAccessor = true) :
    (data v w e c).convert d = accessor .undefined .undefined e c := by
  have other := Descriptor.isData_of_isAccessor unmixed kind
  rw [convert, Descriptor.isGeneric, kind, other]
  rfl

/-- A request for data turns a pair of accessors into it. -/
theorem convert_accessor_of_isData {g s : Value} {e c : Bool} (kind : d.isData = true) :
    (accessor g s e c).convert d = data .undefined false e c := by
  rw [convert, Descriptor.isGeneric, kind, Bool.not_true, Bool.and_false]
  rfl

theorem update_data {v : Value} {w e c : Bool} (kind : d.isAccessor = false) :
    (data v w e c).update d =
      data (d.value.getD v) (d.writable.getD w) (d.enumerable.getD e) (d.configurable.getD c) := by
  obtain ⟨get, set⟩ := Descriptor.isAccessor_eq_false.1 kind
  simp [update, data, get, set]

theorem update_accessor {g s : Value} {e c : Bool} (kind : d.isData = false) :
    (accessor g s e c).update d =
      accessor (d.get.getD g) (d.set.getD s) (d.enumerable.getD e) (d.configurable.getD c) := by
  obtain ⟨value, writable⟩ := Descriptor.isData_eq_false.1 kind
  simp [update, accessor, value, writable]

/-- What a request that names no accessor makes of data. -/
theorem update_convert_data {v : Value} {w e c : Bool} (kind : d.isAccessor = false) :
    ((data v w e c).convert d).update d =
      data (d.value.getD v) (d.writable.getD w) (d.enumerable.getD e) (d.configurable.getD c) := by
  rw [convert_data kind, update_data kind]

/-- A request for one kind leaves a complete property behind. -/
theorem Complete.update_convert (complete : p.Complete) (unmixed : d.isMixed = false) :
    ((p.convert d).update d).Complete := by
  cases complete with
  | data v w e c =>
    cases kind : d.isAccessor with
    | true =>
      rw [convert_data_of_isAccessor unmixed kind, update_accessor (Descriptor.isData_of_isAccessor unmixed kind)]
      exact .accessor ..
    | false =>
      rw [update_convert_data kind]
      exact .data ..
  | accessor g s e c =>
    cases kind : d.isData with
    | true =>
      rw [convert_accessor_of_isData kind, update_data (Descriptor.isAccessor_of_isData unmixed kind)]
      exact .data ..
    | false =>
      rw [convert_accessor kind, update_accessor kind]
      exact .accessor ..

theorem redefine_changed (h : p.redefine d name = .changed q) :
    d.holdsOf p = false ∧ p.refusal? d name = none ∧ q = (p.convert d).update d := by
  unfold redefine at h
  split at h
  · cases h
  next differs =>
    simp only [Bool.or_eq_true, not_or, Bool.not_eq_true] at differs
    split at h
    · cases h
    next free =>
      cases h
      exact ⟨differs.2, free, rfl⟩

theorem complete_of_changed (h : p.redefine d name = .changed q) (complete : p.Complete) (unmixed : d.isMixed = false) :
    q.Complete := by
  obtain ⟨_, _, rfl⟩ := redefine_changed h
  exact complete.update_convert unmixed

/-- Data that is not asked to be an accessor is data afterwards. -/
theorem isData_of_changed (h : p.redefine d name = .changed q) (complete : p.Complete) (data : p.isData = true)
    (kind : d.isAccessor = false) : q.isData = true := by
  obtain ⟨_, _, rfl⟩ := redefine_changed h
  cases complete with
  | accessor => cases data
  | data v w e c => rw [update_convert_data kind, isData_data]

/-- The two reasons to refuse a request. -/
theorem reason_of_refused {why : Fault} (h : p.redefine d name = .refused why) :
    why = .cannotRedefine name ∨ why = .readOnlyValue name := by
  have refused : p.refusal? d name = some why := by
    unfold redefine at h
    grind
  unfold refusal? at refused
  grind

theorem kind_of_refused {why : Fault} (h : p.redefine d name = .refused why) : why.kind = .typeError := by
  rcases reason_of_refused h with rfl | rfl <;> rfl

theorem redefine_unchanged (h : p.redefine d name = .unchanged) : d.isEmpty = true ∨ d.holdsOf p = true := by
  unfold redefine at h
  split at h
  next keeps => exact (Bool.or_eq_true _ _).mp keeps
  · split at h <;> cases h

/-- A request that leaves writable data as it is asks neither for accessors nor to make it read-only. -/
theorem plain_of_unchanged {v : Value} {e c : Bool} (h : (data v true e c).redefine d name = .unchanged) :
    d.isAccessor = false ∧ d.writable ≠ some false := by
  obtain ⟨value, writable, get, set, enumerable, configurable⟩ := d
  rcases redefine_unchanged h with h | h
  · cases get <;> cases set <;> cases writable <;>
      simp_all [Descriptor.isEmpty, Descriptor.isGeneric, Descriptor.isAccessor, Descriptor.isData]
  · simp only [Descriptor.holdsOf, Bool.and_eq_true] at h
    obtain ⟨⟨⟨⟨⟨_, noGetter⟩, noSetter⟩, keeps⟩, _⟩, _⟩ := h
    cases get with
    | some => cases noGetter
    | none =>
      cases set with
      | some => cases noSetter
      | none =>
        refine ⟨rfl, ?_⟩
        rintro ⟨⟩
        cases keeps

theorem keepsFlag_iff {requested : Option Bool} {b : Bool} :
    Descriptor.keepsFlag requested (some b) = true ↔ requested.getD b = b := by
  cases requested <;> simp [Descriptor.keepsFlag]

theorem keepsValue_of_same {requested : Option Value} {v : Value}
    (h : requested.any (fun u => !u.same v) = false) : Descriptor.keepsValue requested (some v) = true := by
  cases requested with
  | none => rfl
  | some u => simpa [Descriptor.keepsValue] using h

/-- What a fixed property grants. -/
structure Granted (p : Property) (d : Descriptor) : Prop where
  configurable : Descriptor.keepsFlag d.configurable (some false) = true
  enumerable : Descriptor.keepsFlag d.enumerable (some p.enumerable) = true
  kind : d.isGeneric = true ∨ p.isData = d.isData
  data : ∀ {v e c}, p = .data v false e c → d.isGeneric = true ∨
    Descriptor.keepsFlag d.writable (some false) = true ∧ Descriptor.keepsValue d.value (some v) = true
  accessor : ∀ {g s e c}, p = .accessor g s e c → d.isGeneric = true ∨
    Descriptor.keepsValue d.get (some g) = true ∧ Descriptor.keepsValue d.set (some s) = true

theorem keepsFlag_of_ne {requested : Option Bool} (h : requested ≠ some true) :
    Descriptor.keepsFlag requested (some false) = true := by
  rcases requested with _ | (_ | _)
  · rfl
  · rfl
  · exact absurd rfl h

theorem granted_of_refusal? (free : p.refusal? d name = none) (fixed : p.configurable = false) : Granted p d := by
  unfold refusal? at free
  rw [if_neg (by rw [fixed]; exact Bool.false_ne_true)] at free
  by_cases configurable : d.configurable = some true
  · rw [if_pos configurable] at free
    cases free
  rw [if_neg configurable] at free
  by_cases enumerable : d.enumerable.any (· ≠ p.enumerable) = true
  · rw [if_pos enumerable] at free
    cases free
  rw [if_neg enumerable] at free
  have keepsEnumerable : Descriptor.keepsFlag d.enumerable (some p.enumerable) = true := by
    cases requested : d.enumerable with
    | none => rfl
    | some b => simpa [Descriptor.keepsFlag, requested] using enumerable
  by_cases generic : d.isGeneric = true
  · exact ⟨keepsFlag_of_ne configurable, keepsEnumerable, .inl generic, fun _ => .inl generic, fun _ => .inl generic⟩
  rw [if_neg generic] at free
  by_cases kind : p.isData = d.isData
  · rw [if_neg (not_not_intro kind)] at free
    refine ⟨keepsFlag_of_ne configurable, keepsEnumerable, .inr kind, ?_, ?_⟩
    · rintro v e c rfl
      have readOnly : ¬(Property.data v false e c).writable = true := Bool.false_ne_true
      rw [if_pos (isData_data ..), if_neg readOnly] at free
      split at free
      · cases free
      next writable =>
        split at free
        · cases free
        next value => exact .inr ⟨keepsFlag_of_ne writable, keepsValue_of_same (Bool.not_eq_true _ ▸ value)⟩
    · rintro g s e c rfl
      rw [if_neg (show ¬(Property.accessor g s e c).isData = true from Bool.false_ne_true)] at free
      split at free
      · cases free
      next values =>
        simp only [Bool.or_eq_true, not_or, Bool.not_eq_true] at values
        exact .inr ⟨keepsValue_of_same values.2, keepsValue_of_same values.1⟩
  · rw [if_pos kind] at free
    cases free

/-- A request for neither kind that is not refused asks for what is there. -/
theorem Granted.holdsOf_of_isGeneric (h : Granted p d) (complete : p.Complete) (fixed : p.configurable = false)
    (generic : d.isGeneric = true) : d.holdsOf p = true := by
  obtain ⟨value, writable, get, set, enumerable, configurable⟩ := d
  simp only [Descriptor.isGeneric, Descriptor.isAccessor, Descriptor.isData, Bool.and_eq_true, Bool.not_eq_true',
    Bool.or_eq_false_iff, Option.isSome_eq_false_iff, Option.isNone_iff_eq_none] at generic
  obtain ⟨⟨rfl, rfl⟩, rfl, rfl⟩ := generic
  cases complete <;> cases fixed <;>
    simp only [Descriptor.holdsOf, Bool.and_eq_true] <;>
    exact ⟨⟨⟨⟨⟨rfl, rfl⟩, rfl⟩, rfl⟩, h.enumerable⟩, h.configurable⟩

/-- A request that is not refused by a read-only property or an accessor asks for what is there. -/
theorem Granted.holdsOf (h : Granted p d) (complete : p.Complete) (unmixed : d.isMixed = false)
    (fixed : p.configurable = false) (readOnly : p.writable = false) : d.holdsOf p = true := by
  by_cases generic : d.isGeneric = true
  · exact h.holdsOf_of_isGeneric complete fixed generic
  have kind := h.kind.resolve_left generic
  obtain ⟨value, writable, get, set, enumerable, configurable⟩ := d
  cases complete with
  | data v w e c =>
    cases fixed
    cases readOnly
    obtain ⟨keepsWritable, keepsValue⟩ := (h.data rfl).resolve_left generic
    have noAccessor : get = none ∧ set = none := by
      simpa [Descriptor.isMixed, ← kind, Descriptor.isAccessor] using unmixed
    obtain ⟨rfl, rfl⟩ := noAccessor
    simp only [Descriptor.holdsOf, Bool.and_eq_true]
    exact ⟨⟨⟨⟨⟨keepsValue, rfl⟩, rfl⟩, keepsWritable⟩, h.enumerable⟩, h.configurable⟩
  | accessor g s e c =>
    cases fixed
    obtain ⟨keepsGet, keepsSet⟩ := (h.accessor rfl).resolve_left generic
    have noData : value = none ∧ writable = none := by
      simpa [Descriptor.isData] using kind.symm
    obtain ⟨rfl, rfl⟩ := noData
    simp only [Descriptor.holdsOf, Bool.and_eq_true]
    exact ⟨⟨⟨⟨⟨rfl, keepsGet⟩, keepsSet⟩, rfl⟩, h.enumerable⟩, h.configurable⟩

/-- A property that cannot be reconfigured and still changes is writable data, and only its value and whether it can be
written are changed. -/
theorem fixed_changed (h : p.redefine d name = .changed q) (complete : p.Complete) (unmixed : d.isMixed = false)
    (fixed : p.configurable = false) :
    ∃ v e, p = .data v true e false ∧ q = .data (d.value.getD v) (d.writable.getD true) e false := by
  obtain ⟨differs, free, rfl⟩ := redefine_changed h
  have granted := granted_of_refusal? free fixed
  have writable : p.writable = true := by
    refine Bool.not_eq_false _ ▸ fun readOnly => ?_
    rw [granted.holdsOf complete unmixed fixed readOnly] at differs
    cases differs
  cases complete with
  | accessor => cases writable
  | data v w e c =>
    cases fixed
    cases writable
    have kind : d.isAccessor = false := by
      have data := granted.kind.resolve_left fun generic => by
        rw [granted.holdsOf_of_isGeneric (.data ..) rfl generic] at differs
        cases differs
      simpa [Descriptor.isMixed, ← data] using unmixed
    have enumerable : d.enumerable.getD e = e := keepsFlag_iff.1 granted.enumerable
    refine ⟨v, e, rfl, ?_⟩
    rw [update_convert_data kind, enumerable, keepsFlag_iff.1 granted.configurable]

end Property

end Ecma
