/-!
# Maps from names that keep their order

The properties of an object and the bindings of a scope are met in the order in which they were first added. A new value
for an old name keeps its place, and erasing closes the gap.
-/

namespace Ecma

/-- A map from names, its entries in the order in which their names were added. -/
structure NameMap (α : Type) where
  entries : List (String × α)

namespace NameMap

variable {α : Type}

def empty : NameMap α := ⟨[]⟩

instance : Inhabited (NameMap α) := ⟨empty⟩

def get? (m : NameMap α) (name : String) : Option α := m.entries.lookup name

def contains (m : NameMap α) (name : String) : Bool := (m.get? name).isSome

def keys (m : NameMap α) : List String := m.entries.map (·.1)

/-- Sets the value of a name: in its place if it has one, else at the end. -/
def insert (m : NameMap α) (name : String) (a : α) : NameMap α :=
  if m.contains name then ⟨m.entries.map fun entry => if entry.1 = name then (name, a) else entry⟩
  else ⟨m.entries ++ [(name, a)]⟩

/-- Removes a name; the others keep their order. -/
def erase (m : NameMap α) (name : String) : NameMap α := ⟨m.entries.filter (·.1 ≠ name)⟩

@[simp] theorem get?_empty (name : String) : (empty : NameMap α).get? name = none := rfl

theorem contains_iff_mem_keys {m : NameMap α} {name : String} : m.contains name = true ↔ name ∈ m.keys := by
  obtain ⟨entries⟩ := m
  simp only [contains, get?, keys]
  induction entries with
  | nil => simp
  | cons entry rest ih =>
    by_cases h : name = entry.1
    · rw [List.lookup_cons]
      simp [h]
    · have other : (name == entry.1) = false := by simpa using h
      rw [List.lookup_cons]
      simp [other, h, ih]

theorem get?_eq_none_of_contains {m : NameMap α} {name : String} (absent : m.contains name = false) :
    m.get? name = none := by
  simpa [contains] using absent

/-- Inserting a name leaves the names that are there in their places and adds a new one at the end. -/
theorem keys_insert (m : NameMap α) (name : String) (a : α) :
    (m.insert name a).keys = if name ∈ m.keys then m.keys else m.keys ++ [name] := by
  unfold insert
  by_cases h : m.contains name = true
  · rw [if_pos h, if_pos (contains_iff_mem_keys.1 h)]
    simp only [keys, List.map_map]
    apply List.map_congr_left
    intro entry _
    by_cases e : entry.1 = name <;> simp [e]
  · rw [if_neg h, if_neg (mt contains_iff_mem_keys.2 h)]
    simp [keys]

/-- No name is there twice after an insertion, if none was before. -/
theorem nodup_keys_insert {m : NameMap α} (nodup : m.keys.Nodup) (name : String) (a : α) :
    (m.insert name a).keys.Nodup := by
  rw [keys_insert]
  split
  · exact nodup
  next new =>
    refine List.nodup_append.2 ⟨nodup, List.pairwise_singleton .., ?_⟩
    rintro key old _ mem rfl
    exact new (List.mem_singleton.1 mem ▸ old)

theorem keys_erase (m : NameMap α) (name : String) : (m.erase name).keys = m.keys.filter (· ≠ name) := by
  simp only [erase, keys, List.filter_map]
  rfl

/-- Looking a name up where one name's value was replaced. -/
theorem lookup_replace (entries : List (String × α)) (name other : String) (a : α) :
    (entries.map fun entry => if entry.1 = name then (name, a) else entry).lookup other =
      if other = name then (entries.lookup name).map fun _ => a else entries.lookup other := by
  induction entries with
  | nil => simp
  | cons entry rest ih =>
    obtain ⟨key, b⟩ := entry
    rw [List.map_cons]
    by_cases hk : key = name
    · subst hk
      by_cases ho : other = key
      · simp [ho]
      · have apart : (other == key) = false := by simpa using ho
        simpa [List.lookup_cons, apart, ho] using ih
    · by_cases ho : other = key
      · subst ho
        simp [hk]
      · have apart : (other == key) = false := by simpa using ho
        have back : (name == key) = false := by simpa using fun h : name = key => hk h.symm
        simp [List.lookup_cons, hk, apart, back, ih]

/-- A set name has its new value, and every other name what it had. -/
theorem get?_insert (m : NameMap α) (name other : String) (a : α) :
    (m.insert name a).get? other = if other = name then some a else m.get? other := by
  unfold insert
  by_cases h : m.contains name = true
  · obtain ⟨b, hb⟩ := Option.isSome_iff_exists.1 h
    rw [if_pos h]
    simp only [get?] at hb ⊢
    rw [lookup_replace, hb, Option.map_some]
  · have absent : m.entries.lookup name = none := Option.not_isSome_iff_eq_none.1 h
    rw [if_neg h]
    by_cases ho : other = name
    · simp [get?, List.lookup_append, ho, absent]
    · have apart : (other == name) = false := by simpa using ho
      simp [get?, List.lookup_append, List.lookup_cons, ho, apart]

/-- A removed name has no value, and every other name what it had. -/
theorem get?_erase (m : NameMap α) (name other : String) :
    (m.erase name).get? other = if other = name then none else m.get? other := by
  obtain ⟨entries⟩ := m
  simp only [erase, get?]
  induction entries with
  | nil => simp
  | cons entry rest ih =>
    obtain ⟨key, b⟩ := entry
    by_cases hk : key = name
    · subst hk
      rw [List.filter_cons_of_neg (by simp), ih]
      by_cases ho : other = key
      · simp [ho]
      · have apart : (other == key) = false := by simpa using ho
        simp [List.lookup_cons, apart]
    · rw [List.filter_cons_of_pos (by simpa using hk), List.lookup_cons, List.lookup_cons, ih]
      by_cases ho : other = key
      · subst ho
        simp [hk]
      · have apart : (other == key) = false := by simpa using ho
        simp [apart]

end NameMap

end Ecma
