import Ecma.Proofs.WellFormed.Made

/-!
# Own properties in a well-formed store

What an object shows as its own is what it has stored, but for the characters of a string object and for the indices of
an `arguments` object that stand for parameters, whose values are those of the parameters.
-/

namespace Ecma

namespace Store

variable {s : Store} {o : ObjectRef} {name : String}

/-- The characters that an object shows without storing them. -/
def characters (obj : Object) (name : String) : Option Property :=
  match obj.kind with
  | .string t => character? t name
  | _ => none

/-- A character is shown as it is, for good. -/
theorem characters_eq_some {obj : Object} {p : Property} (h : characters obj name = some p) :
    ∃ u, p = .data (.string [u]) false true false := by
  unfold characters at h
  split at h
  · obtain ⟨i, _, there⟩ := Option.bind_eq_some_iff.1 h
    obtain ⟨u, _, rfl⟩ := Option.map_eq_some_iff.1 there
    exact ⟨u, rfl⟩
  · cases h

theorem getOwn?_of_get?_eq_none (h : (s.object o).properties.get? name = none) :
    s.getOwn? o name = characters (s.object o) name := by
  unfold getOwn? ownWith characters
  dsimp only
  rw [h]
  cases (s.object o).kind with
  | arguments mapped => cases mapped <;> rfl
  | _ => rfl

theorem getOwn?_of_unaliased {p : Property} (h : (s.object o).properties.get? name = some p)
    (unaliased : s.Unaliased o name) : s.getOwn? o name = some p := by
  unfold getOwn? ownWith
  dsimp only
  rw [h]
  cases kind : (s.object o).kind with
  | arguments mapped =>
    cases mapped with
    | none => rfl
    | some m =>
      dsimp only
      rw [unaliased m kind]
  | _ => rfl

theorem getOwn?_of_aliased {p : Property} {m : ParameterMap} {parameter : String}
    (h : (s.object o).properties.get? name = some p) (kind : (s.object o).kind = .arguments (some m))
    (aliased : m.parameter? name = some parameter) :
    s.getOwn? o name = some (p.withValue (s.parameterValue (s.objects.size + 1) m.scope parameter)) := by
  unfold getOwn? ownWith
  dsimp only
  rw [h, kind]
  dsimp only
  rw [aliased]

/-- A value is shown at an index that stands for a parameter. -/
theorem isData_of_aliased {p : Property} {m : ParameterMap} {parameter : String}
    (kind : (s.object o).kind = .arguments (some m)) (aliased : m.parameter? name = some parameter)
    (shown : s.getOwn? o name = some p) : p.isData = true := by
  cases stored : (s.object o).properties.get? name with
  | none =>
    rw [getOwn?_of_get?_eq_none stored, characters, kind] at shown
    cases shown
  | some q =>
    rw [getOwn?_of_aliased stored kind aliased] at shown
    cases shown
    rfl

/-- Whatever an object has stored it shows, perhaps with another value. -/
theorem getOwn?_of_get? {p : Property} (h : (s.object o).properties.get? name = some p) :
    s.getOwn? o name = some p ∨ ∃ m parameter, (s.object o).kind = .arguments (some m) ∧
      m.parameter? name = some parameter ∧
      s.getOwn? o name = some (p.withValue (s.parameterValue (s.objects.size + 1) m.scope parameter)) := by
  by_cases unaliased : s.Unaliased o name
  · exact .inl (getOwn?_of_unaliased h unaliased)
  · simp only [Unaliased, Classical.not_forall] at unaliased
    obtain ⟨m, kind, aliased⟩ := unaliased
    obtain ⟨parameter, aliased⟩ := Option.ne_none_iff_exists'.1 aliased
    exact .inr ⟨m, parameter, kind, aliased, getOwn?_of_aliased h kind aliased⟩

theorem get?_eq_none_of_getOwn? (h : s.getOwn? o name = none) : (s.object o).properties.get? name = none := by
  cases found : (s.object o).properties.get? name with
  | none => rfl
  | some p =>
    rcases getOwn?_of_get? found with own | ⟨_, _, _, _, own⟩ <;> rw [own] at h <;> cases h

end Store

namespace Store.Holding

variable {s : Store} (h : s.Holding)
include h

/-- A value is written into whatever is stored at an index that stands for a parameter. That is data, so that what is
shown is complete. -/
theorem keepsProperty_ownWith {parameter : ScopeRef → String → Value} {o : ObjectRef} {name : String} {p : Property}
    (known : ∀ e name, s.Holds (parameter e name)) (found : s.ownWith parameter o name = some p) :
    s.KeepsProperty p := by
  have stored (p : Property) : (s.object o).properties.get? name = some p → s.KeepsProperty p := h.properties o name p
  unfold ownWith at found
  dsimp only at found
  split at found
  · obtain ⟨i, _, found⟩ := Option.bind_eq_some_iff.1 found
    obtain ⟨u, _, rfl⟩ := Option.map_eq_some_iff.1 found
    exact .data (holds_of_isPrimitive rfl)
  next m q kind entry =>
    split at found
    next aliased =>
      cases found
      have data := h.aliases o m name _ q kind aliased entry
      cases stored q entry with
      | data => exact .data (known m.scope _)
      | accessor => cases data
    · cases found
      exact stored _ entry
  · exact stored p found

theorem holds_parameterValue (bound : Nat) (e : ScopeRef) (name : String) : s.Holds (s.parameterValue bound e name) := by
  induction bound generalizing e name with
  | zero => exact holds_of_isPrimitive rfl
  | succ bound ih =>
    unfold parameterValue
    split
    next bindings record =>
      cases found : bindings.get? name with
      | none => exact holds_of_isPrimitive rfl
      | some b => exact h.bindings e bindings name b record found
    next o provideThis record =>
      cases found : (s.prototypeChain o).findSome? fun p => s.ownWith (s.parameterValue bound) p name with
      | none => exact holds_of_isPrimitive rfl
      | some p =>
        obtain ⟨_, _, own⟩ := List.exists_of_findSome?_eq_some found
        rw [Option.bind_some]
        cases stored : p.value? with
        | none => exact holds_of_isPrimitive rfl
        | some v => exact (h.keepsProperty_ownWith ih own).holds.1 v stored

/-- What an object shows is complete. -/
theorem keepsProperty_getOwn? {o : ObjectRef} {name : String} {p : Property} (found : s.getOwn? o name = some p) :
    s.KeepsProperty p := h.keepsProperty_ownWith (h.holds_parameterValue _) found

/-- What an object has or inherits is complete. -/
theorem keepsProperty_getProperty? {o : ObjectRef} {name : String} {p : Property}
    (found : s.getProperty? o name = some p) : s.KeepsProperty p := by
  obtain ⟨_, _, own⟩ := List.exists_of_findSome?_eq_some found
  exact h.keepsProperty_getOwn? own

end Store.Holding

namespace Store.WellFormed

variable {s : Store} {reserved : ScopeRef → Prop} (h : s.WellFormed reserved)
include h

/-- What an aliased index shows: writable data with the value of its parameter. -/
theorem getOwn?_aliased {o : ObjectRef} {name parameter : String} {m : ParameterMap}
    (kind : (s.object o).kind = .arguments (some m)) (aliased : m.parameter? name = some parameter) :
    ∃ bindings b v e c, (s.scope m.scope).record = .declarative bindings ∧ bindings.get? parameter = some b ∧
      b.Aliasable ∧ (s.object o).properties.get? name = some (.data v true e c) ∧
      s.getOwn? o name = some (.data b.value true e c) := by
  obtain ⟨⟨v, e, c, stored⟩, bindings, b, record, found, aliasable⟩ := (h.objects o).aliases m name parameter kind aliased
  refine ⟨bindings, b, v, e, c, record, found, aliasable, stored, ?_⟩
  rw [getOwn?_of_aliased stored kind aliased, parameterValue, record]
  dsimp only
  rw [found]
  rfl

theorem complete_getOwn? {o : ObjectRef} {name : String} {p : Property} (found : s.getOwn? o name = some p) :
    p.Complete := (h.holding.keepsProperty_getOwn? found).complete

end Store.WellFormed

end Ecma
