import Ecma.Proofs.Law.Property

/-!
# Bindings and references obey every law

What code does to scopes: creating, setting, reading and deleting bindings, resolving names, and following references.
A name that was found in a declarative scope is still there when its reference is used, so no step of this meets a
binding that is missing.
-/

namespace Ecma

namespace Store

theorem record_withBindings {s : Store} {e : ScopeRef} (bindings : NameMap Binding) (h : e.index < s.scopes.size) :
    ((s.withBindings e bindings).scope e).record = .declarative bindings := by
  rw [scope, Store.withBindings, modifyScope, Array.getElem?_modify, if_pos rfl]
  simp [h]

end Store

/-- A reference that strict code may assign to. -/
def Reference.Checked (r : Reference) : Prop := r.isProperty = false → r.strict = true → ¬Restricted r.name

namespace Law

variable {L : Law} {E E' : Engine} {c : Config} {w : L.World} {e : ScopeRef} {strict : Bool} {name : String}

/-- A binding of this name can be made. -/
def absent (L : Law) (w : L.World) (e : ScopeRef) (name : String) : Prop :=
  ∀ bindings, ((L.left w).scope e).record = .declarative bindings → bindings.contains name = true →
    L.permits (.bindingExists name)

theorem absent_of_hasBinding (h : (L.left w).hasBinding e name = false) : L.absent w e name := by
  intro bindings record present
  have missing : bindings.contains name = false := by simpa only [Store.hasBinding, record] using h
  rw [present] at missing
  cases missing

/-- A name that was just bound. -/
theorem bound_withBindings {u : L.World} {bindings : NameMap Binding} {b : Binding} (known : L.scope w e strict)
    (le : L.le w u) (h : L.left u = (L.left w).withBindings e (bindings.insert name b)) : L.bound u e name := by
  rcases L.ranged with free | ranged
  · exact (free.2 u e name).1
  · refine L.found (L.scope_mono le known) ?_
    simp [h, Store.hasBinding, Store.record_withBindings _ (ranged known), NameMap.contains, NameMap.get?_insert]

section Declarative

variable {bindings : NameMap Binding} (record : ((L.left w).scope e).record = .declarative bindings)
include record

theorem createMutable_declarative {deletable : Bool} (absent : bindings.contains name = false)
    (allowed : L.declares w e deletable) :
    L.Obeys c w (e.createMutable E name deletable) (e.createMutable E' name deletable) fun u _ =>
      L.left u = (L.left w).withBindings e (bindings.insert name (.mutableOf deletable)) := by
  refine .read_bind (fun _ _ => by simp) ?_
  simp only [record, absent]
  exact .modify (.declare record absent allowed) rfl rfl

theorem setDeclarative_obeys {v : Value} (missing : bindings.get? name = none → L.permits (.bindingMissing name))
    (known : L.value w v) :
    L.Obeys c w (e.setDeclarative bindings name v strict) (e.setDeclarative bindings name v strict) fun u _ =>
      ∀ b, bindings.get? name = some b → b.mutable = true →
        L.left u = (L.left w).withBindings e (bindings.insert name { b with value := v }) := by
  unfold ScopeRef.setDeclarative
  cases found : bindings.get? name with
  | none => exact .fail (missing found)
  | some b =>
    dsimp only
    by_cases mutable : b.mutable = true
    · rw [if_pos mutable]
      refine .mono (.modify (.assign record found mutable known) rfl rfl) fun u _ _ post => ?_
      rintro _ ⟨⟩ _
      exact post
    · rw [if_neg mutable]
      split
      · exact .fail (L.permits_kind nofun)
      · refine .pure ?_
        rintro _ ⟨⟩ h
        exact absurd h mutable

end Declarative

/-- A binding that waits for its only value. -/
def pending (L : Law) (w : L.World) (e : ScopeRef) (name : String) : Prop :=
  (∀ f, L.permits f) ∨
    ∃ bindings, ((L.left w).scope e).record = .declarative bindings ∧ bindings.get? name = some .uninitialized

theorem pending_congr {u : L.World} (same : (L.left u).scope e = (L.left w).scope e) (h : L.pending w e name) :
    L.pending u e name := by
  rw [pending, same]
  exact h

theorem createImmutable_obeys (known : L.scope w e strict)
    (room : (∀ f, L.permits f) ∨
      ∃ bindings, ((L.left w).scope e).record = .declarative bindings ∧ bindings.contains name = false) :
    L.Obeys c w (e.createImmutable name) (e.createImmutable name) fun u _ => L.pending u e name := by
  refine .read_bind (fun _ _ => by simp) ?_
  rcases room with permits | ⟨bindings, record, absent⟩
  · cases record : ((L.left w).scope e).record with
    | declarative bindings =>
      cases present : bindings.contains name with
      | true =>
        simp only [present, if_true]
        exact .fail (permits _)
      | false =>
        simp only [present]
        exact .mono (.modify (.declareImmutable record present) rfl rfl) fun _ _ _ _ => .inl permits
    | object o provideThis => exact .fail (permits _)
  · simp only [record, absent]
    refine .mono (.modify (.declareImmutable record absent) rfl rfl) fun u _ _ left => ?_
    rcases L.ranged with free | ranged
    · exact .inl free.1
    have record' : ((L.left u).scope e).record = .declarative (bindings.insert name .uninitialized) := by
      rw [left]
      exact Store.record_withBindings _ (ranged known)
    exact .inr ⟨_, record', by rw [NameMap.get?_insert, if_pos rfl]⟩

theorem initializeImmutable_obeys {v : Value} (known : L.value w v) (pending : L.pending w e name) :
    L.Obeys c w (e.initializeImmutable name v) (e.initializeImmutable name v) L.any := by
  refine .read_bind (fun _ _ => by simp) ?_
  rcases pending with permits | ⟨bindings, record, found⟩
  · cases record : ((L.left w).scope e).record with
    | declarative bindings =>
      dsimp only
      cases found : bindings.get? name with
      | none => exact .fail (permits _)
      | some b =>
        dsimp only
        split
        case isTrue waits =>
          rw [Bool.and_eq_true, Bool.not_eq_true', Bool.not_eq_true'] at waits
          exact .weaken (.modify (.settle record found waits.1 waits.2 known) rfl rfl)
        case isFalse => exact .fail (permits _)
    | object o provideThis => exact .fail (permits _)
  · simp only [record, found]
    exact .weaken (.modify (.settle record found rfl rfl known) rfl rfl)

theorem deleteBinding_obeys (known : L.scope w e false) :
    L.Obeys c w (e.deleteBinding name) (e.deleteBinding name) L.any := by
  refine .read_bind (fun _ _ => by simp) ?_
  cases record : ((L.left w).scope e).record with
  | declarative bindings =>
    dsimp only
    cases found : bindings.get? name with
    | none => exact .pure trivial
    | some b =>
      dsimp only
      cases deletable : b.deletable with
      | true => exact .bind (.modify (.undeclare record found deletable known) rfl rfl) fun _ _ _ _ => .pure trivial
      | false => exact .pure trivial
  | object o provideThis => exact delete_obeys

theorem discarded_obeys : L.Obeys c w (Reference.discarded name strict) (Reference.discarded name strict) L.any := by
  cases strict with
  | true => exact .fail (L.permits_kind nofun)
  | false => exact .pure trivial

theorem checkTarget_obeys {r : Reference} : L.Obeys c w r.checkTarget r.checkTarget fun _ _ => r.Checked := by
  unfold Reference.checkTarget
  split
  · exact .fail (L.permits_kind nofun)
  next free =>
    refine .pure fun isName strict restricted => free ?_
    rw [strict, isName]
    rcases restricted with same | same
    · rw [same]
      rfl
    · rw [same]
      rfl

/-- All scopes around a scope are known if it is. -/
theorem scope_of_mem_scopesFrom {d : ScopeRef} {bound : Nat} (known : L.scope w e strict)
    (h : d ∈ (L.left w).scopesFrom bound e) : L.scope w d strict := by
  induction bound generalizing e with
  | zero => cases h
  | succ bound ih =>
    rw [Store.scopesFrom, List.mem_cons] at h
    rcases h with rfl | h
    · exact known
    · cases outer : ((L.left w).scope e).outer with
      | none => simp [outer] at h
      | some d' =>
        rw [outer, Option.map_some, Option.getD_some] at h
        exact ih (L.outer known outer) h

theorem reference_identifier (mode : L.mode w strict) (known : L.scope w e strict) :
    L.reference w (Reference.identifier (L.left w) (some e) name strict) := by
  unfold Reference.identifier
  cases found : (L.left w).resolve? e name with
  | none =>
    rw [Option.bind_some, found]
    exact mode
  | some d =>
    rw [Option.bind_some, found]
    have there := scope_of_mem_scopesFrom known (List.mem_of_find?_eq_some found)
    have binds : (L.left w).hasBinding d name = true :=
      List.find?_some (p := fun d => (L.left w).hasBinding d name) found
    exact ⟨there, L.found there binds, mode⟩

theorem resolveName_obeys : L.Obeys c w (resolveName name) (resolveName name) L.reference :=
  .isStrict_bind fun _ h => .read (fun _ _ => by simp) (reference_identifier h (scope_lexical h))

section Engine

variable (H : L.Engines E E')
include H

theorem createMutable_obeys {deletable : Bool} (known : L.scope w e strict) (absent : L.absent w e name)
    (allowed : L.declares w e deletable) :
    L.Obeys c w (e.createMutable E name deletable) (e.createMutable E' name deletable) fun u _ => L.bound u e name := by
  cases record : ((L.left w).scope e).record with
  | declarative bindings =>
    by_cases present : bindings.contains name = true
    · refine .read_bind (fun _ _ => by simp) ?_
      simp only [record, present, if_true]
      exact .fail (absent bindings record present)
    · exact .mono (createMutable_declarative record (Bool.eq_false_iff.2 present) allowed) fun _ _ reached post =>
        bound_withBindings known reached.le post
  | object o provideThis =>
    refine .read_bind (fun _ _ => by simp) ?_
    simp only [record]
    exact .bind (define_obeys H (L.record record) (property_data (L.primitive rfl))) fun _ _ reached _ =>
        .pure (L.bound_mono reached.le (L.bound_object (L.strict_scope known) record))

theorem setMutable_obeys {v : Value} (bound : L.bound w e name) (known : L.value w v) :
    L.Obeys c w (e.setMutable E name v strict) (e.setMutable E' name v strict) L.any := by
  refine .read_bind (fun _ _ => by simp) ?_
  cases record : ((L.left w).scope e).record with
  | declarative bindings => exact .weaken (setDeclarative_obeys record (L.missing bound record) known)
  | object o provideThis => exact put_obeys H (L.record record) known

theorem getBinding_obeys (bound : L.bound w e name) :
    L.Obeys c w (e.getBinding E name strict) (e.getBinding E' name strict) L.value := by
  refine .read_bind (fun _ _ => by simp) ?_
  cases record : ((L.left w).scope e).record with
  | declarative bindings =>
    dsimp only
    cases found : bindings.get? name with
    | none => exact .fail (L.missing bound record found)
    | some b =>
      dsimp only
      split
      · exact .pure (L.binding record found)
      split
      · exact .fail (L.permits_kind nofun)
      · exact .pure (L.primitive rfl)
  | object o provideThis =>
    refine .read_bind (fun _ _ => by simp) ?_
    split
    · exact get_obeys H (L.record record)
    split
    · exact .fail (L.permits_kind nofun)
    · exact .pure (L.primitive rfl)

theorem getValue_obeys {r : Reference} (known : L.reference w r) :
    L.Obeys c w (r.getValue E) (r.getValue E') L.value := by
  obtain ⟨base, name, strict⟩ := r
  cases base with
  | unresolvable => exact .fail (L.permits_kind nofun)
  | scope e => exact getBinding_obeys H known.2.1
  | value v => exact .bind (toObject_obeys known) fun _ _ reached _ => getFor_obeys H (reached.value known)

theorem putOnPrimitive_obeys {v other : Value} (known : L.value w v) (new : L.value w other) :
    L.Obeys c w (Reference.putOnPrimitive E v name other strict) (Reference.putOnPrimitive E' v name other strict)
      L.any := by
  refine .bind (toObject_obeys known) fun wrapper u reached _ => .read_bind (fun _ _ => by simp) ?_
  split
  · refine .read_bind (fun _ _ => by simp) ?_
    split
    · exact discarded_obeys
    refine .read_bind (fun _ _ => by simp) ?_
    cases called : ((L.left u).getProperty? wrapper name).bind (·.setter?) with
    | some setter =>
      obtain ⟨p, found, set⟩ := Option.bind_eq_some_iff.1 called
      exact .bind (H.call (L.setter (inherited found) set) (reached.value known) (values_singleton (reached.value new)))
        fun _ _ _ _ => .pure trivial
    | none => exact discarded_obeys
  · exact discarded_obeys

theorem assign_obeys {r : Reference} {head : Bool} {v : Value} (known : L.reference w r) (new : L.value w v)
    (checked : head = true ∨ r.Checked) : L.Obeys c w (r.assign E head v) (r.assign E' head v) L.any := by
  obtain ⟨base, name, strict⟩ := r
  have lawful (mode : L.mode w strict) (isName : (Reference.mk base name strict).isProperty = false) :
      L.lawful w (.assigns name head) := by
    intro ctx top strictly restricted
    exact checked.elim id fun checked => absurd restricted (checked isName ((mode ctx top).trans strictly))
  cases base with
  | unresolvable =>
    refine .note_bind (lawful known rfl) ?_
    cases strict with
    | true => exact .fail (L.permits_kind nofun)
    | false => exact put_obeys H (L.intrinsic w .global) new
  | scope e => exact .note_bind (lawful known.2.2 rfl) (setMutable_obeys H known.2.1 new)
  | value base =>
    cases base with
    | object o => exact put_obeys H known new
    | _ => exact putOnPrimitive_obeys H known new

theorem putValue_obeys {r : Reference} {v : Value} (known : L.reference w r) (checked : r.Checked) (new : L.value w v) :
    L.Obeys c w (r.putValue E v) (r.putValue E' v) L.any := assign_obeys H known new (.inr checked)

end Engine

theorem reference_delete_obeys {r : Reference} (known : L.reference w r) :
    L.Obeys c w r.delete r.delete L.any := by
  obtain ⟨base, name, strict⟩ := r
  cases base with
  | unresolvable =>
    cases strict with
    | true => exact .fail (L.permits_kind nofun)
    | false => exact .pure trivial
  | scope e =>
    cases strict with
    | true => exact .fail (L.permits_kind nofun)
    | false => exact deleteBinding_obeys known.1
  | value v => exact .bind (toObject_obeys known) fun _ _ _ _ => delete_obeys

theorem value_thisValue {r : Reference} (known : L.reference w r) : L.value w (r.thisValue (L.left w)) := by
  obtain ⟨base, name, strict⟩ := r
  cases base with
  | unresolvable => exact L.primitive rfl
  | scope e =>
    show L.value w ((L.left w).implicitThis e)
    unfold Store.implicitThis
    split
    next o record => exact L.record record
    next => exact L.primitive rfl
  | value v => exact known

end Law

end Ecma
