import Ecma.Object.Write
import Ecma.Proofs.Redefinition

/-!
# Requests that are turned down

A request to define, assign or delete a property is made in one of two modes: where it is turned down, the caller is
given a fault or is not. The mode decides nothing else. Whatever code a request sets off runs in either mode, all that it
does stays done, and what goes wrong in it goes wrong in either mode.
-/

namespace Ecma

/-- How a request ends, first where the caller asked for no fault and then where it asked for one. -/
inductive Outcome.Reports : Outcome Bool → Outcome Bool → Prop where
  | granted (s : Store) : Reports (.value true s) (.value true s)
  | refused (s : Store) {f : Fault} (kind : f.kind = .typeError) : Reports (.value false s) (.abrupt (.fault f) s)
  | failed (e : Abrupt) (s : Store) : Reports (.abrupt e s) (.abrupt e s)
  | exhausted (s : Store) : Reports (.exhausted s) (.exhausted s)

/-- Where the caller asked for a fault, a request that gives an answer was granted, and so it was in the other mode. -/
theorem Outcome.Reports.granted_iff {x y : Outcome Bool} (h : x.Reports y) :
    ((∃ t, x = .value true t) ↔ ∃ done t, y = .value done t) ∧
      ((∃ t, y = .value true t) ↔ ∃ done t, y = .value done t) := by
  cases h with
  | granted t => exact ⟨⟨fun _ => ⟨true, t, rfl⟩, fun _ => ⟨t, rfl⟩⟩, fun _ => ⟨true, t, rfl⟩, fun _ => ⟨t, rfl⟩⟩
  | refused t => exact ⟨⟨nofun, nofun⟩, nofun, nofun⟩
  | failed e t => exact ⟨⟨nofun, nofun⟩, nofun, nofun⟩
  | exhausted t => exact ⟨⟨nofun, nofun⟩, nofun, nofun⟩

/-- Two actions that differ, from whatever store they start, in that the second gives a fault where the first gives
`false`. -/
def Action.Reports (x y : Action Bool) : Prop := ∀ c s, (x c s).Reports (y c s)

namespace Action.Reports

variable {α : Type}

theorem granted : (pure true : Action Bool).Reports (pure true) := fun _ s => .granted s

theorem fail {f : Fault} : (Action.fail f : Action Bool).Reports (Action.fail f) := fun _ s => .failed (.fault f) s

theorem reject {f : Fault} (kind : f.kind = .typeError) : (Action.reject false f).Reports (Action.reject true f) :=
  fun _ s => .refused s kind

/-- What comes first is done once and for all: only what follows it depends on the mode. -/
theorem bind {x : Action α} {f g : α → Action Bool} (next : ∀ a, (f a).Reports (g a)) : (x >>= f).Reports (x >>= g) := by
  intro c s
  show ((x c s).bind _).Reports ((x c s).bind _)
  cases x c s with
  | value a t => exact next a c t
  | abrupt e t => exact .failed e t
  | exhausted t => exact .exhausted t

theorem ite {p : Prop} [Decidable p] {x y x' y' : Action Bool} (yes : x.Reports y) (no : x'.Reports y') :
    (if p then x else x').Reports (if p then y else y') := by
  split
  · exact yes
  · exact no

end Action.Reports

namespace ObjectRef

variable {E : Engine} {o : ObjectRef} {name : String} {d : Descriptor}

open Ecma.Action (Reports)

theorem defineOrdinary_reports : (o.defineOrdinary name d false).Reports (o.defineOrdinary name d true) := by
  apply Reports.bind
  intro own
  cases own with
  | none =>
    apply Reports.bind
    intro extensible
    apply Reports.ite
    · exact .bind fun _ => .granted
    · exact .reject rfl
  | some p =>
    dsimp only
    cases change : p.redefine d name with
    | unchanged => exact .granted
    | changed q => exact .bind fun _ => .granted
    | refused why => exact .reject (Property.kind_of_refused change)

theorem delete_reports : (o.delete name false).Reports (o.delete name true) := by
  apply Reports.bind
  intro own
  cases own with
  | none => exact .granted
  | some p =>
    apply Reports.ite
    · exact .bind fun _ => .granted
    · exact .reject rfl

/-- Elements that stay are found, and the length set to match, before the mode matters. -/
theorem shorten_reports {length : Nat} : (o.shorten length d false).Reports (o.shorten length d true) := by
  apply Reports.bind
  intro shortened
  apply Reports.ite
  · apply Reports.bind
    intro elements
    apply Reports.bind
    intro stop
    cases stop with
    | some i => exact .bind fun _ => .reject rfl
    | none =>
      apply Reports.ite
      · exact .bind fun _ => .granted
      · exact .granted
  · exact .reject rfl

theorem defineLength_reports : (o.defineLength E d false).Reports (o.defineLength E d true) := by
  apply Reports.bind
  intro recorded
  dsimp only
  cases d.value with
  | none => exact defineOrdinary_reports
  | some v =>
    apply Reports.bind
    intro _
    apply Reports.bind
    intro length
    apply Reports.bind
    intro number
    apply Reports.ite
    · exact .fail
    · apply Reports.ite
      · exact defineOrdinary_reports
      · apply Reports.ite
        · exact shorten_reports
        · exact .reject rfl

theorem defineElement_reports {i : Nat} : (o.defineElement i name d false).Reports (o.defineElement i name d true) := by
  apply Reports.bind
  intro recorded
  apply Reports.ite
  · exact .reject rfl
  · apply Reports.bind
    intro defined
    apply Reports.ite
    · apply Reports.ite
      · exact .bind fun _ => .granted
      · exact .granted
    · exact .reject rfl

theorem defineInArray_reports : (o.defineInArray E name d false).Reports (o.defineInArray E name d true) := by
  apply Reports.ite
  · exact defineLength_reports
  · cases Index.element? name with
    | some i => exact defineElement_reports
    | none => exact defineOrdinary_reports

theorem defineInArguments_reports {m : ParameterMap} :
    (o.defineInArguments E m name d false).Reports (o.defineInArguments E m name d true) := by
  apply Reports.bind
  intro defined
  apply Reports.ite
  · cases m.parameter? name with
    | none => exact .granted
    | some parameter =>
      apply Reports.ite
      · exact .bind fun _ => .granted
      · cases d.value with
        | none =>
          apply Reports.ite
          · exact .bind fun _ => .granted
          · exact .granted
        | some v =>
          apply Reports.bind
          intro _
          apply Reports.ite
          · exact .bind fun _ => .granted
          · exact .granted
  · exact .reject rfl

theorem define_reports : (o.define E name d false).Reports (o.define E name d true) := by
  apply Reports.bind
  intro _
  apply Reports.bind
  intro kind
  cases kind with
  | array => exact defineInArray_reports
  | arguments m =>
    cases m with
    | some m => exact defineInArguments_reports
    | none => exact defineOrdinary_reports
  | _ => exact defineOrdinary_reports

/-- An assignment that says whether it was granted. To call a setter is to grant it. -/
def tryPut (E : Engine) (o : ObjectRef) (name : String) (v : Value) (throw : Bool) : Action Bool := do
  if ← .read (·.canPut o name) then
    if (← .read (·.getOwn? o name)).any (·.isData) then o.define E name (.ofValue v) throw
    else
      match (← .read (·.getProperty? o name)).bind (·.setter?) with
      | some setter =>
        let _ ← E.call (.object setter) (.object o) [v]
        pure true
      | none => o.define E name (Property.plain v).descriptor throw
  else .reject throw (.readOnlyProperty name)

/-- An assignment is one that keeps to itself whether it was granted. -/
theorem put_eq_tryPut (v : Value) (throw : Bool) :
    o.put E name v throw = (do let _ ← o.tryPut E name v throw) := by
  unfold put tryPut
  simp only [bind_assoc]
  refine congrArg _ (funext fun allowed => ?_)
  cases allowed with
  | false =>
    cases throw with
    | true => rfl
    | false => rfl
  | true =>
    simp only [if_true, bind_assoc]
    refine congrArg _ (funext fun own => ?_)
    split
    · simp
    · simp only [bind_assoc]
      refine congrArg _ (funext fun found => ?_)
      cases found.bind (·.setter?) with
      | some setter => simp
      | none => rfl

theorem tryPut_reports {v : Value} : (o.tryPut E name v false).Reports (o.tryPut E name v true) := by
  apply Reports.bind
  intro allowed
  apply Reports.ite
  · apply Reports.bind
    intro own
    apply Reports.ite
    · exact define_reports
    · apply Reports.bind
      intro found
      cases found.bind (·.setter?) with
      | some setter => exact .bind fun _ => .granted
      | none => exact define_reports
  · exact .reject rfl

/-- Whether the caller asks for a fault or not, a request to define, delete or assign a property of whatever object ends
in the same store: granted in both modes, or with the same failure in both, or turned down, and then a type error in the
one mode is no more than `false` in the other. An assignment that gives no fault keeps even that to itself. -/
theorem mode_only_reports (E : Engine) (o : ObjectRef) (name : String) :
    (∀ d, (o.define E name d false).Reports (o.define E name d true)) ∧
      (o.delete name false).Reports (o.delete name true) ∧
        ∀ v, (∀ throw, o.put E name v throw = (do let _ ← o.tryPut E name v throw)) ∧
          (o.tryPut E name v false).Reports (o.tryPut E name v true) :=
  ⟨fun _ => define_reports, delete_reports, fun v => ⟨put_eq_tryPut v, tryPut_reports⟩⟩

end ObjectRef

end Ecma
