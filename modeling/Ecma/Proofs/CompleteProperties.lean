import Ecma.Proofs.Closed

/-!
# Properties are complete and of one kind

What is stored for a property is a record any of whose fields may be absent. A request is laid over it one field after the
other, a change of kind resets some fields, and an index that stands for a parameter has its value overwritten without
regard to the rest. Two guards keep all that from leaving a mixed record: a request for both kinds at once is refused, and
an index that turned into an accessor stands for no parameter. Without the one or the other a complete record would be
spoilt. With both, whatever is stored in any store that a host can reach is complete, and so is whatever an object shows.
-/

namespace Ecma

namespace Descriptor

variable {d : Descriptor}

/-- All fields of one kind are there, and no other. -/
def isComplete (d : Descriptor) : Bool :=
  d.enumerable.isSome && d.configurable.isSome &&
    (d.value.isSome && d.writable.isSome && d.get.isNone && d.set.isNone ||
      d.get.isSome && d.set.isSome && d.value.isNone && d.writable.isNone)

/-- A record that has both kinds of fields is not complete. -/
theorem isComplete_of_isMixed (mixed : d.isMixed = true) : d.isComplete = false := by
  simp only [isMixed, isAccessor, isData, isComplete, ← Option.not_isSome] at *
  grind

end Descriptor

namespace Property

variable {p : Property} {d : Descriptor}

theorem Complete.isComplete (complete : p.Complete) : p.descriptor.isComplete = true := by cases complete <;> rfl

/-- Laying a request over a property keeps what the request has. -/
theorem isMixed_update (mixed : d.isMixed = true) : (p.update d).descriptor.isMixed = true := by
  simp only [Descriptor.isMixed, Descriptor.isAccessor, Descriptor.isData, update, Option.isSome_or] at *
  grind

/-- A change keeps a property complete just when it is not asked for both kinds at once. -/
theorem Complete.isComplete_update_convert (complete : p.Complete) :
    ((p.convert d).update d).descriptor.isComplete = !d.isMixed := by
  cases mixed : d.isMixed with
  | false => exact (complete.update_convert mixed).isComplete
  | true => exact Descriptor.isComplete_of_isMixed (isMixed_update mixed)

/-- The value of a parameter can be shown in place of what is stored just when that is data. -/
theorem Complete.isComplete_withValue (complete : p.Complete) (v : Value) :
    (p.withValue v).descriptor.isComplete = p.isData := by cases complete <;> rfl

end Property

theorem ObjectRef.define_mixed {E : Engine} {c : Config} {s : Store} {o : ObjectRef} {name : String} {d : Descriptor}
    {throw : Bool} (mixed : d.isMixed = true) : o.define E name d throw c s = .abrupt (.fault .mixedDescriptor) s := by
  show (d.check c s).bind _ = _
  rw [Descriptor.check, if_pos mixed]
  rfl

/-- Whatever a host makes, defines, assigns, deletes and runs on a new machine, all that is stored and shown of properties
is complete and of one kind, field by field, in every store that it or its code sees. Where an index stands for a
parameter, what is stored is complete with any value written into it. What a change would make of what is shown is
complete too just when it is asked for one kind, and a mixed request is refused before anything happens. -/
theorem properties_complete {config : Config} {calls : List (Nat × HostCall)}
    (provides : (Machine.new config).Provides calls) (s : Store)
    (reached : .reached s ∈ (Machine.new config).chronicle calls) (o : ObjectRef) (name : String) :
    (∀ p, (s.object o).properties.get? name = some p → p.descriptor.isComplete = true ∧
      ∀ m parameter, (s.object o).kind = .arguments (some m) → m.parameter? name = some parameter →
        ∀ v, (p.withValue v).descriptor.isComplete = true) ∧
      (∀ p, s.getOwn? o name = some p → p.descriptor.isComplete = true ∧
        ∀ d, ((p.convert d).update d).descriptor.isComplete = !d.isMixed) ∧
      ∀ E c d throw, d.isMixed = true → o.define E name d throw c s = .abrupt (.fault .mixedDescriptor) s := by
  have held := (Machine.closed_of_chronicle provides reached).holding
  refine ⟨fun p stored => ?_, fun p shown => ?_, fun E c d throw => ObjectRef.define_mixed⟩
  · have complete := (held.properties o name p stored).complete
    refine ⟨complete.isComplete, fun m parameter kind aliased v => ?_⟩
    rw [complete.isComplete_withValue]
    exact held.aliases o m name parameter p kind aliased stored
  · have complete := (held.keepsProperty_getOwn? shown).complete
    exact ⟨complete.isComplete, fun d => complete.isComplete_update_convert⟩

/-- A call, and then an accessor in place of its only argument. -/
def HostCall.accessorForArgument : List (Nat × HostCall) :=
  [(9, .request (.run (.global ⟨[.expr (.call (.function ⟨none, ["a"], [], false, false⟩) [.null])], false⟩))),
    (0, .request (.define ⟨59⟩ "0" { Descriptor.empty with get := some .undefined } false))]

/-- The index that stood for the parameter shows a complete accessor. -/
theorem properties_complete_accessor :
    ∃ s, .reached s ∈ (Machine.new .standard).chronicle HostCall.accessorForArgument ∧
      ∃ p, s.getOwn? ⟨59⟩ "0" = some p ∧ p.descriptor.get = some .undefined ∧ p.descriptor.isComplete = true := by
  have turned : ((Machine.new .standard).chronicle HostCall.accessorForArgument).any (fun moment =>
      moment.store?.any fun s => (s.getOwn? ⟨59⟩ "0").any fun p => p.descriptor.get = some .undefined) = true := by
    decide +kernel
  have provides : (Machine.new .standard).Provides HostCall.accessorForArgument := by
    refine ⟨List.forall_mem_nil _, List.forall_mem_cons.2 ⟨Store.holds_object (by decide +kernel), ?_⟩, trivial⟩
    exact List.forall_mem_cons.2 ⟨Store.holds_of_isPrimitive rfl, List.forall_mem_nil _⟩
  obtain ⟨moment, mem, turned⟩ := List.any_eq_true.1 turned
  obtain ⟨s, store, turned⟩ := (Option.any_eq_true ..).1 turned
  obtain ⟨p, shown, getter⟩ := (Option.any_eq_true ..).1 turned
  cases moment with
  | reached =>
    cases store
    exact ⟨s, mem, p, shown, of_decide_eq_true getter, ((properties_complete provides s mem _ _).2.1 p shown).1⟩
  | _ => cases store

end Ecma
