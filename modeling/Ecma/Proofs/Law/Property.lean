import Ecma.Proofs.Definition
import Ecma.Proofs.Law.Conversion
import Ecma.Proofs.Redefinition

/-!
# Defining properties obeys every law

`define`, assignment, and the requests that objects describe. What defining an index of an `arguments` object may do is
left to each law, since it is there that a property and a parameter change together, and so are the arrays that a law
watches, whose elements and length change together.
-/

namespace Ecma

namespace Law

variable {L : Law} {E E' : Engine} {c : Config} {w : L.World}

theorem permits_typeError {f : Fault} (kind : f.kind = .typeError) : L.permits f := by
  apply L.permits_kind
  rw [kind]
  decide

theorem unmixed_of_not_accessor {d : Descriptor} (h : d.isAccessor = false) : d.isMixed = false := by
  rw [Descriptor.isMixed, h, Bool.false_and]

theorem descriptor_empty : L.descriptor w .empty := ⟨option_none, option_none, option_none⟩

theorem descriptor_ofValue {v : Value} (known : L.value w v) : L.descriptor w (.ofValue v) :=
  ⟨option_some known, option_none, option_none⟩

theorem check_obeys {d : Descriptor} : L.Obeys c w d.check d.check fun _ _ => d.isMixed = false := by
  unfold Descriptor.check
  cases h : d.isMixed with
  | true => exact .fail (L.permits_kind (by decide))
  | false => exact .pure rfl

section Ordinary

variable {o : ObjectRef} {name : String} {d : Descriptor} {throw : Bool}

theorem defineOrdinary_obeys (known : L.descriptor w d) (unmixed : d.isMixed = false)
    (unaliased : L.unaliased w o name) (length : (L.left w).KeepsLength o name d) :
    L.Obeys c w (o.defineOrdinary name d throw) (o.defineOrdinary name d throw) L.any := by
  refine .read_bind (fun _ _ => by simp) ?_
  cases found : (L.left w).getOwn? o name with
  | none =>
    refine .read_bind (fun _ _ => by simp) ?_
    cases extensible : ((L.left w).object o).extensible with
    | true => exact .bind (.modify (.addProperty found extensible known unmixed unaliased) rfl rfl) fun _ _ _ _ => .pure trivial
    | false => exact .reject (L.permits_typeError rfl)
  | some p =>
    cases granted : p.redefine d name with
    | unchanged =>
      simp only [granted]
      exact .pure trivial
    | refused why =>
      simp only [granted]
      exact .reject (L.permits_typeError (Property.kind_of_refused granted))
    | changed q =>
      simp only [granted]
      exact .bind (.modify (.changeProperty found granted known unmixed unaliased length) rfl rfl) fun _ _ _ _ => .pure trivial

theorem delete_obeys : L.Obeys c w (o.delete name throw) (o.delete name throw) L.any := by
  refine .read_bind (fun _ _ => by simp) ?_
  cases found : (L.left w).getOwn? o name with
  | none => exact .pure trivial
  | some p =>
    cases configurable : p.configurable with
    | true =>
      simp only [configurable, if_true]
      exact .bind (.modify (.deleteProperty found configurable) rfl rfl) fun _ _ _ _ => .pure trivial
    | false =>
      simp only [configurable]
      exact .reject (L.permits_typeError rfl)

end Ordinary

section Array

variable {o : ObjectRef}

/-- Deleting elements stops at one of them, if anywhere. -/
theorem deleteElements_obeys (indices : List Nat) :
    L.Obeys c w (o.deleteElements indices) (o.deleteElements indices) fun _ stop => ∀ i, stop = some i → i ∈ indices := by
  induction indices generalizing w with
  | nil => exact .pure nofun
  | cons i rest ih =>
    refine .bind delete_obeys fun deleted _ _ _ => ?_
    cases deleted with
    | true => exact ih.mono fun _ _ _ among j stopped => List.mem_cons_of_mem i (among j stopped)
    | false => exact .pure fun j stopped => Option.some.inj stopped ▸ List.mem_cons_self ..

/-- All requests that shortening makes of the length are for data, and mention no other value than the one asked for or
a number. -/
theorem shorten_obeys {length : Nat} {d : Descriptor} {throw : Bool} (known : L.descriptor w d)
    (data : d.isAccessor = false) (unaliased : L.unaliased w o "length")
    (counted : ∀ v, d.value = some v → v.IsCount) :
    L.Obeys c w (o.shorten length d throw) (o.shorten length d throw) L.any := by
  have request {f : Descriptor} {u : L.World} (reached : L.Reached w u) (value : L.option u f.value)
      (get : f.get = d.get) (set : f.set = d.set) (counts : ∀ v, f.value = some v → v.IsCount) :
      L.Obeys c u (o.defineOrdinary "length" f false) (o.defineOrdinary "length" f false) L.any := by
    refine defineOrdinary_obeys ⟨value, ?_, ?_⟩ (unmixed_of_not_accessor ?_) (reached.unaliased unaliased)
      fun _ _ => counts
    · exact get ▸ reached.option known.2.1
    · exact set ▸ reached.option known.2.2
    · rw [Descriptor.isAccessor, get, set]
      exact data
  refine .bind (request (.refl w) ?_ ?_ ?_ ?_) fun defined u reached _ => ?_
  · split <;> exact known.1
  · split <;> rfl
  · split <;> rfl
  · split <;> exact counted
  cases defined with
  | false => exact .reject (L.permits_typeError rfl)
  | true =>
    refine .read_bind (fun _ _ => by simp) (.bind (deleteElements_obeys _) fun stop t later among => ?_)
    cases stop with
    | some i =>
      have small : i < 4294967295 := (((ObjectRef.elementsFrom_spec ..).2 i).1 (among i rfl)).2.1
      refine .bind (request (reached.trans later) ?_ ?_ ?_ ?_) fun _ _ _ _ => .reject (L.permits_typeError rfl)
      · split <;> exact option_some (L.primitive rfl)
      · split <;> rfl
      · split <;> rfl
      · split <;> exact fun v stopped => Option.some.inj stopped ▸ .beyond small
    | none =>
      have unasked (v : Value) (given : none = some v) : v.IsCount := by cases given
      dsimp only
      split
      · exact .bind (defineOrdinary_obeys descriptor_empty rfl
          ((reached.trans later).unaliased unaliased) fun _ _ => unasked) fun _ _ _ _ => .pure trivial
      · exact .pure trivial

/-- The length is converted before the array is looked at again, and its conversion may run code. -/
theorem defineLength_obeys (H : L.Engines E E') {d : Descriptor} {throw : Bool} (known : L.descriptor w d)
    (unmixed : d.isMixed = false) (unaliased : L.unaliased w o "length") :
    L.Obeys c w (o.defineLength E d throw) (o.defineLength E' d throw) L.any := by
  refine .read_bind (fun _ _ => by simp) ?_
  obtain ⟨old, writable⟩ := o.arrayLength (L.left w)
  cases asked : d.value with
  | none =>
    exact defineOrdinary_obeys known unmixed unaliased fun _ _ v given => nomatch asked.symm.trans given
  | some v =>
    have data : d.isAccessor = false := by
      simpa [Descriptor.isMixed, Descriptor.isData, asked] using unmixed
    have held : L.value w v := known.1 v asked
    refine .sizing_bind fun _ => .bind (toUint32_obeys H held) fun length u reached _ =>
      .bind (toNumber_obeys H (reached.value held)) fun x t later _ => ?_
    have both := reached.trans later
    have request : L.descriptor t { d with value := some (.ofNat length) } :=
      ⟨option_some (L.primitive rfl), both.option known.2.1, both.option known.2.2⟩
    have counted (v : Value) (given : some (.ofNat length) = some v) : v.IsCount := Option.some.inj given ▸ .counted length
    dsimp only
    split
    · exact .fail (L.permits_kind (by decide))
    split
    · exact defineOrdinary_obeys request (unmixed_of_not_accessor data) (both.unaliased unaliased) fun _ _ => counted
    split
    · exact shorten_obeys request data (both.unaliased unaliased) counted
    · exact .reject (L.permits_typeError rfl)

theorem defineElement_obeys {i : Nat} {name : String} {d : Descriptor} {throw : Bool} (known : L.descriptor w d)
    (unmixed : d.isMixed = false) (counted : L.unaliased w o "length") (unaliased : L.unaliased w o name)
    (index : Index.element? name = some i) :
    L.Obeys c w (o.defineElement i name d throw) (o.defineElement i name d throw) L.any := by
  refine .read_bind (fun _ _ => by simp) ?_
  obtain ⟨length, writable⟩ := o.arrayLength (L.left w)
  dsimp only
  split
  · exact .reject (L.permits_typeError rfl)
  obtain ⟨named, small⟩ := Index.element?_eq_some_iff.1 index
  have other : name ≠ "length" := named ▸ Index.name_ne_length small
  refine .bind (defineOrdinary_obeys known unmixed unaliased fun _ same => absurd same other) fun defined u reached _ => ?_
  cases defined with
  | false => exact .reject (L.permits_typeError rfl)
  | true =>
    simp only [if_true]
    split
    · exact .bind (defineOrdinary_obeys (descriptor_ofValue (L.primitive rfl)) rfl
        (reached.unaliased counted) fun _ _ v given => Option.some.inj given ▸ .beyond small) fun _ _ _ _ => .pure trivial
    · exact .pure trivial

theorem defineInArray_obeys (H : L.Engines E E') {name : String} {d : Descriptor} {throw : Bool}
    (known : L.descriptor w d) (unmixed : d.isMixed = false) (unaliased : ∀ name, L.unaliased w o name) :
    L.Obeys c w (o.defineInArray E name d throw) (o.defineInArray E' name d throw) L.any := by
  unfold ObjectRef.defineInArray
  split
  · exact defineLength_obeys H known unmixed (unaliased _)
  next other =>
    split
    next index => exact defineElement_obeys known unmixed (unaliased _) (unaliased _) index
    · exact defineOrdinary_obeys known unmixed (unaliased _) fun _ same => absurd same other

end Array

section Define

variable (H : L.Engines E E')
include H

theorem define_obeys {o : ObjectRef} {name : String} {d : Descriptor} {throw : Bool} (object : L.object w o)
    (known : L.descriptor w d) : L.Obeys c w (o.define E name d throw) (o.define E' name d throw) L.any := by
  refine .bind check_obeys fun _ u reached unmixed => .read_bind (fun _ _ => by simp) ?_
  have object := reached.object object
  have known := reached.descriptor known
  have unaliased (plain : ((L.left u).object o).kind ≠ .array)
      (other : ∀ m, ((L.left u).object o).kind ≠ .arguments (some m)) : L.unaliased u o name :=
    L.unaliased_of object plain fun m kind => absurd kind (other m)
  cases kind : ((L.left u).object o).kind with
  | array =>
    by_cases free : ∀ name, L.unaliased u o name
    · exact defineInArray_obeys H known unmixed free
    · exact H.arrays object kind free known unmixed
  | arguments mapped =>
    cases mapped with
    | none =>
      exact defineOrdinary_obeys known unmixed (unaliased (by simp [kind]) (by simp [kind])) (.of_kind (by simp [kind]))
    | some m => exact H.arguments object kind known unmixed
  | _ => exact defineOrdinary_obeys known unmixed (unaliased (by simp [kind]) (by simp [kind])) (.of_kind (by simp [kind]))

theorem put_obeys {o : ObjectRef} {name : String} {v : Value} {throw : Bool} (object : L.object w o)
    (known : L.value w v) : L.Obeys c w (o.put E name v throw) (o.put E' name v throw) L.any := by
  refine .read_bind (fun _ _ => by simp) ?_
  split
  · refine .read_bind (fun _ _ => by simp) ?_
    split
    · exact .bind (define_obeys H object (descriptor_ofValue known)) fun _ _ _ _ => .pure trivial
    · refine .read_bind (fun _ _ => by simp) ?_
      cases called : ((L.left w).getProperty? o name).bind (·.setter?) with
      | some setter =>
        obtain ⟨p, found, set⟩ := Option.bind_eq_some_iff.1 called
        exact .bind (H.call (L.setter (inherited found) set) object (values_singleton known)) fun _ _ _ _ =>
          .pure trivial
      | none =>
        exact .bind (define_obeys H object (property_data known)) fun _ _ _ _ =>
          .pure trivial
  split
  · exact .fail (L.permits_typeError rfl)
  · exact .pure trivial

theorem field_obeys {o : ObjectRef} {name : String} (object : L.object w o) :
    L.Obeys c w (Descriptor.field? E o name) (Descriptor.field? E' o name) L.option := by
  refine .read_bind (fun _ _ => by simp) ?_
  split
  · exact .map (get_obeys H object) fun _ _ _ post => option_some post
  · exact .pure option_none

theorem flag_obeys {o : ObjectRef} {name : String} (object : L.object w o) :
    L.Obeys c w (Descriptor.flag? E o name) (Descriptor.flag? E' o name) L.any :=
  .bind (field_obeys H object) fun _ _ _ _ => .pure trivial

theorem accessor_obeys {o : ObjectRef} {name : String} {otherwise : Fault} (object : L.object w o)
    (permitted : L.permits otherwise) :
    L.Obeys c w (Descriptor.accessor? E o name otherwise) (Descriptor.accessor? E' o name otherwise) L.option := by
  refine .bind (field_obeys H object) fun f u _ held => ?_
  cases f with
  | none => exact .pure held
  | some v =>
    refine .read_bind (fun _ _ => by simp) ?_
    split
    · exact .pure held
    · exact .fail permitted

theorem ofObject_obeys {o : ObjectRef} (object : L.object w o) :
    L.Obeys c w (Descriptor.ofObject E o) (Descriptor.ofObject E' o) L.descriptor := by
  refine .bind (flag_obeys H object) fun _ _ r₁ _ => ?_
  have object := r₁.object object
  refine .bind (flag_obeys H object) fun _ _ r₂ _ => ?_
  have object := r₂.object object
  refine .bind (field_obeys H object) fun _ _ r₃ value => ?_
  have object := r₃.object object
  refine .bind (flag_obeys H object) fun _ _ r₄ _ => ?_
  have object := r₄.object object
  refine .bind (accessor_obeys H object (L.permits_typeError rfl)) fun _ _ r₅ get => ?_
  refine .bind (accessor_obeys H (r₅.object object) (L.permits_typeError rfl)) fun _ _ r₆ set => ?_
  refine .bind check_obeys fun _ _ r₇ _ => .pure ⟨?_, ?_, ?_⟩
  · exact r₇.option (r₆.option (r₅.option (r₄.option value)))
  · exact r₇.option (r₆.option get)
  · exact r₇.option set

end Define

theorem description_obeys {d : Descriptor} (known : L.descriptor w d) :
    L.Obeys c w d.toObject d.toObject L.object := .alloc (.description known)

end Law

end Ecma
