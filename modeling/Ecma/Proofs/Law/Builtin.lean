import Ecma.Proofs.Law.Declaration

/-!
# Built-in functions obey every law

One lemma for each of the functions that every program finds. They act on the store through properties alone, and
return primitives, new objects, or values they were given or read.
-/

namespace Ecma

namespace Law

variable {L : Law} {E E' : Engine} {c : Config} {w : L.World} {this : Value} {args : List Value}

theorem value_argument (known : L.values w args) (i : Nat) : L.value w (argument args i) := by
  unfold argument
  rw [List.getD_eq_getElem?_getD]
  cases found : args[i]? with
  | none => exact L.primitive rfl
  | some v => exact known v (List.mem_of_getElem? found)

theorem values_tail (known : L.values w args) : L.values w args.tail := fun v h => known v (List.mem_of_mem_tail h)

theorem requireObject_obeys {v : Value} {method : String} (known : L.value w v) :
    L.Obeys c w (v.requireObject method) (v.requireObject method) L.object := by
  cases v with
  | object o => exact .pure known
  | _ => exact .fail (L.permits_kind nofun)

theorem nameArray_obeys {names : List String} : L.Obeys c w (Action.nameArray names) (Action.nameArray names) L.value := by
  refine .map (newArray_obeys fun v h => ?_) fun _ _ _ post => post
  obtain ⟨name, _, rfl⟩ := List.mem_map.1 h
  exact L.primitive rfl

/-- Requests under names. -/
def requests (L : Law) (w : L.World) (ds : List (String × Descriptor)) : Prop := ∀ d ∈ ds, L.descriptor w d.2

section Object

theorem preventExtensions_obeys {o : ObjectRef} : L.Obeys c w o.preventExtensions o.preventExtensions L.any :=
  .weaken (.modify (.close o) rfl rfl)

theorem object_obeys (known : L.values w args) : L.Obeys c w (Builtin.object args) (Builtin.object args) L.value := by
  unfold Builtin.object
  dsimp only
  split
  · exact .map newObject_obeys fun _ _ _ post => post
  · exact .map (toObject_obeys (value_argument known 0)) fun _ _ _ post => post

theorem objectToString_obeys (known : L.value w this) :
    L.Obeys c w (Builtin.objectToString this) (Builtin.objectToString this) L.value := by
  cases this <;>
    first
    | exact .pure (L.primitive rfl)
    | exact .bind (toObject_obeys known) fun _ _ _ _ => .read (fun _ _ => by simp) (L.primitive rfl)

theorem isPrototypeOf_obeys (known : L.value w this) :
    L.Obeys c w (Builtin.isPrototypeOf this args) (Builtin.isPrototypeOf this args) L.value := by
  unfold Builtin.isPrototypeOf
  split
  · exact .bind (toObject_obeys known) fun _ _ _ _ => .read (fun _ _ => by simp) (L.primitive rfl)
  · exact .pure (L.primitive rfl)

theorem getPrototypeOf_obeys (known : L.values w args) :
    L.Obeys c w (Builtin.getPrototypeOf args) (Builtin.getPrototypeOf args) L.value := by
  refine .bind (requireObject_obeys (value_argument known 0)) fun o u _ _ => .read (fun _ _ => by simp) ?_
  cases found : ((L.left u).object o).prototype with
  | none => exact L.primitive rfl
  | some p => exact L.prototype found

theorem getOwnPropertyNames_obeys (known : L.values w args) :
    L.Obeys c w (Builtin.getOwnPropertyNames args) (Builtin.getOwnPropertyNames args) L.value :=
  .bind (requireObject_obeys (value_argument known 0)) fun _ _ _ _ => .read_bind (fun _ _ => by simp) nameArray_obeys

theorem keys_obeys (known : L.values w args) : L.Obeys c w (Builtin.keys args) (Builtin.keys args) L.value := by
  refine .bind (requireObject_obeys (value_argument known 0)) fun _ _ _ _ => .read_bind ?_ nameArray_obeys
  intro s gs
  simp only [Store.ownKeys_withGenerators]
  congr 1
  funext name
  exact Store.isEnumerable_withGenerators ..

theorem builtin_preventExtensions_obeys (known : L.values w args) :
    L.Obeys c w (Builtin.preventExtensions args) (Builtin.preventExtensions args) L.value :=
  .bind (requireObject_obeys (value_argument known 0)) fun _ _ _ object =>
    .bind preventExtensions_obeys fun _ _ reached _ => .pure (reached.object object)

theorem isRestricted_obeys {freeze : Bool} (known : L.values w args) :
    L.Obeys c w (Builtin.isRestricted args freeze) (Builtin.isRestricted args freeze) L.value :=
  .bind (requireObject_obeys (value_argument known 0)) fun _ _ _ _ => .read (fun _ _ => by simp) (L.primitive rfl)

theorem isExtensible_obeys (known : L.values w args) :
    L.Obeys c w (Builtin.isExtensible args) (Builtin.isExtensible args) L.value :=
  .bind (requireObject_obeys (value_argument known 0)) fun _ _ _ _ => .read (fun _ _ => by simp) (L.primitive rfl)

variable (H : L.Engines E E')
include H

theorem toDescriptor_obeys {v : Value} (known : L.value w v) :
    L.Obeys c w (v.toDescriptor E) (v.toDescriptor E') L.descriptor := by
  cases v with
  | object o => exact ofObject_obeys H known
  | _ => exact .fail (L.permits_kind nofun)

theorem readDescriptors_obeys {o : ObjectRef} (object : L.object w o) (names : List String) :
    L.Obeys c w (o.readDescriptors E names) (o.readDescriptors E' names) L.requests := by
  induction names generalizing w with
  | nil => exact .pure fun _ h => by cases h
  | cons name rest ih =>
    refine .read_bind (fun _ _ => by simp) ?_
    split
    · refine .bind (get_obeys H object) fun v u first held => .bind (toDescriptor_obeys H held) fun d t second known => ?_
      refine .bind (ih ((first.trans second).object object)) fun ds _ third others => .pure ?_
      exact List.forall_mem_cons.2 ⟨third.descriptor known, others⟩
    · exact ih object

theorem defineAll_obeys {o : ObjectRef} {ds : List (String × Descriptor)} (object : L.object w o)
    (known : L.requests w ds) : L.Obeys c w (o.defineAll E ds) (o.defineAll E' ds) L.any := by
  induction ds generalizing w with
  | nil => exact .pure trivial
  | cons d rest ih =>
    obtain ⟨head, tail⟩ := List.forall_mem_cons.1 known
    exact .bind (define_obeys H object head) fun _ _ reached _ =>
      ih (reached.object object) fun d h => reached.descriptor (tail d h)

theorem defineProperties_obeys {o : ObjectRef} {v : Value} (object : L.object w o) (known : L.value w v) :
    L.Obeys c w (o.defineProperties E v) (o.defineProperties E' v) L.any :=
  .bind (toObject_obeys known) fun _ _ first described => .read_bind (fun _ _ => by simp)
    (.bind (readDescriptors_obeys H described _) fun _ _ second ds =>
      defineAll_obeys H ((first.trans second).object object) ds)

theorem restrictAll_obeys {o : ObjectRef} {freeze : Bool} (object : L.object w o) (names : List String) :
    L.Obeys c w (o.restrictAll E freeze names) (o.restrictAll E' freeze names) L.any := by
  induction names generalizing w with
  | nil => exact .pure trivial
  | cons name rest ih =>
    refine .read_bind (fun _ _ => by simp) ?_
    cases (L.left w).getOwn? o name with
    | none => exact ih object
    | some p =>
      exact .bind (define_obeys H object descriptor_empty) fun _ _ reached _ => ih (reached.object object)

theorem restrict_obeys {o : ObjectRef} {freeze : Bool} (object : L.object w o) :
    L.Obeys c w (o.restrict E freeze) (o.restrict E' freeze) L.any :=
  .read_bind (fun _ _ => by simp) (.bind (restrictAll_obeys H object _) fun _ _ _ _ => preventExtensions_obeys)

theorem hasOwnProperty_obeys (receiver : L.value w this) (known : L.values w args) :
    L.Obeys c w (Builtin.hasOwnProperty E this args) (Builtin.hasOwnProperty E' this args) L.value :=
  .bind (toName_obeys H (value_argument known 0)) fun _ _ reached _ =>
    .bind (toObject_obeys (reached.value receiver)) fun _ _ _ _ => .read (fun _ _ => by simp) (L.primitive rfl)

theorem propertyIsEnumerable_obeys (receiver : L.value w this) (known : L.values w args) :
    L.Obeys c w (Builtin.propertyIsEnumerable E this args) (Builtin.propertyIsEnumerable E' this args) L.value :=
  .bind (toName_obeys H (value_argument known 0)) fun _ _ reached _ =>
    .bind (toObject_obeys (reached.value receiver)) fun _ _ _ _ => .read (fun _ _ => by simp) (L.primitive rfl)

theorem getOwnPropertyDescriptor_obeys (known : L.values w args) :
    L.Obeys c w (Builtin.getOwnPropertyDescriptor E args) (Builtin.getOwnPropertyDescriptor E' args) L.value := by
  refine .bind (requireObject_obeys (value_argument known 0)) fun o u reached _ =>
    .bind (toName_obeys H (reached.value (value_argument known 1))) fun name t _ _ => .read_bind (fun _ _ => by simp) ?_
  cases found : (L.left t).getOwn? o name with
  | none => exact .pure (L.primitive rfl)
  | some p => exact .map (description_obeys (L.own found)) fun _ _ _ post => post

theorem create_obeys (known : L.values w args) :
    L.Obeys c w (Builtin.create E args) (Builtin.create E' args) L.value := by
  have rest {u : L.World} (reached : L.Reached w u) {o : ObjectRef} (object : L.object u o) :
      L.Obeys c u
        (do unless (argument args 1).isUndefined do o.defineProperties E (argument args 1)
            pure (.object o))
        (do unless (argument args 1).isUndefined do o.defineProperties E' (argument args 1)
            pure (.object o)) L.value := by
    dsimp only
    split
    · exact .pure object
    · exact .bind (defineProperties_obeys H object (reached.value (value_argument known 1))) fun _ _ later _ =>
        .pure (later.object object)
  have parent := value_argument known 0
  unfold Builtin.create
  cases given : argument args 0 with
  | object p =>
    rw [given] at parent
    exact .bind (.alloc (.ordinary fun _ h => by cases h; exact parent)) fun _ _ reached object => rest reached object
  | null => exact .bind (.alloc (.ordinary nofun)) fun _ _ reached object => rest reached object
  | _ => exact .bind (.fail (L.permits_kind nofun)) fun _ _ reached object => rest reached object

theorem defineProperty_obeys (known : L.values w args) :
    L.Obeys c w (Builtin.defineProperty E args) (Builtin.defineProperty E' args) L.value := by
  refine .bind (requireObject_obeys (value_argument known 0)) fun o u first object => ?_
  refine .bind (toName_obeys H (first.value (value_argument known 1))) fun name t second _ => ?_
  refine .bind (toDescriptor_obeys H ((first.trans second).value (value_argument known 2))) fun d v third request => ?_
  refine .bind (define_obeys H ((second.trans third).object object) request) fun _ _ fourth _ => .pure ?_
  exact fourth.object ((second.trans third).object object)

theorem builtin_defineProperties_obeys (known : L.values w args) :
    L.Obeys c w (Builtin.defineProperties E args) (Builtin.defineProperties E' args) L.value :=
  .bind (requireObject_obeys (value_argument known 0)) fun _ _ first object =>
    .bind (defineProperties_obeys H object (first.value (value_argument known 1))) fun _ _ second _ =>
      .pure (second.object object)

theorem builtin_restrict_obeys {freeze : Bool} (known : L.values w args) :
    L.Obeys c w (Builtin.restrict E args freeze) (Builtin.restrict E' args freeze) L.value :=
  .bind (requireObject_obeys (value_argument known 0)) fun _ _ _ object =>
    .bind (restrict_obeys H object) fun _ _ reached _ => .pure (reached.object object)

end Object

section Function

theorem functionToString_obeys : L.Obeys c w (Builtin.functionToString this) (Builtin.functionToString this) L.value := by
  cases this with
  | object o =>
    refine .read_bind (fun _ _ => by simp) ?_
    split
    · exact .pure (L.primitive rfl)
    · exact .fail (L.permits_kind nofun)
  | _ => exact .fail (L.permits_kind nofun)

variable (H : L.Engines E E')
include H

theorem readElements_obeys {o : ObjectRef} {values : List Value} (object : L.object w o) (known : L.values w values)
    (count i : Nat) :
    L.Obeys c w (o.readElements E count i values) (o.readElements E' count i values) L.values := by
  induction count generalizing w i values with
  | zero => exact .pure fun v h => known v (List.mem_reverse.1 h)
  | succ count ih =>
    exact .bind (get_obeys H object) fun _ _ reached held =>
      ih (reached.object object) (values_cons held (reached.values known)) (i + 1)

theorem functionCall_obeys (receiver : L.value w this) (known : L.values w args) :
    L.Obeys c w (Builtin.functionCall E this args) (Builtin.functionCall E' this args) L.value :=
  H.call receiver (value_argument known 0) (values_tail known)

theorem argumentList_obeys {v : Value} (known : L.value w v) :
    L.Obeys c w (Builtin.argumentList E v) (Builtin.argumentList E' v) L.values := by
  cases v with
  | undefined => exact .pure values_nil
  | null => exact .pure values_nil
  | object o =>
    refine .bind (get_obeys H known) fun length u first held => .bind (toUint32_obeys H held) fun count t second _ => ?_
    split
    · exact .fail (L.permits_kind nofun)
    · exact readElements_obeys H ((first.trans second).object known) values_nil count 0
  | _ => exact .fail (L.permits_kind nofun)

theorem functionApply_obeys (receiver : L.value w this) (known : L.values w args) :
    L.Obeys c w (Builtin.functionApply E this args) (Builtin.functionApply E' this args) L.value := by
  refine .read_bind (fun _ _ => by simp) ?_
  split
  · exact .bind (argumentList_obeys H (value_argument known 1)) fun _ _ reached list =>
      H.call (reached.value receiver) (reached.value (value_argument known 0)) list
  · exact .fail (L.permits_kind nofun)

end Function

section Array

variable (H : L.Engines E E')
include H

theorem joinFrom_obeys {o : ObjectRef} {separator out : Text} (object : L.object w o) (count i : Nat) :
    L.Obeys c w (Builtin.joinFrom E o separator count i out) (Builtin.joinFrom E' o separator count i out) L.any := by
  induction count generalizing w i out with
  | zero => exact .pure trivial
  | succ count ih =>
    refine .bind (get_obeys H object) fun v u first held => .bind (Q := L.any) ?_ fun t _ second _ =>
      ih ((first.trans second).object object) (i + 1)
    unfold Builtin.elementText
    split
    · exact .pure trivial
    · exact toText_obeys H held

theorem arrayJoin_obeys (receiver : L.value w this) (known : L.values w args) :
    L.Obeys c w (Builtin.arrayJoin E this args) (Builtin.arrayJoin E' this args) L.value := by
  refine .bind (toObject_obeys receiver) fun o u first object => ?_
  refine .bind (get_obeys H object) fun length t second held => .bind (toUint32_obeys H held) fun count v third _ => ?_
  have object := (second.trans third).object object
  have separator := ((first.trans second).trans third).value (value_argument known 0)
  have join {x : L.World} (reached : L.Reached v x) (separator : Text) :
      L.Obeys c x (Value.string <$> Builtin.joinFrom E o separator count 0 [])
        (Value.string <$> Builtin.joinFrom E' o separator count 0 []) L.value :=
    .map (joinFrom_obeys H (reached.object object) count 0) fun _ _ _ _ => L.primitive rfl
  dsimp only
  split
  · exact join (.refl v) _
  · exact .bind (toText_obeys H separator) fun _ _ reached _ => join reached _

theorem arrayToString_obeys (receiver : L.value w this) :
    L.Obeys c w (Builtin.arrayToString E this) (Builtin.arrayToString E' this) L.value := by
  refine .bind (toObject_obeys receiver) fun o u first object =>
    .bind (get_obeys H object) fun join t second held => .read_bind (fun _ _ => by simp) ?_
  split
  · exact H.call held (second.object object) values_nil
  · exact .read (fun _ _ => by simp) (L.primitive rfl)

end Array

section Error

variable (H : L.Engines E E')
include H

theorem error_obeys {callee : ObjectRef} (object : L.object w callee) (known : L.values w args) :
    L.Obeys c w (Builtin.error E callee args) (Builtin.error E' callee args) L.value := by
  refine .bind (get_obeys H object) fun v u first held => ?_
  have make {t : L.World} (reached : L.Reached u t) (message : Option Text) :
      L.Obeys c t (Value.object <$> .alloc (.error (v.object?.getD (Intrinsic.errorPrototype .error).ref) message))
        (Value.object <$> .alloc (.error (v.object?.getD (Intrinsic.errorPrototype .error).ref) message)) L.value :=
    .map (.alloc (.error message (object_getD (reached.value held)))) fun _ _ _ post => post
  dsimp only
  split
  · exact make (.refl u) none
  · exact .bind (.map (R := L.any) (toText_obeys H (first.value (value_argument known 0))) fun _ _ _ _ => trivial)
      fun _ _ reached _ => make reached _

theorem textOr_obeys {o : ObjectRef} {name otherwise : String} (object : L.object w o) :
    L.Obeys c w (Builtin.textOr E o name otherwise) (Builtin.textOr E' o name otherwise) L.any := by
  refine .bind (get_obeys H object) fun v u _ held => ?_
  split
  · exact .pure trivial
  · exact toText_obeys H held

theorem errorToString_obeys (receiver : L.value w this) :
    L.Obeys c w (Builtin.errorToString E this) (Builtin.errorToString E' this) L.value := by
  cases this with
  | object o =>
    exact .bind (textOr_obeys H receiver) fun _ _ reached _ =>
      .bind (textOr_obeys H (reached.object receiver)) fun _ _ _ _ => .pure (L.primitive rfl)
  | _ => exact .fail (L.permits_kind nofun)

end Error

section Wrapper

theorem thisBoolean_obeys {method : String} :
    L.Obeys c w (Builtin.thisBoolean this method) (Builtin.thisBoolean this method) L.any := by
  refine .read_bind (fun _ _ => by simp) ?_
  split
  · exact .pure trivial
  · exact .fail (L.permits_kind nofun)

theorem thisNumber_obeys {method : String} :
    L.Obeys c w (Builtin.thisNumber this method) (Builtin.thisNumber this method) L.any := by
  refine .read_bind (fun _ _ => by simp) ?_
  split
  · exact .pure trivial
  · exact .fail (L.permits_kind nofun)

theorem thisText_obeys {method : String} :
    L.Obeys c w (Builtin.thisText this method) (Builtin.thisText this method) L.any := by
  refine .read_bind (fun _ _ => by simp) ?_
  split
  · exact .pure trivial
  · exact .fail (L.permits_kind nofun)

theorem booleanToString_obeys : L.Obeys c w (Builtin.booleanToString this) (Builtin.booleanToString this) L.value :=
  .bind thisBoolean_obeys fun _ _ _ _ => .pure (L.primitive rfl)

theorem booleanValueOf_obeys : L.Obeys c w (Builtin.booleanValueOf this) (Builtin.booleanValueOf this) L.value :=
  .map thisBoolean_obeys fun _ _ _ _ => L.primitive rfl

theorem numberToString_obeys (H : L.Engines E E') (known : L.values w args) :
    L.Obeys c w (Builtin.numberToString E this args) (Builtin.numberToString E' this args) L.value := by
  refine .bind thisNumber_obeys fun x u first _ => ?_
  dsimp only
  split
  · exact .bind (Q := L.any) (.pure trivial) fun _ _ _ _ =>
      .ite (fun _ => .pure (L.primitive rfl)) fun _ => .fail (L.permits_kind nofun)
  · exact .bind (toInteger_obeys H (first.value (value_argument known 0))) fun _ _ _ _ =>
      .ite (fun _ => .pure (L.primitive rfl)) fun _ => .fail (L.permits_kind nofun)

theorem numberValueOf_obeys : L.Obeys c w (Builtin.numberValueOf this) (Builtin.numberValueOf this) L.value :=
  .map thisNumber_obeys fun _ _ _ _ => L.primitive rfl

theorem stringToString_obeys : L.Obeys c w (Builtin.stringToString this) (Builtin.stringToString this) L.value :=
  .map thisText_obeys fun _ _ _ _ => L.primitive rfl

theorem stringValueOf_obeys : L.Obeys c w (Builtin.stringValueOf this) (Builtin.stringValueOf this) L.value :=
  .map thisText_obeys fun _ _ _ _ => L.primitive rfl

end Wrapper

end Law

end Ecma
