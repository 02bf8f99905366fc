import Ecma.Proofs.Law.Primitive

/-!
# Conversions obey every law

Making objects, reading properties, converting values and applying operators. None of these changes the store but by
adding objects and by the code that getters and conversion methods run.
-/

namespace Ecma

namespace Law

variable {L : Law} {E E' : Engine} {c : Config} {w : L.World}

section Create

theorem newObject_obeys : L.Obeys c w Action.newObject Action.newObject L.object :=
  .alloc (.ordinary fun _ h => by cases h; exact L.intrinsic w .objectPrototype)

theorem newArray_obeys {values : List Value} (known : L.values w values) :
    L.Obeys c w (Action.newArray values) (Action.newArray values) L.object := .alloc (.array known)

theorem newError_obeys (kind : ErrorKind) (message : String) :
    L.Obeys c w (Action.newError kind message) (Action.newError kind message) L.object :=
  .alloc (.error _ (L.intrinsic w (.errorPrototype kind)))

theorem iteratorResult_obeys {v : Value} {done : Bool} (known : L.value w v) :
    L.Obeys c w (Action.iteratorResult v done) (Action.iteratorResult v done) L.value :=
  .map (.alloc (.iteratorResult done known)) fun _ _ _ post => post

theorem thrownValue_obeys {e : Abrupt} (known : L.abrupt w e) :
    L.Obeys c w e.thrownValue e.thrownValue L.value := by
  cases e with
  | thrown v => exact .pure known
  | fault f => exact .map (newError_obeys _ _) fun _ _ _ post => post

theorem toObject_obeys {v : Value} (known : L.value w v) : L.Obeys c w v.toObject v.toObject L.object := by
  cases v with
  | undefined => exact .fail (L.permits_kind (by decide))
  | null => exact .fail (L.permits_kind (by decide))
  | boolean b => exact .alloc (.boolean b)
  | number x => exact .alloc (.number x)
  | string t => exact .alloc (.string t)
  | object o => exact .pure known

theorem checkCoercible_obeys {v : Value} : L.Obeys c w v.checkCoercible v.checkCoercible L.any := by
  cases v with
  | undefined => exact .fail (L.permits_kind (by decide))
  | null => exact .fail (L.permits_kind (by decide))
  | _ => exact .pure trivial

end Create

section Read

variable (H : L.Engines E E')
include H

theorem getFor_obeys {o : ObjectRef} {name : String} {receiver : Value} (known : L.value w receiver) :
    L.Obeys c w (o.getFor E name receiver) (o.getFor E' name receiver) L.value := by
  refine .read_bind (fun _ _ => by simp) ?_
  cases found : (L.left w).getProperty? o name with
  | none => exact .pure (L.primitive rfl)
  | some p =>
    have held := inherited found
    cases accessor : p.isAccessor with
    | false =>
      simp only [accessor]
      exact .pure (content held)
    | true =>
      cases called : p.getter? with
      | some getter =>
        simp only [accessor, called]
        exact H.call (L.getter held called) known values_nil
      | none =>
        simp only [accessor, called]
        exact .pure (L.primitive rfl)

theorem get_obeys {o : ObjectRef} {name : String} (known : L.object w o) :
    L.Obeys c w (o.get E name) (o.get E' name) L.value := getFor_obeys H known

theorem firstPrimitive_obeys {o : ObjectRef} (known : L.object w o) (methods : List String) :
    L.Obeys c w (o.firstPrimitive E methods) (o.firstPrimitive E' methods) L.any := by
  induction methods generalizing w with
  | nil => exact .fail (L.permits_kind (by decide))
  | cons method rest ih =>
    refine .bind (get_obeys H known) fun f u reached held => .read_bind (fun _ _ => by simp) ?_
    cases (L.left u).isCallable f with
    | false => exact ih (reached.object known)
    | true =>
      refine .bind (H.call held (reached.object known) values_nil) fun v t later _ => ?_
      cases v.isPrimitive with
      | true => exact .pure trivial
      | false => exact ih (later.object (reached.object known))

theorem toPrimitive_obeys {v : Value} {hint : Hint} (known : L.value w v) :
    L.Obeys c w (v.toPrimitive E hint) (v.toPrimitive E' hint) L.any := by
  cases v with
  | object o => exact firstPrimitive_obeys H known _
  | _ => exact .pure trivial

theorem toNumber_obeys {v : Value} (known : L.value w v) : L.Obeys c w (v.toNumber E) (v.toNumber E') L.any :=
  .map (toPrimitive_obeys H known) fun _ _ _ _ => trivial

theorem toInteger_obeys {v : Value} (known : L.value w v) : L.Obeys c w (v.toInteger E) (v.toInteger E') L.any :=
  .map (toNumber_obeys H known) fun _ _ _ _ => trivial

theorem toInt32_obeys {v : Value} (known : L.value w v) : L.Obeys c w (v.toInt32 E) (v.toInt32 E') L.any :=
  .map (toNumber_obeys H known) fun _ _ _ _ => trivial

theorem toUint32_obeys {v : Value} (known : L.value w v) : L.Obeys c w (v.toUint32 E) (v.toUint32 E') L.any :=
  .map (toNumber_obeys H known) fun _ _ _ _ => trivial

theorem toUint16_obeys {v : Value} (known : L.value w v) : L.Obeys c w (v.toUint16 E) (v.toUint16 E') L.any :=
  .map (toNumber_obeys H known) fun _ _ _ _ => trivial

theorem toWord_obeys {v : Value} (known : L.value w v) : L.Obeys c w (v.toWord E) (v.toWord E') L.any :=
  .map (toNumber_obeys H known) fun _ _ _ _ => trivial

theorem toText_obeys {v : Value} (known : L.value w v) : L.Obeys c w (v.toText E) (v.toText E') L.any :=
  .map (toPrimitive_obeys H known) fun _ _ _ _ => trivial

theorem toName_obeys {v : Value} (known : L.value w v) : L.Obeys c w (v.toName E) (v.toName E') L.any :=
  .map (toText_obeys H known) fun _ _ _ _ => trivial

theorem abstractEquals_obeys {v other : Value} (left : L.value w v) (right : L.value w other) :
    L.Obeys c w (v.abstractEquals E other) (v.abstractEquals E' other) L.any := by
  have convert {o : ObjectRef} (held : L.object w o) (compare : Value → Bool) :
      L.Obeys c w (do return compare (← o.defaultValue E .default)) (do return compare (← o.defaultValue E' .default))
        L.any := .bind (firstPrimitive_obeys H held _) fun _ _ _ _ => .pure trivial
  cases v <;> cases other <;>
    first
    | exact .pure trivial
    | exact convert left _
    | exact convert right _

theorem compare_obeys {v other : Value} {leftFirst : Bool} (left : L.value w v) (right : L.value w other) :
    L.Obeys c w (v.compare E other leftFirst) (v.compare E' other leftFirst) L.any := by
  cases leftFirst with
  | true =>
    exact .bind (toPrimitive_obeys H left) fun _ _ reached _ =>
      .bind (toPrimitive_obeys H (reached.value right)) fun _ _ _ _ => .pure trivial
  | false =>
    exact .bind (toPrimitive_obeys H right) fun _ _ reached _ =>
      .bind (toPrimitive_obeys H (reached.value left)) fun _ _ _ _ => .pure trivial

theorem hasInstance_obeys {f : ObjectRef} {v : Value} (known : L.object w f) :
    L.Obeys c w (f.hasInstance E v) (f.hasInstance E' v) L.any := by
  cases v with
  | object o =>
    refine .bind (get_obeys H known) fun prototype u _ _ => ?_
    cases prototype with
    | object p => exact .read (fun _ _ => by simp) trivial
    | _ => exact .fail (L.permits_kind (by decide))
  | _ => exact .pure trivial

theorem numeric_obeys {f : Float → Float → Float} {v other : Value} (left : L.value w v) (right : L.value w other) :
    L.Obeys c w (BinaryOp.numeric E f v other) (BinaryOp.numeric E' f v other) L.value :=
  .bind (toNumber_obeys H left) fun _ _ reached _ =>
    .bind (toNumber_obeys H (reached.value right)) fun _ _ _ _ => .pure (L.primitive rfl)

theorem bitwise_obeys {f : BitVec 32 → BitVec 32 → BitVec 32} {v other : Value} (left : L.value w v)
    (right : L.value w other) : L.Obeys c w (BinaryOp.bitwise E f v other) (BinaryOp.bitwise E' f v other) L.value :=
  .bind (toWord_obeys H left) fun _ _ reached _ =>
    .bind (toWord_obeys H (reached.value right)) fun _ _ _ _ => .pure (L.primitive rfl)

theorem sum_obeys {v other : Value} (left : L.value w v) (right : L.value w other) :
    L.Obeys c w (BinaryOp.sum E v other) (BinaryOp.sum E' v other) L.value := by
  refine .bind (toPrimitive_obeys H left) fun a _ reached _ =>
    .bind (toPrimitive_obeys H (reached.value right)) fun b _ _ _ => ?_
  cases a <;> cases b <;> exact .pure (L.primitive rfl)

theorem apply_obeys {op : BinaryOp} {v other : Value} (left : L.value w v) (right : L.value w other) :
    L.Obeys c w (op.apply E v other) (op.apply E' v other) L.value := by
  have answer {α : Type} {x y : Action α} (f : α → Bool) (hx : L.Obeys c w x y L.any) :
      L.Obeys c w (do return .boolean (f (← x))) (do return .boolean (f (← y))) L.value :=
    .bind hx fun _ _ _ _ => .pure (L.primitive rfl)
  cases op with
  | add => exact sum_obeys H left right
  | sub | mul | div | mod => exact numeric_obeys H left right
  | leftShift | rightShift | bitAnd | bitOr | bitXor => exact bitwise_obeys H left right
  | unsignedRightShift =>
    exact .bind (toWord_obeys H left) fun _ _ reached _ =>
      .bind (toWord_obeys H (reached.value right)) fun _ _ _ _ => .pure (L.primitive rfl)
  | equal => exact answer id (abstractEquals_obeys H left right)
  | notEqual => exact answer (! ·) (abstractEquals_obeys H left right)
  | strictEqual | strictNotEqual => exact .pure (L.primitive rfl)
  | less => exact answer (· == some true) (compare_obeys H left right)
  | greater => exact answer (· == some true) (compare_obeys H right left)
  | lessEqual => exact answer (· == some false) (compare_obeys H right left)
  | greaterEqual => exact answer (· == some false) (compare_obeys H left right)
  | instanceOf =>
    cases other with
    | object f =>
      refine .read_bind (fun _ _ => by simp) ?_
      cases ((L.left w).object f).isCallable with
      | true => exact answer id (hasInstance_obeys H right)
      | false => exact .fail (L.permits_kind (by decide))
    | _ => exact .fail (L.permits_kind (by decide))
  | isIn =>
    cases other with
    | object o => exact .bind (toName_obeys H left) fun _ _ _ _ => .map_read (fun _ _ => by simp) (L.primitive rfl)
    | _ => exact .fail (L.permits_kind (by decide))

end Read

end Law

end Ecma
