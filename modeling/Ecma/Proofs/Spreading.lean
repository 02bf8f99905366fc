import Ecma.Proofs.Assignment
import Ecma.Proofs.Description

/-!
# Arguments from an array

The methods `call` and `apply` of functions lead to one and the same call. For `call` the arguments are there as a list;
`apply` has to take them from an object, which it asks for its length and then for each index below that. An array that
was just made from a list answers with what it was made from, out of its own properties, and so no code runs before the
call. A length beyond the limit is refused before anything else is read.
-/

namespace Ecma

namespace Action.ActsAs

variable {α β : Type} {c : Config} {s : Store}

theorem trans {x y z : Action α} (first : x.ActsAs y c s) (second : y.ActsAs z c s) : x.ActsAs z c s :=
  ⟨first.run.trans second.run, first.path.trans second.path, first.sizes.trans second.sizes⟩

/-- An action that comes to nothing but a value may be left out. -/
theorem leave_out {x : Action β} {b : β} {next : β → Action α} {y : Action α} (first : x.ActsAs (pure b) c s)
    (rest : (next b).ActsAs y c s) : (x >>= next).ActsAs y c s := by
  have both : (x >>= next).ActsAs (pure b >>= next) c s := first.bind fun _ _ _ => .refl ..
  rw [pure_bind] at both
  exact both.trans rest

end Action.ActsAs

namespace Object

theorem get?_array_length (values : List Value) :
    (array values).properties.get? "length" = some (.data (.ofNat values.length) true false false) := rfl

/-- No index is in the way of the length, and no two indices have one name. -/
theorem get?_array_element {values : List Value} {i : Nat} {v : Value} (small : i < 4294967295)
    (element : values[i]? = some v) : (array values).properties.get? (Index.name i) = some (.plain v) := by
  have apart : (Index.name i == "length") = false := beq_false_of_ne (Index.name_ne_length small)
  show List.lookup (Index.name i) (("length", _) :: elements values) = _
  rw [List.lookup_cons, apart]
  exact lookup_elements element

end Object

namespace ObjectRef

variable {s : Store} {o : ObjectRef} {name : String} {v : Value} {values : List Value}

/-- Data of an array itself is read without any code, whatever the array inherits. -/
theorem get_array {w e configurable : Bool} (new : s.object o = .array values)
    (stored : (Object.array values).properties.get? name = some (.data v w e configurable)) (E : Engine) (c : Config) :
    (o.get E name).ActsAs (pure v) c s := by
  have own : s.getOwn? o name = some (.data v w e configurable) := by
    rw [Store.getOwn?_array (by rw [new]; rfl), new, stored]
  refine .read_bind ?_
  rw [Store.getProperty?_of_own own]
  exact .refl ..

/-- Reading indices one after the other gives the elements from there on, in order. -/
theorem readElements_array (new : s.object o = .array values) (few : values.length ≤ Builtin.maxArguments) (E : Engine)
    (c : Config) {before after : List Value} (split : values = before ++ after) :
    (o.readElements E after.length before.length before.reverse).ActsAs (pure values) c s := by
  -- The elements that were read are those before the index, and stand in reverse.
  induction after generalizing before with
  | nil =>
    show (pure before.reverse.reverse : Action (List Value)).ActsAs _ c s
    rw [List.reverse_reverse, split, List.append_nil]
    exact .refl ..
  | cons v after ih =>
    have element : values[before.length]? = some v := by rw [split, List.getElem?_append_right (Nat.le_refl _)]; simp
    have inside : before.length < values.length := (List.getElem?_eq_some_iff.1 element).1
    have small : before.length < 4294967295 := by
      have limit : Builtin.maxArguments = 65535 := rfl
      omega
    refine .leave_out (get_array new (Object.get?_array_element small element) E c) ?_
    have onward : values = (before ++ [v]) ++ after := by rw [split, List.append_assoc]; rfl
    have rest := ih onward
    rwa [List.length_append, List.reverse_append] at rest

end ObjectRef

namespace Builtin

variable {s : Store} {f this : Value} {values : List Value} {o : ObjectRef} {E : Engine} {c : Config}

/-- The arguments that `apply` takes from an array are those that the array was made from. -/
theorem argumentList_array (new : s.object o = .array values) (few : values.length ≤ maxArguments) :
    (argumentList E (.object o)).ActsAs (pure values) c s := by
  have small : values.length < 4294967296 := by
    have limit : maxArguments = 65535 := rfl
    omega
  have counted : ((Value.ofNat values.length).toUint32 E).ActsAs (pure values.length) c s := by
    rw [Value.toUint32, Value.toNumber_of_isPrimitive rfl, map_pure]
    exact ⟨congrArg (Outcome.value · s) (Number.toUint32_ofNat small), rfl, rfl⟩
  refine .leave_out (ObjectRef.get_array new (Object.get?_array_length values) E c) (.leave_out counted ?_)
  rw [if_neg (Nat.not_lt.2 few)]
  exact ObjectRef.readElements_array new few E c (List.nil_append values).symm

theorem functionApply_array (callable : s.isCallable f = true) (new : s.object o = .array values)
    (few : values.length ≤ maxArguments) :
    (functionApply E f [this, .object o]).ActsAs (E.call f this values) c s := by
  refine .read_bind ?_
  rw [if_pos callable]
  exact .leave_out (argumentList_array new few) (.refl ..)

/-- A length beyond the limit is refused when it has been converted. -/
theorem functionApply_of_long {length : Value} {count : Nat} {t u : Store} {more : List Value}
    (callable : s.isCallable f = true) (read : o.get E "length" c s = .value length t)
    (converted : length.toUint32 E c t = .value count u) (many : maxArguments < count) :
    (functionApply E f (this :: .object o :: more)).ActsAs
      (do let length ← o.get E "length"; let _ ← length.toUint32 E; .fail .tooManyArguments) c s := by
  refine .read_bind ?_
  rw [if_pos callable]
  show (argumentList E (.object o) >>= _).ActsAs _ c s
  rw [argumentList, bind_assoc]
  refine .bind (.refl ..) fun l t' read' => ?_
  cases read.symm.trans read'
  rw [bind_assoc]
  refine .bind (.refl ..) fun n u' converted' => ?_
  cases converted.symm.trans converted'
  rw [if_pos many]
  exact ⟨rfl, rfl, rfl⟩

end Builtin

section Methods

variable {s : Store} {f : Value} {method : ObjectRef} {n : Native} (E : Engine) (this : Value) (c : Config)

/-- Calling a native function carries it out. -/
theorem call_native (kind : (s.object method).kind = .function (.native n)) (args : List Value) :
    (call E (.object method) this args).ActsAs (n.apply E method this args) c s := by
  refine .read_bind ?_
  rw [kind]
  exact .refl ..

/-- A native function is what it was when another object is made. -/
theorem Store.kind_addObject (obj : Object) (kind : (s.object method).kind = .function (.native n)) :
    ((s.addObject obj).object method).kind = .function (.native n) := by
  have callable : s.isCallable (.object method) = true := by
    rw [isCallable, Object.isCallable, kind]
  rw [object_addObject_of_inside (inside_of_isCallable callable)]
  exact kind

/-- On a function, the method `call` with `this` and some arguments is the call with these arguments, from the same store.
The method `apply`, with the array that is made from at most 65535 arguments, is the call with these arguments too, from
the store that has the new array and is otherwise the same: every argument is passed once and in its place, and no code
runs before the call. With any object whose length converts to more than 65535, `apply` does nothing but to read and
convert the length, and ends with a range error. -/
theorem spread_as_passed (callable : s.isCallable f = true) :
    (∀ method args, (s.object method).kind = .function (.native .functionCall) →
      (call E (.object method) f (this :: args)).ActsAs (E.call f this args) c s) ∧
    (∀ method args, (s.object method).kind = .function (.native .functionApply) → args.length ≤ 65535 →
      (Action.newArray args).Does c s s.nextObject (s.addObject (.array args)) ∧
      (call E (.object method) f [this, .object s.nextObject]).ActsAs (E.call f this args) c
        (s.addObject (.array args))) ∧
    ∀ method o more length count t u, (s.object method).kind = .function (.native .functionApply) →
      o.get E "length" c s = .value length t → length.toUint32 E c t = .value count u → 65535 < count →
        (call E (.object method) f (this :: .object o :: more)).ActsAs
          (do let length ← o.get E "length"; let _ ← length.toUint32 E; .fail .tooManyArguments) c s ∧
        call E (.object method) f (this :: .object o :: more) c s = .abrupt (.fault .tooManyArguments) u ∧
        Fault.tooManyArguments.kind = .rangeError := by
  refine ⟨fun method args kind => ?_, fun method args kind few => ⟨⟨rfl, rfl⟩, ?_⟩, ?_⟩
  · exact call_native E f c kind (this :: args)
  · have applied := call_native E f c (Store.kind_addObject (.array args) kind) [this, .object s.nextObject]
    exact applied.trans (Builtin.functionApply_array (Store.isCallable_addObject callable)
      (Store.object_addObject_next s _) few)
  · intro method o more length count t u kind read converted many
    have refused := (call_native E f c kind (this :: .object o :: more)).trans
      (Builtin.functionApply_of_long callable read converted many)
    refine ⟨refused, ?_, rfl⟩
    rw [refused.run, Action.bind_run read, Action.bind_run converted]
    rfl

end Methods

/-- The store of a new machine with an object that says it has 65536 elements. -/
def Store.overlong : Store :=
  initial.addObject (.ordinary (some Intrinsic.objectPrototype.ref) [("length", .plain (.ofNat 65536))])

/-- `Object` is passed undefined and null, once as a list and once as an array, and then refused too many arguments. -/
theorem spread_as_passed_nullish :
    (call (.ofBudget 1) (.object Native.functionCall.ref) Native.object.value [.null, .undefined, .null]).ActsAs
      ((Engine.ofBudget 1).call Native.object.value .null [.undefined, .null]) .standard Store.overlong ∧
    (call (.ofBudget 1) (.object Native.functionApply.ref) Native.object.value [.null, .object ⟨58⟩]).ActsAs
      ((Engine.ofBudget 1).call Native.object.value .null [.undefined, .null]) .standard
      (Store.overlong.addObject (.array [.undefined, .null])) ∧
    call (.ofBudget 1) (.object Native.functionApply.ref) Native.object.value [.null, .object ⟨57⟩] .standard
      Store.overlong = .abrupt (.fault .tooManyArguments) Store.overlong := by
  have callable : Store.overlong.isCallable Native.object.value = true := by decide +kernel
  have next : Store.overlong.nextObject = ⟨58⟩ := by decide +kernel
  have read : ObjectRef.get (.ofBudget 1) ⟨57⟩ "length" .standard Store.overlong =
      .value (.ofNat 65536) Store.overlong := by rfl
  have converted : (Value.ofNat 65536).toUint32 (.ofBudget 1) .standard Store.overlong = .value 65536 Store.overlong := by
    rw [Value.toUint32_run rfl]
    exact congrArg (Outcome.value · _) (Number.toUint32_ofNat (by decide))
  obtain ⟨passed, spread, refused⟩ := spread_as_passed (.ofBudget 1) .null .standard callable
  refine ⟨passed _ _ rfl, ?_, ?_⟩
  · have applied := (spread Native.functionApply.ref [.undefined, .null] rfl (by decide)).2
    rwa [next] at applied
  · exact (refused _ _ _ _ _ _ _ rfl read converted (by decide)).2.1

end Ecma
