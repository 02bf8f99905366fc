import Ecma.Proofs.Agreement
import Ecma.Proofs.History

/-!
# The stack of contexts

Whatever finishes leaves the contexts exactly as it found them, also the scope that the running one looks names up in,
whether it ended with a value, a fault or a thrown value; and no context is entered beyond the limit of the host. This
holds from any store.
-/

namespace Ecma

/-- The store on which an action ended, with a value or by throwing. -/
inductive Outcome.Finishes {α : Type} : Outcome α → Store → Prop where
  | value (a : α) (t : Store) : Finishes (.value a t) t
  | abrupt (e : Abrupt) (t : Store) : Finishes (.abrupt e t) t

/-- An action that leaves the contexts as they were and stays within the limit, also where its budget runs out. -/
structure Action.Balanced {α : Type} (x : Action α) : Prop where
  restores : ∀ c s t, (x c s).Finishes t → t.contexts = s.contexts
  bounded : ∀ c s, s.depth ≤ c.maxCallDepth → ∀ t, .reached t ∈ x.path c s ∨ t = (x c s).store →
    t.depth ≤ c.maxCallDepth

/-- What finishes, finishes on the store of a world in which contexts and running generators are as they were. -/
theorem Law.Ends.finishes {L : Law} {α : Type} {limit : Nat} {w u : L.World} {Q : L.World → α → Prop} {o r : Outcome α}
    {t : Store} (h : L.Ends limit w Q u o r) (finishes : o.Finishes t) : L.left u = t ∧ L.Reached w u := by
  cases h with
  | value reached _ =>
    cases finishes
    exact ⟨rfl, reached⟩
  | abrupt reached _ =>
    cases finishes
    exact ⟨rfl, reached⟩
  | exhausted _ => cases finishes

namespace Agreement

/-- The world of two equal stores. -/
def diagonal (s : Store) : (Law.agreement none).World := ⟨(s, s), .refl s⟩

theorem balanced {α : Type} {x : Action α} {Q : (Law.agreement none).World → α → Prop}
    (h : ∀ c w, (Law.agreement none).Obeys c w x x Q) : x.Balanced := by
  refine ⟨fun c s t finishes => ?_, fun c s within t passed => ?_⟩
  · obtain ⟨_, _, ends⟩ := h c (diagonal s) fun _ _ _ => trivial
    obtain ⟨rfl, reached⟩ := ends.finishes finishes
    exact reached.contexts
  · obtain ⟨u, trail, ends⟩ := h c (diagonal s) fun _ _ _ => trivial
    have limit : (Law.agreement none).limit c (diagonal s) ≤ c.maxCallDepth := Nat.max_le.2 ⟨Nat.le_refl _, within⟩
    rcases passed with mem | rfl
    · obtain ⟨_, _, _, _, depth⟩ := trail.store mem
      exact Nat.le_trans depth limit
    · have last : (x c s).store = (Law.agreement none).left u := ends.store
      rw [last]
      exact Nat.le_trans ends.depth limit

end Agreement

/-- The operations of the runtime that may run code, by what they give. -/
inductive Operation : Type → Type 1 where
  | expression (e : Expr) : Operation Value
  | statement (labels : List String) (stmt : Stmt) : Operation Completion
  | statements (body : List Stmt) : Operation Completion
  | call (f this : Value) (args : List Value) : Operation Value
  | construct (f : Value) (args : List Value) : Operation Value
  | resume (g : GeneratorRef) : Operation Value
  | toPrimitive (v : Value) (hint : Hint) : Operation Value
  | toNumber (v : Value) : Operation Float
  | toInteger (v : Value) : Operation Float
  | toInt32 (v : Value) : Operation Int
  | toUint32 (v : Value) : Operation Nat
  | toUint16 (v : Value) : Operation Nat
  | toText (v : Value) : Operation Text
  | toName (v : Value) : Operation String
  | toObject (v : Value) : Operation ObjectRef

/-- Carries out an operation. -/
def Operation.action (E : Engine) : {α : Type} → Operation α → Action α
  | _, expression e => e.evaluate E
  | _, statement labels stmt => stmt.evaluate E labels
  | _, statements body => Stmt.evaluateList E body
  | _, call f this args => Ecma.call E f this args
  | _, construct f args => Ecma.construct E f args
  | _, resume g => g.resume E
  | _, toPrimitive v hint => v.toPrimitive E hint
  | _, toNumber v => v.toNumber E
  | _, toInteger v => v.toInteger E
  | _, toInt32 v => v.toInt32 E
  | _, toUint32 v => v.toUint32 E
  | _, toUint16 v => v.toUint16 E
  | _, toText v => v.toText E
  | _, toName v => v.toName E
  | _, toObject v => v.toObject

/-- Operations do the same on stores that agree. -/
theorem operation_obeys (n : Nat) {α : Type} (op : Operation α) (c : Config) (w : (Law.agreement none).World) :
    (Law.agreement none).Obeys c w (op.action (.ofBudget n)) (op.action (.ofBudget n)) (Law.agreement none).any := by
  have H : (Law.agreement none).Engines (.ofBudget n) (.ofBudget n) := Agreement.engines (Nat.le_refl n)
  cases op with
  | expression e => exact .weaken (Law.evaluate_obeys H)
  | statement labels stmt => exact .weaken (Law.evaluateStmt_obeys H Agreement.ready)
  | statements body => exact .weaken (Law.statements_obeys H Agreement.ready)
  | call f this args => exact .weaken (Law.call_obeys H trivial trivial fun _ _ => trivial)
  | construct f args => exact .weaken (Law.construct_obeys H trivial fun _ _ => trivial)
  | resume g => exact .weaken (Law.resume_obeys H)
  | toPrimitive v hint => exact .weaken (Law.toPrimitive_obeys H trivial)
  | toNumber v => exact .weaken (Law.toNumber_obeys H trivial)
  | toInteger v => exact .weaken (Law.toInteger_obeys H trivial)
  | toInt32 v => exact .weaken (Law.toInt32_obeys H trivial)
  | toUint32 v => exact .weaken (Law.toUint32_obeys H trivial)
  | toUint16 v => exact .weaken (Law.toUint16_obeys H trivial)
  | toText v => exact .weaken (Law.toText_obeys H trivial)
  | toName v => exact .weaken (Law.toName_obeys H trivial)
  | toObject v => exact .weaken (Law.toObject_obeys trivial)

theorem operation_balanced (n : Nat) {α : Type} (op : Operation α) : (op.action (.ofBudget n)).Balanced :=
  Agreement.balanced (operation_obeys n op)

namespace Machine

variable {m : Machine} {budget : Nat} {u : CodeUnit}

theorem contexts_runUnit (answered : (m.runUnit budget u).1 ≠ none) :
    (m.runUnit budget u).2.store.contexts = m.store.contexts := by
  obtain ⟨answer, found⟩ := Option.ne_none_iff_exists'.1 answered
  obtain ⟨s, run, store⟩ := answer_runUnit found
  have balanced := Agreement.balanced fun _ _ => Law.unit_obeys (Agreement.engines (Nat.le_refl budget)) u
  rw [store]
  exact balanced.restores m.config m.store s (run ▸ .value answer s)

theorem contexts_after {units : List (Nat × CodeUnit)} (answered : none ∉ m.answers units) :
    (m.after units).store.contexts = m.store.contexts := by
  induction units generalizing m with
  | nil => rfl
  | cons unit rest ih =>
    obtain ⟨now, later⟩ := not_or.1 (mt List.mem_cons.2 answered)
    exact (ih later).trans (contexts_runUnit (Ne.symm now))

theorem depth_of_mem_states {units : List (Nat × CodeUnit)} {s : Store} (within : m.store.depth ≤ m.config.maxCallDepth)
    (mem : s ∈ m.states units) : s.depth ≤ m.config.maxCallDepth := by
  induction units generalizing m with
  | nil =>
    rw [List.mem_singleton.1 mem]
    exact within
  | cons unit rest ih =>
    obtain ⟨budget, u⟩ := unit
    have balanced := Agreement.balanced fun _ _ => Law.unit_obeys (Agreement.engines (Nat.le_refl budget)) u
    have bounded := balanced.bounded m.config m.store within
    simp only [states, List.cons_append, List.mem_cons, List.mem_append, List.mem_filterMap] at mem
    rcases mem with rfl | ⟨moment, passed, found⟩ | later
    · exact within
    · cases moment with
      | raised | noted => cases found
      | reached t =>
        cases found
        exact bounded _ (.inl passed)
    · have next : (m.runUnit budget u).2.store.depth ≤ (m.runUnit budget u).2.config.maxCallDepth := by
        rw [config_runUnit]
        exact bounded _ (.inr store_runUnit)
      have found := ih next later
      rwa [config_runUnit] at found

end Machine

/-- Every operation that finishes leaves the stack of contexts exactly as it was, and enters no context beyond the limit
on its way. A machine stays within the limit whatever it runs, and has an empty stack whenever all of that has finished. -/
theorem contexts_restored :
    (∀ n {α : Type} (op : Operation α), (op.action (.ofBudget n)).Balanced) ∧
      ∀ config units, (∀ s ∈ (Machine.new config).states units, s.depth ≤ config.maxCallDepth) ∧
        (none ∉ (Machine.new config).answers units → ((Machine.new config).after units).store.contexts = []) := by
  refine ⟨fun n _ op => operation_balanced n op, fun config units => ⟨fun s mem => ?_, Machine.contexts_after⟩⟩
  have empty : (Machine.new config).store.depth ≤ (Machine.new config).config.maxCallDepth := Nat.zero_le _
  exact Machine.depth_of_mem_states empty mem

/-- A program that throws and catches leaves no context behind. -/
theorem contexts_restored_catch :
    ((Machine.new .standard).after [(4, .global ⟨[.tryCatch [.throws .null] (some ⟨"e", [.expr (.ident "e")]⟩) []],
      false⟩)]).store.contexts = [] := by
  have answered : ((Machine.new .standard).answers [(4, .global ⟨[.tryCatch [.throws .null]
      (some ⟨"e", [.expr (.ident "e")]⟩) []], false⟩)]).all Option.isSome = true := by decide +kernel
  exact (contexts_restored.2 .standard _).2 fun absent => nomatch List.all_eq_true.1 answered none absent

end Ecma
