import Ecma.Proofs.Agreement

/-!
# Runs that emit values

A run that emits values on its way and then ends as an action does. One run is below another when it ran out of budget
with no more emitted than the other has at first, or when both emitted the same and ended alike, on stores that are
related: this is how runs with growing budgets approach a run without one.
-/

namespace Ecma

/-- What a run emitted, and how it ended. -/
structure Emission (α : Type) where
  emitted : List Value
  outcome : Outcome α

namespace Emission

variable {α β : Type}

/-- A run with values emitted before it. -/
def after (vs : List Value) (x : Emission α) : Emission α := ⟨vs ++ x.emitted, x.outcome⟩

/-- Goes on after a value. -/
protected def bind (x : Emission α) (f : α → Store → Emission β) : Emission β :=
  match x.outcome with
  | .value a s => (f a s).after x.emitted
  | .abrupt e s => ⟨x.emitted, .abrupt e s⟩
  | .exhausted s => ⟨x.emitted, .exhausted s⟩

/-- Changes the store, unless the budget ran out. -/
def cleaned (cleanup : Store → Store) (x : Emission α) : Emission α := ⟨x.emitted, x.outcome.cleaned cleanup⟩

theorem after_bind (vs : List Value) (x : Emission α) (f : α → Store → Emission β) :
    (x.after vs).bind f = (x.bind f).after vs := by
  obtain ⟨emitted, outcome⟩ := x
  cases outcome with
  | value a s => exact congrArg (Emission.mk · _) (List.append_assoc ..)
  | abrupt e s => rfl
  | exhausted s => rfl

/-- The budget of a run sufficed for no more than the first values of another, or the two ended alike. -/
inductive Below (R : Store → Store → Prop) : Emission α → Emission α → Prop where
  | exhausted {vs : List Value} {s : Store} {y : Emission α} (first : vs <+: y.emitted) : Below R ⟨vs, .exhausted s⟩ y
  | value {vs : List Value} {a : α} {s t : Store} (related : R s t) : Below R ⟨vs, .value a s⟩ ⟨vs, .value a t⟩
  | abrupt {vs : List Value} {e : Abrupt} {s t : Store} (related : R s t) :
    Below R ⟨vs, .abrupt e s⟩ ⟨vs, .abrupt e t⟩

namespace Below

variable {R R' R'' : Store → Store → Prop}

theorem same (x : Emission α) : x.Below Eq x := by
  obtain ⟨vs, outcome⟩ := x
  cases outcome with
  | value a s => exact .value rfl
  | abrupt e s => exact .abrupt rfl
  | exhausted s => exact .exhausted (List.prefix_refl _)

theorem trans {x y z : Emission α} (first : x.Below R y) (second : y.Below R' z)
    (compose : ∀ {s t u}, R s t → R' t u → R'' s u) : x.Below R'' z := by
  cases first with
  | exhausted first =>
    refine .exhausted (first.trans ?_)
    cases second with
    | exhausted later => exact later
    | value => exact List.prefix_refl _
    | abrupt => exact List.prefix_refl _
  | value related =>
    cases second with
    | value related' => exact .value (compose related related')
  | abrupt related =>
    cases second with
    | abrupt related' => exact .abrupt (compose related related')

theorem mono {x y : Emission α} (h : x.Below R y) (weaken : ∀ {s t}, R s t → R' s t) : x.Below R' y := by
  cases h with
  | exhausted first => exact .exhausted first
  | value related => exact .value (weaken related)
  | abrupt related => exact .abrupt (weaken related)

theorem after {x y : Emission α} (h : x.Below R y) (vs : List Value) : (x.after vs).Below R (y.after vs) := by
  cases h with
  | exhausted first => exact .exhausted ((List.prefix_append_right_inj vs).2 first)
  | value related => exact .value related
  | abrupt related => exact .abrupt related

theorem bind {x y : Emission α} {f g : α → Store → Emission β} (h : x.Below R y)
    (next : ∀ a s t, R s t → (f a s).Below R' (g a t)) (thrown : ∀ {s t}, R s t → R' s t) :
    (x.bind f).Below R' (y.bind g) := by
  cases h with
  | exhausted first =>
    refine .exhausted (first.trans ?_)
    unfold Emission.bind
    split
    · exact List.prefix_append ..
    · exact List.prefix_refl _
    · exact List.prefix_refl _
  | value related => exact (next _ _ _ related).after _
  | abrupt related => exact .abrupt (thrown related)

theorem cleaned {x y : Emission α} {cleanup : Store → Store} (h : x.Below R y)
    (clean : ∀ {s t}, R s t → R' (cleanup s) (cleanup t)) : (x.cleaned cleanup).Below R' (y.cleaned cleanup) := by
  cases h with
  | exhausted first => exact .exhausted first
  | value related => exact .value (clean related)
  | abrupt related => exact .abrupt (clean related)

theorem of_value {vs : List Value} {a : α} {s : Store} {y : Emission α}
    (h : (Emission.mk vs (.value a s)).Below R y) : ∃ t, y = ⟨vs, .value a t⟩ ∧ R s t := by
  cases h with
  | value related => exact ⟨_, rfl, related⟩

/-- No run emits anything that the other does not, and only one that ran out of budget emits less. -/
theorem emitted {x y : Emission α} (h : x.Below R y) :
    x.emitted <+: y.emitted ∧ (x.emitted = y.emitted ∨ ∃ s, x.outcome = .exhausted s) := by
  cases h with
  | exhausted first => exact ⟨first, .inr ⟨_, rfl⟩⟩
  | value => exact ⟨List.prefix_refl _, .inl rfl⟩
  | abrupt => exact ⟨List.prefix_refl _, .inl rfl⟩

end Below

/-- Runs with larger and larger budgets that approach the same. -/
structure SameLimit (R : Store → Store → Prop) (x y : Nat → Emission α) : Prop where
  forth : ∀ n, ∃ m, (x n).Below R (y m)
  back : ∀ n, ∃ m, (y n).Below R (x m)

theorem SameLimit.trans {R : Store → Store → Prop} {x y z : Nat → Emission α} (first : SameLimit Eq x y)
    (second : SameLimit R y z) : SameLimit R x z := by
  refine ⟨fun n => ?_, fun n => ?_⟩
  · obtain ⟨m, below⟩ := first.forth n
    obtain ⟨k, below'⟩ := second.forth m
    exact ⟨k, below.trans below' fun same related => same ▸ related⟩
  · obtain ⟨m, below⟩ := second.back n
    obtain ⟨k, below'⟩ := first.back m
    exact ⟨k, below.trans below' fun related same => same ▸ related⟩

end Emission

theorem Action.enterContext_of_room {ctx : Context} {c : Config} {s : Store} (room : s.depth < c.maxCallDepth) :
    Action.enterContext ctx c s = .value () (s.pushContext ctx) := if_neg (Nat.not_le.2 room)

/-- A computation that emits values. -/
def Emitter (α : Type) : Type := Config → Store → Emission α

namespace Emitter

variable {α β : Type}

instance : Monad Emitter where
  pure a := fun _ s => ⟨[], .value a s⟩
  bind x f := fun c s => (x c s).bind fun a s => f a c s

instance : LawfulMonad Emitter := LawfulMonad.mk' Emitter
  (fun x => by
    funext c s
    show (x c s).bind _ = x c s
    obtain ⟨vs, outcome⟩ := x c s
    cases outcome with
    | value a s => exact congrArg (Emission.mk · _) (List.append_nil vs)
    | abrupt e s => rfl
    | exhausted s => rfl)
  (fun _ _ => rfl)
  (fun x f g => by
    funext c s
    show ((x c s).bind _).bind _ = (x c s).bind _
    obtain ⟨vs, outcome⟩ := x c s
    cases outcome with
    | value a s => exact Emission.after_bind ..
    | abrupt e s => rfl
    | exhausted s => rfl)

/-- An action that emits nothing. -/
def lift (x : Action α) : Emitter α := fun c s => ⟨[], x c s⟩

theorem lift_bind (x : Action α) (f : α → Action β) : lift (x >>= f) = lift x >>= fun a => lift (f a) := by
  funext c s
  show Emission.mk [] ((x c s).bind _) = Emission.bind ⟨[], x c s⟩ _
  cases x c s <;> rfl

theorem lift_pure (a : α) : lift (pure a) = pure a := rfl

theorem lift_map (f : α → β) (x : Action α) : lift (f <$> x) = lift x >>= fun a => pure (f a) := by
  rw [map_eq_pure_bind, lift_bind]
  rfl

/-- Runs a computation, and then changes the store whether it succeeded or threw. -/
def ensuring (x : Emitter α) (cleanup : Store → Store) : Emitter α := fun c s => (x c s).cleaned cleanup

/-- Runs a computation in a context. -/
def inContext (ctx : Context) (x : Emitter α) : Emitter α := do
  lift (.enterContext ctx)
  x.ensuring Store.popContext

theorem lift_inContext (ctx : Context) (x : Action α) : lift (x.inContext ctx) = inContext ctx (lift x) := by
  rw [Action.inContext, lift_bind]
  rfl

/-- Where there is room for another context, it is entered. -/
theorem inContext_apply {ctx : Context} {x : Emitter α} {c : Config} {s : Store} (room : s.depth < c.maxCallDepth) :
    inContext ctx x c s = x.ensuring Store.popContext c (s.pushContext ctx) := by
  show Emission.bind ⟨[], Action.enterContext ctx c s⟩ _ = _
  rw [Action.enterContext_of_room room]
  rfl

/-- Emits a value. -/
def emit (v : Value) : Emitter Unit := fun _ s => ⟨[v], .value () s⟩

/-- Emits what a `yield` yields. -/
def yielding (E : Engine) : Option Expr → Emitter Unit
  | none => emit .undefined
  | some e => do emit (← lift (E.expr e))

/-- One computation is below another from every store. -/
def Below (x y : Emitter α) : Prop := ∀ c s, (x c s).Below Eq (y c s)

namespace Below

theorem refl (x : Emitter α) : x.Below x := fun _ _ => .same _

theorem trans {x y z : Emitter α} (first : x.Below y) (second : y.Below z) : x.Below z :=
  fun c s => (first c s).trans (second c s) Eq.trans

theorem bind {x y : Emitter α} {f g : α → Emitter β} (h : x.Below y) (next : ∀ a, (f a).Below (g a)) :
    (x >>= f).Below (y >>= g) := by
  intro c s
  refine (h c s).bind (fun a s t same => ?_) id
  rw [same]
  exact next a c t

theorem ensuring {x y : Emitter α} (h : x.Below y) (cleanup : Store → Store) :
    (x.ensuring cleanup).Below (y.ensuring cleanup) := fun c s => (h c s).cleaned (congrArg cleanup)

theorem inContext {x y : Emitter α} (h : x.Below y) (ctx : Context) :
    (x.inContext ctx).Below (y.inContext ctx) := .bind (.refl _) fun _ => h.ensuring _

theorem exhaust (x : Emitter α) : (lift .exhaust).Below x := fun _ _ => .exhausted (List.nil_prefix)

end Below

/-- From every store, some budget suffices for all that a computation does. -/
def Within (x : Emitter α) (family : Nat → Emitter α) : Prop := ∀ c s, ∃ budget, (x c s).Below Eq (family budget c s)

namespace Within

/-- It does not matter what else the budget is needed for. -/
theorem of_succ {x : Emitter α} {family : Nat → Emitter α} (h : x.Within fun budget => family (budget + 1)) :
    x.Within family := by
  intro c s
  obtain ⟨budget, below⟩ := h c s
  exact ⟨budget + 1, below⟩

theorem bind {x : Emitter α} {f : α → Emitter β} {family : Nat → α → Emitter β}
    (next : ∀ a, (f a).Within fun budget => family budget a) : (x >>= f).Within fun budget => x >>= family budget := by
  intro c s
  show ∃ budget, ((x c s).bind _).Below Eq ((x c s).bind _)
  generalize x c s = run
  obtain ⟨vs, outcome⟩ := run
  cases outcome with
  | value a t =>
    obtain ⟨budget, below⟩ := next a c t
    exact ⟨budget, below.after vs⟩
  | abrupt e t => exact ⟨0, .same _⟩
  | exhausted t => exact ⟨0, .same _⟩

end Within

/-- Goes round a loop at most as often as a budget allows. -/
def goRound (turn : Option Value → Emitter Turn) : (budget : Nat) → Option Value → Emitter Completion
  | 0, _ => lift .exhaust
  | budget + 1, last => do
    match ← turn last with
    | .again last => goRound turn budget last
    | .leave c => pure c

/-- One turn of a `while` loop. -/
def whileTurn (E : Engine) (test : Expr) (body : Emitter Completion) (last : Option Value) : Emitter Turn := do
  if (← lift (E.expr test)).toBoolean then return (← body).turn [] last else pure (.leave (.normal last))

/-- A `while` loop and what follows it, one turn ahead. -/
theorem goRound_while (E : Engine) (test : Expr) (body : Emitter Completion) (budget : Nat) (last : Option Value)
    (k : Completion → Emitter β) :
    goRound (whileTurn E test body) (budget + 1) last >>= k = lift (E.expr test) >>= fun v =>
      if v.toBoolean then body >>= fun c =>
        match c.turn [] last with
        | .again last => goRound (whileTurn E test body) budget last >>= k
        | .leave c => k c
      else k (.normal last) := by
  rw [goRound, whileTurn, bind_assoc, bind_assoc]
  refine bind_congr fun v => ?_
  split
  · rw [bind_assoc]
    refine bind_congr fun c => ?_
    rw [pure_bind]
    cases c.turn [] last <;> rfl
  · rw [pure_bind, pure_bind]

end Emitter

theorem Store.AgreeBut.eq {s t : Store} (h : Store.AgreeBut none s t) : t = s := by
  have generators : t.generators = s.generators := Array.ext_getElem? fun i => h.apart ⟨i⟩ nofun
  rw [h.same, generators]
  rfl

theorem Engine.budget_ofBudget (n : Nat) : (Engine.ofBudget n).budget = n := by cases n <;> rfl

/-- An engine that is given a larger budget does all that it did. -/
structure Engine.Below (E E' : Engine) : Prop where
  budget : E.budget ≤ E'.budget
  expr : ∀ e, (Emitter.lift (E.expr e)).Below (.lift (E'.expr e))
  stmt : ∀ labels stmt, (Emitter.lift (E.stmt labels stmt)).Below (.lift (E'.stmt labels stmt))

/-- What became of two stores that agree but for a generator. -/
structure Agreement.Later (g : Option GeneratorRef) (s t s' t' : Store) : Prop where
  agree : s'.AgreeBut g t'
  left : Leaves g s s'
  right : Leaves g t t'
  contexts : s'.contexts = s.contexts

/-- Two runs from stores that agree, of which the second has the larger budget. -/
theorem Emission.below_of_obeys {α : Type} {g : Option GeneratorRef} {c : Config} {s t : Store} {x y : Action α}
    {Q : (Law.agreement g).World → α → Prop} (agree : s.AgreeBut g t)
    (h : (Law.agreement g).Obeys c ⟨(s, t), agree⟩ x y Q) :
    (Emission.mk [] (x c s)).Below (Agreement.Later g s t) ⟨[], y c t⟩ := by
  obtain ⟨u, _, ends⟩ := h fun _ _ _ => trivial
  change (Law.agreement g).Ends _ _ _ u (x c s) (y c t) at ends
  generalize x c s = first at ends ⊢
  generalize y c t = second at ends ⊢
  cases ends with
  | value reached => exact .value ⟨u.2, reached.1.1, reached.1.2, reached.2⟩
  | abrupt reached => exact .abrupt ⟨u.2, reached.1.1, reached.1.2, reached.2⟩
  | exhausted => exact .exhausted List.nil_prefix

theorem Emitter.below_of_obeys {α : Type} {x y : Action α} {Q : (Law.agreement none).World → α → Prop}
    (h : ∀ c w, (Law.agreement none).Obeys c w x y Q) : (lift x).Below (lift y) :=
  fun c s => (Emission.below_of_obeys (.refl s) (h c _)).mono fun later => later.agree.eq.symm

theorem Engine.below_ofBudget {n m : Nat} (le : n ≤ m) : (Engine.ofBudget n).Below (.ofBudget m) :=
  have engines : (Law.agreement none).Engines (.ofBudget n) (.ofBudget m) := Agreement.engines le
  ⟨engines.budget, fun _ => Emitter.below_of_obeys fun _ _ => engines.expr,
    fun _ _ => Emitter.below_of_obeys fun _ _ => engines.stmt Agreement.ready⟩

end Ecma
