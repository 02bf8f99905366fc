import Ecma.Proofs.Generator.Drain

/-!
# Generators do what their bodies say

A generator that is driven again whenever it stops, and its queue as it is worked through without a stop. The statements
of the body see the same in both, as no code can tell that their stores differ in the queue. So a generator yields and
returns what its body emits and ends with.
-/

namespace Ecma

/-- A step is done alike on stores that agree. -/
theorem effect_obeys {g : Option GeneratorRef} {c : Config} {w : (Law.agreement g).World} {E E' : Engine}
    (engines : (Law.agreement g).Engines E E') (stmt : Stmt) :
    (Law.agreement g).Obeys c w (GeneratorStep.effect E stmt) (GeneratorStep.effect E' stmt) (Law.agreement g).any := by
  cases stmt with
  | yields value =>
    cases value with
    | none => exact .pure trivial
    | some e => exact engines.expr.map fun _ _ _ _ => trivial
  | block body => exact .pure trivial
  | ifElse test consequent alternate => exact engines.expr.map fun _ _ _ _ => trivial
  | whileLoop test body => exact engines.expr.map fun _ _ _ _ => trivial
  | _ => exact (engines.stmt Agreement.ready).map fun _ _ _ _ => trivial

/-- The store that the statements of a generator see, and the one that holds its queue. -/
structure Tracks (g : GeneratorRef) (contexts : List Context) (steps : List GeneratorStep) (s t : Store) : Prop where
  agree : s.AgreeBut (some g) t
  contexts : s.contexts = contexts
  queue : t.queue g = steps

namespace Tracks

variable {g : GeneratorRef} {contexts : List Context} {steps : List GeneratorStep} {s t : Store}

theorem setQueue (h : Tracks g contexts steps s t) (others : List GeneratorStep) :
    Tracks g contexts others s (t.setQueue g others) := by
  obtain ⟨gen, gen', found, found', status, status', context⟩ := h.agree.running g rfl
  have now : (t.setQueue g others).generator? g = some { gen' with steps := others } := by
    rw [t.generator?_setQueue, found', Option.map_some]
  refine ⟨⟨?_, ?_, fun other away => ?_, fun own set => ?_⟩, h.contexts, ?_⟩
  · rw [h.agree.same]
    rfl
  · rw [← h.agree.size]
    exact Array.size_modify
  · have different : g.index ≠ other.index := fun same => away (by cases g; cases other; simp_all)
    rw [← h.agree.apart other away, Store.generator?, Store.setQueue, Store.modifyGenerator, Array.getElem?_modify,
      if_neg different]
    rfl
  · cases set
    exact ⟨gen, _, found, now, status, status', context⟩
  · rw [Store.queue, now]
    rfl

theorem popped (h : Tracks g contexts steps s t) : s.popContext.AgreeBut (some g) t.popContext :=
  h.agree.change (F := Store.popContext) (fun _ _ => rfl) fun _ => rfl

/-- A generator that stopped at a `yield` is where it was when it is driven again. -/
theorem pushContext_popContext {ctx : Context} {base : List Context} (h : Tracks g (ctx :: base) steps s t) :
    t.popContext.pushContext ctx = t := by
  have now : t.contexts = ctx :: base := h.agree.contexts.trans h.contexts
  rw [Store.popContext, Store.pushContext, now]
  show { t with contexts := ctx :: base } = t
  rw [← now]

theorem room {c : Config} {ctx : Context} {base : List Context} (h : Tracks g (ctx :: base) steps s t)
    (room : base.length < c.maxCallDepth) : t.popContext.depth < c.maxCallDepth := by
  rw [Store.depth, Store.popContext, h.agree.contexts, h.contexts]
  exact room

/-- Where a generator sets out. -/
theorem start {gen : Generator} (found : s.generator? g = some gen) (running : gen.status = .running) (ctx : Context) :
    Tracks g (ctx :: s.contexts) gen.steps (s.pushContext ctx) (s.pushContext ctx) where
  agree := ⟨rfl, rfl, fun _ _ => rfl, fun own set => by cases set; exact ⟨gen, gen, found, found, running, running, rfl⟩⟩
  contexts := rfl
  queue := by
    show ((s.generator? g).map (·.steps)).getD [] = gen.steps
    rw [found]
    rfl

theorem queue_of_leaves {t' : Store} (h : Tracks g contexts steps s t) (leaves : Agreement.Leaves (some g) t t') :
    t'.queue g = steps := by
  obtain ⟨_, gen, _, found, _⟩ := h.agree.running g rfl
  rw [← h.queue, Store.queue, Store.queue, leaves g rfl gen found, found]

variable {c : Config} {n m : Nat}

theorem effect (h : Tracks g contexts steps s t) (le : n ≤ m) (stmt : Stmt) :
    (Emission.mk [] (GeneratorStep.effect (.ofBudget n) stmt c s)).Below (Tracks g contexts steps)
      ⟨[], GeneratorStep.effect (.ofBudget m) stmt c t⟩ :=
  (Emission.below_of_obeys h.agree (effect_obeys (Agreement.engines le) stmt)).mono fun later =>
    ⟨later.agree, later.contexts.trans h.contexts, h.queue_of_leaves later.right⟩

/-- The same the other way round. -/
theorem effect_back (h : Tracks g contexts steps s t) (le : n ≤ m) (stmt : Stmt) :
    (Emission.mk [] (GeneratorStep.effect (.ofBudget n) stmt c t)).Below (fun t s => Tracks g contexts steps s t)
      ⟨[], GeneratorStep.effect (.ofBudget m) stmt c s⟩ :=
  (Emission.below_of_obeys h.agree.symm (effect_obeys (Agreement.engines le) stmt)).mono fun later =>
    ⟨later.agree.symm, later.agree.contexts.trans (later.contexts.trans (h.agree.contexts.trans h.contexts)),
      h.queue_of_leaves later.left⟩

end Tracks

section Simulation

variable {g : GeneratorRef} {ctx : Context} {base : List Context} {c : Config} {n m : Nat}

/-- The queue does nothing that the generator does not do when it is driven on and on. -/
theorem flow_below_carryOn (le : n ≤ m) (room : base.length < c.maxCallDepth) {budget allowance rounds : Nat}
    {steps : List GeneratorStep} {s t : Store} (enough : budget ≤ m) (allowed : budget ≤ allowance)
    (often : budget ≤ rounds) (tracks : Tracks g (ctx :: base) steps s t) :
    ((flow (.ofBudget n) budget steps).ensuring Store.popContext c s).Below (Store.AgreeBut (some g))
      (g.carryOn (.ofBudget m) ctx allowance rounds c t) := by
  induction budget generalizing allowance rounds steps s t with
  | zero => exact .exhausted List.nil_prefix
  | succ budget ih =>
    obtain ⟨allowance, rfl⟩ : ∃ k, allowance = k + 1 := ⟨allowance - 1, by omega⟩
    obtain ⟨rounds, rfl⟩ : ∃ k, rounds = k + 1 := ⟨rounds - 1, by omega⟩
    cases steps with
    | nil =>
      rw [GeneratorRef.carryOn_nil tracks.queue]
      exact .value tracks.popped
    | cons step rest =>
      rw [flow_resolve, GeneratorRef.carryOn_resolve tracks.queue]
      refine resolve_below ((tracks.setQueue rest).effect le step.stmt) (fun h => h.queue.symm)
        (fun steps h => ih (by omega) (by omega) (by omega) (h.setQueue steps)) (fun {s t} h => ?_) fun h => h.popped
      rw [GeneratorRef.drain_succ (h.room room), h.pushContext_popContext, Engine.budget_ofBudget]
      exact ih (by omega) (by omega) (by omega) h

/-- However often the generator is driven on, it does nothing that the queue does not do. -/
theorem carryOn_below_flow (le : n ≤ m) (room : base.length < c.maxCallDepth) {budget allowance rounds : Nat}
    {steps : List GeneratorStep} {s t : Store} (enough : allowance + rounds * n ≤ budget)
    (tracks : Tracks g (ctx :: base) steps s t) :
    (g.carryOn (.ofBudget n) ctx allowance rounds c t).Below (Store.AgreeBut (some g))
      ((flow (.ofBudget m) budget steps).ensuring Store.popContext c s) := by
  induction budget generalizing allowance rounds steps s t with
  | zero =>
    obtain rfl : allowance = 0 := by omega
    exact .exhausted List.nil_prefix
  | succ budget ih =>
    cases allowance with
    | zero => exact .exhausted List.nil_prefix
    | succ allowance =>
      cases steps with
      | nil =>
        rw [GeneratorRef.carryOn_nil tracks.queue]
        exact .value tracks.popped.symm
      | cons step rest =>
        rw [flow_resolve, GeneratorRef.carryOn_resolve tracks.queue]
        refine resolve_below ((tracks.setQueue rest).effect_back le step.stmt) (fun h => h.queue)
          (fun steps h => ih (by omega) (h.setQueue steps)) (fun {t s} h => ?_) fun h => h.popped.symm
        cases rounds with
        | zero => exact .exhausted List.nil_prefix
        | succ rounds =>
          rw [GeneratorRef.drain_succ (h.room room), h.pushContext_popContext, Engine.budget_ofBudget, h.queue]
          exact ih (by rw [Nat.succ_mul] at enough; omega) h

/-- A generator that is driven on and on yields what its body emits and ends as its body does. -/
theorem emitAll_drain {body : List Stmt} {s : Store} (room : s.depth < c.maxCallDepth)
    (found : s.generator? g = some ⟨.running, ctx, GeneratorStep.ofBody body⟩) :
    Emission.SameLimit (Store.AgreeBut (some g)) (fun n => Stmt.emitAll (.ofBudget n) ctx body c s)
      fun n => g.drain (.ofBudget n) ctx n c s := by
  have start := Tracks.start found rfl ctx
  have whole (n : Nat) : Stmt.emitAll (.ofBudget n) ctx body c s = (Stmt.emitFrom (.ofBudget n) body none >>= fun c =>
      .lift c.concluded : Emitter Value).ensuring Store.popContext c (s.pushContext ctx) := Emitter.inContext_apply room
  refine ⟨fun n => ?_, fun n => ?_⟩
  · obtain ⟨budget, within⟩ := emitFrom_within body (.concluded (.ofBudget n)) none c (s.pushContext ctx)
    rw [List.append_nil] at within
    refine ⟨n + budget + 1, ?_⟩
    have carries : ((flow (.ofBudget n) budget (GeneratorStep.ofBody body)).ensuring Store.popContext c _).Below _
        (g.carryOn (.ofBudget (n + budget + 1)) ctx (n + budget + 1) (n + budget) c _) :=
      flow_below_carryOn (by omega) room (by omega) (by omega) (by omega) start
    show Emission.Below _ (Stmt.emitAll (.ofBudget n) ctx body c s) _
    rw [whole, GeneratorRef.drain_succ room, Engine.budget_ofBudget]
    exact (within.cleaned (congrArg Store.popContext)).trans carries fun same related => same ▸ related
  · cases n with
    | zero => exact ⟨0, .exhausted List.nil_prefix⟩
    | succ rounds =>
      let budget := rounds + 1 + rounds * (rounds + 1)
      refine ⟨budget, ?_⟩
      have carries : (g.carryOn (.ofBudget (rounds + 1)) ctx (rounds + 1) rounds c _).Below _
          ((flow (.ofBudget budget) budget (GeneratorStep.ofBody body)).ensuring Store.popContext c _) :=
        carryOn_below_flow (Nat.le_add_right ..) room (Nat.le_refl _) start
      have self : (Engine.ofBudget budget).Below (.ofBudget budget) := Engine.below_ofBudget (Nat.le_refl _)
      have covered := flow_below_emitFrom self self body (Nat.le_of_eq (Engine.budget_ofBudget budget).symm)
        (.concluded self budget) none
      rw [List.append_nil] at covered
      show Emission.Below _ (g.drain (.ofBudget (rounds + 1)) ctx (rounds + 1) c s) _
      rw [whole, GeneratorRef.drain_succ room, Engine.budget_ofBudget]
      exact carries.trans (covered.ensuring Store.popContext c _) fun related same => same ▸ related

end Simulation

end Ecma
