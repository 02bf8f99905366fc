import Ecma.Proofs.Law.Statement

/-!
# Generators and calls obey every law

A generator is driven only by the resumption that set it running, and its steps are read only while it is driven.
-/

namespace Ecma

theorem Stmt.mem_varNamesOf {body : List Stmt} {stmt : Stmt} {name : String} (inside : stmt ∈ body)
    (declared : name ∈ stmt.varNames) : name ∈ varNamesOf body := by
  induction inside with
  | head => exact List.mem_append_left _ declared
  | tail _ _ ih => exact List.mem_append_right _ ih

/-- A jump only drops steps. -/
theorem GeneratorStep.mem_of_jump? {keepLoop : Bool} {steps rest : List GeneratorStep} {step : GeneratorStep}
    (jumped : jump? keepLoop steps = some rest) (mem : step ∈ rest) : step ∈ steps := by
  induction steps with
  | nil => cases jumped
  | cons first steps ih =>
    cases first with
    | run _ => exact List.mem_cons_of_mem _ (ih jumped)
    | boundary _ =>
      cases keepLoop with
      | true =>
        cases jumped
        exact mem
      | false =>
        cases jumped
        exact List.mem_cons_of_mem _ mem

namespace Law

variable {L : Law} {E E' : Engine} {c : Config} {w : L.World}

/-- The value that a generator stops with. -/
def pause (L : Law) (w : L.World) : Pause → Prop
  | .yields v | .returns v => L.value w v

theorem Lasts.pause : L.Lasts L.pause := by
  intro u t p le known
  cases p with
  | yields v => exact L.value_mono le known
  | returns v => exact L.value_mono le known

section Generator

variable {g : GeneratorRef} {ctx : Context}

/-- A generator whose body is what runs in the running context. -/
structure Driven (L : Law) (w : L.World) (g : GeneratorRef) (ctx : Context) : Prop where
  drives : L.drives g
  runs : (L.left w).Runs g ctx
  top : ∃ rest, (L.left w).contexts = ctx :: rest

theorem Driven.reached {u : L.World} (driven : L.Driven w g ctx) (h : L.Reached w u) : L.Driven u g ctx where
  drives := driven.drives
  runs := (h.runs g ctx).2 driven.runs
  top := by
    rw [h.contexts]
    exact driven.top

theorem Driven.ready {names : List String} (driven : L.Driven w g ctx)
    (bound : ∀ name ∈ names, L.bound w ctx.vars name) : L.Ready w names :=
  have ⟨_, top⟩ := driven.top
  .of_contexts top bound

theorem Reached.hoisted {u : L.World} {e : ScopeRef} {steps : List GeneratorStep} (h : L.Reached w u)
    (known : L.hoisted w e steps) : L.hoisted u e steps :=
  fun step mem name declared => L.bound_mono h.le (known step mem name declared)

theorem hoisted_append {e : ScopeRef} {new old : List GeneratorStep} (first : L.hoisted w e new)
    (second : L.hoisted w e old) : L.hoisted w e (new ++ old) :=
  fun step mem => (List.mem_append.1 mem).elim (first step) (second step)

/-- A body whose names are bound, laid out as steps. -/
theorem hoisted_ofBody {e : ScopeRef} {body : List Stmt} (bound : ∀ name ∈ Stmt.varNamesOf body, L.bound w e name) :
    L.hoisted w e (GeneratorStep.ofBody body) := by
  intro step mem name declared
  obtain ⟨stmt, inside, rfl⟩ := List.mem_map.1 mem
  exact bound name (Stmt.mem_varNamesOf inside declared)

/-- A generator that was set going and stops again. -/
theorem stop {v u : L.World} {gen : Generator} {f : Generator → Generator} (drives : L.drives g)
    (found : (L.left w).generator? g = some gen) (idle : gen.status ≠ .running)
    (left : L.left v = (L.left w).modifyGenerator g fun gen => { gen with status := .running }) (le : L.le w v)
    (reached : L.Reached v u) (known : ∀ gen, L.generator u gen → L.generator u (f gen))
    (stops : ∀ gen, (f gen).status = .suspendedYield ∨ (f gen).status = .completed)
    (aimed : ∀ gen, GeneratorStep.aimed gen.steps = true → GeneratorStep.aimed (f gen).steps = true) :
    ∃ t, L.left t = (L.left u).modifyGenerator g f ∧ L.right t = (L.right u).modifyGenerator g f ∧ L.le u t ∧
      L.Reached w t := by
  have started (gen : Generator) : (f gen).status ≠ .suspendedStart := by rcases stops gen with h | h <;> simp [h]
  have stopped (gen : Generator) : (f gen).status ≠ .running := by rcases stops gen with h | h <;> simp [h]
  obtain ⟨t, leftT, rightT, leT⟩ := L.change (w := u) (.steer (f := f) drives
    (fun gen there => known gen (L.generators there)) (fun gen _ => started gen)
    fun watched gen there => aimed gen (L.queues watched there))
  refine ⟨t, leftT, rightT, leT, L.trans le (L.trans reached.le leT), ?_, ?_⟩
  · rw [leftT]
    show (L.left u).contexts = (L.left w).contexts
    rw [reached.contexts, left]
    rfl
  · rw [leftT]
    refine .of_stopped (fun ctx runs => ?_) (left ▸ reached.runs) stopped
    obtain ⟨gen', found', status, _⟩ := runs
    rw [found] at found'
    cases found'
    exact idle status

/-- What is known of the queue of a generator that is watched. -/
def Queued (L : Law) (w : L.World) (g : GeneratorRef) (P : List GeneratorStep → Prop) : Prop :=
  L.watches w g → ∀ gen, (L.left w).generator? g = some gen → P gen.steps

theorem Queued.imp {P Q : List GeneratorStep → Prop} (queued : L.Queued w g P) (h : ∀ steps, P steps → Q steps) :
    L.Queued w g Q := fun watched gen found => h _ (queued watched gen found)

variable (driven : L.Driven w g ctx)
include driven

/-- The queue of a generator whose body runs stays while other code does. -/
theorem Queued.of_steady {u : L.World} {P : List GeneratorStep → Prop} (queued : L.Queued w g P)
    (reached : L.Reached w u) (steady : L.watches w g → ∀ {gen}, (L.left w).generator? g = some gen →
      gen.status = .running → (L.left u).generator? g = some gen) : L.Queued u g P := by
  intro watched gen found
  obtain ⟨old, there, running, _⟩ := driven.runs
  have before := (L.watches_iff reached.le there).1 watched
  rw [steady before there running] at found
  cases found
  exact queued before _ there

theorem setSteps_obeys {steps : List GeneratorStep} (known : L.hoisted w ctx.vars steps)
    (aimed : L.watches w g → GeneratorStep.aimed steps = true) :
    L.Obeys c w (g.setSteps steps) (g.setSteps steps) fun u _ => L.Queued u g (· = steps) := by
  obtain ⟨old, there, running, context⟩ := driven.runs
  have same {gen : Generator} (found : (L.left w).generator? g = some gen) : gen = old := by
    rw [there] at found
    exact (Option.some.inj found).symm
  refine (Obeys.steer (f := fun gen => { gen with steps }) driven.drives
    (fun gen found => ⟨(L.generators found).1, ?_⟩) (fun gen found => ?_) (fun watched _ _ => aimed watched)
    (.setSteps driven.runs steps)).mono fun u _ _ left watched gen found => ?_
  · rw [same found, context]
    exact known
  · rw [same found, running]
    exact nofun
  · rw [left, Store.generator?_modifyGenerator, if_pos rfl, there] at found
    cases found
    rfl

theorem steps_bind {α : Type} {f h : List GeneratorStep → Action α} {R : L.World → α → Prop}
    (next : ∀ steps, L.hoisted w ctx.vars steps → L.Queued w g (· = steps) → L.Obeys c w (f steps) (h steps) R) :
    L.Obeys c w (g.steps >>= f) (g.steps >>= h) R := by
  refine .read_generator_bind (r := fun gen => (gen.map Generator.steps).getD []) driven.drives (next _ ?_ ?_)
  · obtain ⟨gen, found, _, rfl⟩ := driven.runs
    rw [found]
    exact (L.generators found).2
  · intro _ gen found
    rw [found]
    rfl

theorem pushSteps_obeys {new : List GeneratorStep} (known : L.hoisted w ctx.vars new)
    (aimed : L.Queued w g fun steps => GeneratorStep.aimed (new ++ steps) = true) :
    L.Obeys c w (g.pushSteps new) (g.pushSteps new) L.any := by
  refine steps_bind driven fun steps hoisted queued => .weaken (setSteps_obeys driven (hoisted_append known hoisted) ?_)
  intro watched
  obtain ⟨gen, found, _⟩ := driven.runs
  rw [← queued watched gen found]
  exact aimed watched gen found

theorem stray_obeys {α : Type} {f : Fault} {Q : L.World → α → Prop} (permitted : L.permits f)
    (lost : L.Queued w g fun _ => False) : L.Obeys c w (g.stray f) (g.stray f) Q := by
  refine .note_bind (fun watched => ?_) (.fail permitted)
  obtain ⟨gen, found, _⟩ := driven.runs
  exact lost watched gen found

theorem jump_obeys {keepLoop : Bool} {otherwise : Fault} (permitted : L.permits otherwise)
    (looped : L.Queued w g fun steps => (GeneratorStep.targets steps).loop = true) :
    L.Obeys c w (g.jump keepLoop otherwise) (g.jump keepLoop otherwise) L.any := by
  refine steps_bind driven fun steps hoisted queued => ?_
  have leads : L.Queued w g fun _ =>
      ∃ left, GeneratorStep.jump? keepLoop steps = some left ∧ GeneratorStep.aimed left = true := by
    intro watched gen found
    rw [← queued watched gen found]
    exact GeneratorStep.exists_jump? keepLoop (looped watched gen found) (L.queues watched found)
  split
  next rest jumped =>
    refine .weaken (setSteps_obeys driven (fun step mem => hoisted step (GeneratorStep.mem_of_jump? jumped mem)) ?_)
    intro watched
    obtain ⟨gen, found, _⟩ := driven.runs
    obtain ⟨left, same, aimed⟩ := leads watched gen found
    cases jumped.symm.trans same
    exact aimed
  next lost => exact stray_obeys driven permitted (leads.imp fun _ ⟨left, found, _⟩ => nomatch lost.symm.trans found)

/-- Whether a generator stops. -/
theorem follow_obeys {r : Completion} (known : L.completion w r)
    (allowed : L.Queued w g fun steps => (GeneratorStep.targets steps).allows r = true) :
    L.Obeys c w (g.follow r) (g.follow r) fun u p => ∀ q, p = some q → L.pause u q := by
  cases r with
  | normal v => exact .pure nofun
  | returns v => exact .pure fun _ h => by cases h; exact known
  | breaks l =>
    cases l with
    | none => exact .bind (jump_obeys driven (L.permits_kind nofun) allowed) fun _ _ _ _ => .pure nofun
    | some l => exact stray_obeys driven (L.permits_kind nofun) (allowed.imp fun _ found => nomatch found)
  | continues l =>
    cases l with
    | none => exact .bind (jump_obeys driven (L.permits_kind nofun) allowed) fun _ _ _ _ => .pure nofun
    | some l => exact stray_obeys driven (L.permits_kind nofun) (allowed.imp fun _ found => nomatch found)

variable (H : L.Engines E E')
include H

/-- Code in a step leaves the queue. -/
theorem stepExpr_obeys {e : Expr} {P : List GeneratorStep → Prop} (queued : L.Queued w g P) :
    L.Obeys c w (E.expr e) (E'.expr e) fun u v => L.value u v ∧ L.Queued u g P :=
  H.expr.outcome.mono fun _ _ reached post =>
    ⟨post.1, queued.of_steady driven reached fun watched => (H.steady watched).expr post.2⟩

theorem stepStmt_obeys {stmt : Stmt} (bound : ∀ name ∈ stmt.varNames, L.bound w ctx.vars name)
    (aimed : L.Queued w g fun steps => stmt.aimed (GeneratorStep.targets steps) [] = true) :
    L.Obeys c w (E.stmt [] stmt) (E'.stmt [] stmt) fun u r =>
      L.completion u r ∧ L.Queued u g fun steps => (GeneratorStep.targets steps).allows r = true :=
  (H.stmt (driven.ready bound)).outcome.mono fun _ _ reached post =>
    ⟨post.1, Queued.of_steady driven (aimed.imp fun _ aimed => H.aims aimed c (L.left w) _ _ post.2) reached
      fun watched => (H.steady watched).stmt post.2⟩

theorem runStep_obeys {stmt : Stmt} (bound : ∀ name ∈ stmt.varNames, L.bound w ctx.vars name)
    (aimed : L.Queued w g fun steps =>
      stmt.aimed (GeneratorStep.targets steps) [] = true ∧ GeneratorStep.aimed steps = true) :
    L.Obeys c w (g.runStep E stmt) (g.runStep E' stmt) fun u p => ∀ q, p = some q → L.pause u q := by
  have other : L.Obeys c w (do g.follow (← E.stmt [] stmt)) (do g.follow (← E'.stmt [] stmt))
      fun u p => ∀ q, p = some q → L.pause u q :=
    .bind (stepStmt_obeys driven H bound (aimed.imp fun _ => And.left)) fun _ _ reached post =>
      follow_obeys (driven.reached reached) post.1 post.2
  have push {u : L.World} (reached : L.Reached w u) {new : List GeneratorStep} (known : L.hoisted w ctx.vars new)
      (aimed : L.Queued u g fun steps => GeneratorStep.aimed (new ++ steps) = true) :
      L.Obeys c u (do g.pushSteps new; pure (none : Option Pause)) (do g.pushSteps new; pure none)
        fun u p => ∀ q, p = some q → L.pause u q :=
    .bind (pushSteps_obeys (driven.reached reached) (reached.hoisted known) aimed) fun _ _ _ _ => .pure nofun
  cases stmt with
  | yields value =>
    cases value with
    | none => exact .pure fun _ h => by cases h; exact L.primitive rfl
    | some e => exact .bind H.expr fun _ _ _ held => .pure fun _ h => by cases h; exact held
  | block body =>
    exact push (.refl w) (hoisted_ofBody bound) (aimed.imp fun _ => GeneratorStep.aimed_ofBody_append.2)
  | ifElse test consequent alternate =>
    refine .bind (stepExpr_obeys driven H aimed) fun v _ reached post => push reached ?_ (post.2.imp fun steps aimed => ?_)
    · refine hoisted_ofBody fun name mem => bound name ?_
      split at mem
      · exact List.mem_append_left _ mem
      · exact List.mem_append_right _ mem
    · obtain ⟨both, others⟩ := aimed
      obtain ⟨first, second⟩ := Bool.and_eq_true_iff.1 both
      refine GeneratorStep.aimed_ofBody_append.2 ⟨?_, others⟩
      split
      · exact first
      · exact second
  | whileLoop test body =>
    refine .bind (stepExpr_obeys driven H aimed) fun v u reached post => ?_
    dsimp only
    split
    · refine push reached (hoisted_append (hoisted_ofBody bound) fun step mem => ?_) (post.2.imp fun steps aimed => ?_)
      · cases List.mem_singleton.1 mem
        exact bound
      · rw [List.append_assoc]
        exact GeneratorStep.aimed_whileLoop aimed.1 aimed.2
    · exact .pure nofun
  | _ => exact other

theorem drive_obeys {n m : Nat} (budget : n ≤ m) : L.Obeys c w (g.drive E n) (g.drive E' m) L.pause := by
  induction n generalizing w m with
  | zero => exact .exhaust
  | succ n ih =>
    obtain ⟨m, rfl⟩ : ∃ k, m = k + 1 := ⟨m - 1, by omega⟩
    refine steps_bind driven fun steps hoisted queued => ?_
    have aimed (watched : L.watches w g) : GeneratorStep.aimed steps = true := by
      obtain ⟨gen, found, _⟩ := driven.runs
      rw [← queued watched gen found]
      exact L.queues watched found
    cases steps with
    | nil => exact .pure (L.primitive rfl)
    | cons step rest =>
      obtain ⟨head, tail⟩ := List.forall_mem_cons.1 hoisted
      refine .bind (setSteps_obeys driven tail fun watched => (GeneratorStep.aimed_cons.1 (aimed watched)).2)
        fun _ u first queued => ?_
      have bound (name : String) (mem : name ∈ step.stmt.varNames) := L.bound_mono first.le (head name mem)
      have next : L.Queued u g fun steps =>
          step.stmt.aimed (GeneratorStep.targets steps) [] = true ∧ GeneratorStep.aimed steps = true := by
        intro watched gen found
        obtain ⟨old, there, _⟩ := driven.runs
        rw [queued watched gen found]
        exact GeneratorStep.aimed_cons.1 (aimed ((L.watches_iff first.le there).1 watched))
      refine .bind (runStep_obeys (driven.reached first) H bound next) fun p t second post => ?_
      cases p with
      | some pause => exact .pure (post pause rfl)
      | none => exact ih (driven.reached (first.trans second)) (Nat.le_of_succ_le_succ budget)

omit driven

theorem resumeIn_obeys {gen : Generator} (drives : L.drives g) (found : (L.left w).generator? g = some gen)
    (suspended : gen.status = .suspendedStart ∨ gen.status = .suspendedYield) :
    L.Obeys c w (g.resumeIn E gen.context) (g.resumeIn E' gen.context) L.value := by
  have idle : gen.status ≠ .running := by rcases suspended with h | h <;> simp [h]
  obtain ⟨v, left, right, le⟩ := L.change (.steer (f := fun gen => { gen with status := .running }) drives
    (fun gen there => (L.generators there : L.generator w gen)) (fun _ _ => nofun)
    fun watched gen there => (L.queues watched there : GeneratorStep.aimed gen.steps = true))
  have runs : (L.left v).Runs g gen.context := left ▸ Store.runs_resumed found
  have start : (L.left v).generator? g = some { gen with status := .running } := by
    rw [left, Store.generator?_modifyGenerator, if_pos rfl, found]
    rfl
  have inner : L.limit c v = L.limit c w := by
    rw [limit, limit, left]
    rfl
  refine Returns.turn left right le (.resumes found suspended) ?_
  refine .attempt_bind inner (.inContext (L.generators start).1 .pause fun u le' left' => ?_) fun r u reached post => ?_
  · have runs' : (L.left u).Runs g gen.context := by
      rw [left']
      exact runs
    exact drive_obeys ⟨drives, runs', (L.left v).contexts, by rw [left']; rfl⟩ H H.budget
  obtain ⟨gen', found', running, _⟩ := (reached.runs g gen.context).2 runs
  cases r with
  | ok pause =>
    cases pause with
    | yields value =>
      obtain ⟨t, leftT, rightT, leT, back⟩ := stop (f := fun gen => { gen with status := .suspendedYield }) drives found
        idle left le reached (fun _ known => known) (fun _ => .inl rfl) fun _ => id
      exact .turn leftT rightT leT (.yields found' running) (.of_obeys back (iteratorResult_obeys (L.value_mono leT post)))
    | returns value =>
      obtain ⟨t, leftT, rightT, leT, back⟩ := stop (f := Generator.finished) drives found idle left le reached
        (fun _ known => ⟨known.1, List.forall_mem_nil _⟩) (fun _ => .inr rfl) fun _ _ => rfl
      exact .turn leftT rightT leT (.ends found' running) (.of_obeys back (iteratorResult_obeys (L.value_mono leT post)))
  | error e =>
    obtain ⟨t, leftT, rightT, leT, back⟩ := stop (f := Generator.finished) drives found idle left le reached
      (fun _ known => ⟨known.1, List.forall_mem_nil _⟩) (fun _ => .inr rfl) fun _ _ => rfl
    exact .turn leftT rightT leT (.ends found' running) (.of_obeys back (.rethrow (Lasts.abrupt leT post)))

end Generator

theorem resume_obeys (H : L.Engines E E') {g : GeneratorRef} : L.Obeys c w (g.resume E) (g.resume E') L.value := by
  refine .read_head_bind fun other same => ?_
  cases found : (L.left w).generator? g with
  | none =>
    rw [found] at same
    cases other with
    | none => exact .fail (L.permits_kind nofun)
    | some gen => cases same
  | some gen =>
    rw [found] at same
    cases other with
    | none => cases same
    | some gen' =>
      obtain ⟨status, context⟩ : gen'.status = gen.status ∧ gen'.context = gen.context := by
        simpa only [Option.map_some, Option.some.injEq, Prod.mk.injEq] using same
      have idle (h : gen.status ≠ .running) : L.drives g := L.drives_idle (w := w) fun gen' found' => by
        rw [found] at found'
        cases found'
        exact h
      dsimp only
      rw [status, context]
      cases now : gen.status with
      | running => exact .fail (L.permits_kind nofun)
      | completed => exact iteratorResult_obeys (L.primitive rfl)
      | suspendedStart => exact resumeIn_obeys H (idle (by simp [now])) found (.inl now)
      | suspendedYield => exact resumeIn_obeys H (idle (by simp [now])) found (.inr now)

theorem abandon_obeys {g : GeneratorRef} : L.Obeys c w g.abandon g.abandon L.any := by
  refine .read_head_bind fun other same => ?_
  have alike : other.any (·.status = .running) = ((L.left w).generator? g).any (·.status = .running) := by
    revert same
    cases other <;> cases (L.left w).generator? g <;> simp +contextual
  rw [alike]
  refine .ite (fun _ => .fail (L.permits_kind nofun)) fun busy => ?_
  have idle (gen : Generator) (found : (L.left w).generator? g = some gen) : gen.status ≠ .running := by
    simpa [found] using busy
  obtain ⟨t, left, right, le⟩ := L.change (.steer (f := Generator.finished) (L.drives_idle idle)
    (fun gen found => ⟨(L.generators found).1, nofun⟩) (fun _ _ => nofun) fun _ _ _ => rfl)
  have back : L.Reached w t := by
    refine ⟨le, by rw [left]; rfl, left ▸ .finished fun ctx runs => ?_⟩
    obtain ⟨gen, found, running, _⟩ := runs
    exact idle gen found running
  exact Returns.turn (x := pure ()) (y := pure ()) left right le (.abandons idle) (.of_obeys back (.pure trivial))

theorem generator_obeys {v : Value} : L.Obeys c w v.generator v.generator L.any := by
  cases v with
  | object o =>
    refine .read_bind (fun _ _ => by simp) ?_
    split
    · exact .pure trivial
    · exact .fail (L.permits_kind nofun)
  | _ => exact .fail (L.permits_kind nofun)

section Call

theorem receiver_obeys {this : Value} {strict : Bool} (known : L.value w this) :
    L.Obeys c w (receiver this strict) (receiver this strict) L.value := by
  unfold receiver
  refine .ite (fun _ => .pure known) fun _ => .ite (fun _ => .pure (L.intrinsic w .global)) fun _ => ?_
  exact .map (toObject_obeys known) fun _ _ _ post => post

/-- The context of a call has a new scope of its own. -/
theorem callContext_obeys {code : FunctionCode} {e : ScopeRef} {strict : Bool} {this : Value}
    (known : L.scope w e strict) (receiver : L.value w this) :
    L.Obeys c w (callContext code e strict this) (callContext code e strict this) fun u ctx =>
      L.context u ctx ∧ L.declarative u ctx.vars ∧ L.parametersOnly u ctx.vars := by
  refine .bind (receiver_obeys receiver) fun v u first held => ?_
  refine .bind (.declarativeScope (first.scope known)) fun own t second made => .pure ⟨?_, ?_, ?_⟩
  · exact ⟨made.1, made.1, second.value held, L.within_refl t own, .inr (L.declarative_of made.1 made.2.1)⟩
  · exact L.declarative_of made.1 made.2.1
  · rcases L.ranged with free | ranged
    · exact .inl free
    · exact .inr ⟨ranged made.1, .empty, made.2.1, nofun⟩

theorem returned_obeys {r : Completion} (known : L.completion w r) : L.Obeys c w r.returned r.returned L.value := by
  cases r with
  | normal v => exact .pure (L.primitive rfl)
  | returns v => exact .pure known
  | breaks l => exact .fail (L.permits_kind nofun)
  | continues l => exact .fail (L.permits_kind nofun)

variable (H : L.Engines E E')
include H

theorem createGenerator_obeys {code : FunctionCode} {ctx : Context} {call : Invocation} (known : L.context w ctx)
    (called : L.Called w ctx.vars call) :
    L.Obeys c w (createGenerator E code ctx call) (createGenerator E' code ctx call) L.value := by
  have lasts : L.Lasts fun u (_ : Unit) => ∀ name ∈ Stmt.varNamesOf code.body, L.bound u ctx.vars name :=
    fun _ _ _ le bound name mem => L.bound_mono le (bound name mem)
  refine .bind (.inContext known lasts fun u le left => ?_) fun _ u first bound => ?_
  · have top : (L.left u).contexts = ctx :: (L.left w).contexts := by rw [left]; rfl
    exact instantiate_obeys H top (L.declares_fixed u ctx.vars) fun i h => by
      cases h
      exact called.push le left
  · refine .bind (get_obeys H (first.object called.callee)) fun v t second held => ?_
    have ready : L.generator t ⟨.suspendedStart, ctx, GeneratorStep.ofBody code.body⟩ :=
      ⟨(first.trans second).context known, second.hoisted (hoisted_ofBody bound)⟩
    refine .bind (.allocGenerator ready rfl) fun g x third _ => ?_
    exact .map (.alloc (.generator g (object_getD (third.value held)))) fun _ _ _ post => post

theorem callScript_obeys {callee : ObjectRef} {code : FunctionCode} {e : ScopeRef} {strict : Bool} {this : Value}
    {args : List Value} (object : L.object w callee) (known : L.scope w e strict) (receiver : L.value w this)
    (values : L.values w args) :
    L.Obeys c w (callScript E callee code e strict this args) (callScript E' callee code e strict this args) L.value := by
  refine .bind (callContext_obeys known receiver) fun ctx u first made => ?_
  obtain ⟨context, own, parameters⟩ := made
  have called : L.Called u ctx.vars ⟨callee, code.params, args⟩ :=
    ⟨first.object object, first.values values, own, parameters⟩
  refine .ite (fun _ => createGenerator_obeys H context called) fun _ => ?_
  refine .inContext context .value fun t le left => ?_
  have top : (L.left t).contexts = ctx :: (L.left u).contexts := by rw [left]; rfl
  refine .bind (instantiate_obeys H top (L.declares_fixed t ctx.vars) fun i h => ?_) fun _ _ second bound => ?_
  · cases h
    exact called.push le left
  · exact .bind (evaluateBody_obeys H (.of_contexts (second.contexts.trans top) bound)) fun _ _ _ post =>
      returned_obeys post

theorem native_obeys {n : Native} {callee : ObjectRef} {this : Value} {args : List Value} (object : L.object w callee)
    (receiver : L.value w this) (known : L.values w args) :
    L.Obeys c w (n.apply E callee this args) (n.apply E' callee this args) L.value := by
  cases n with
  | functionPrototype => exact .pure (L.primitive rfl)
  | throwTypeError => exact .fail (L.permits_kind nofun)
  | object => exact object_obeys known
  | objectToString => exact objectToString_obeys receiver
  | objectValueOf => exact .map (toObject_obeys receiver) fun _ _ _ post => post
  | hasOwnProperty => exact hasOwnProperty_obeys H receiver known
  | isPrototypeOf => exact isPrototypeOf_obeys receiver
  | propertyIsEnumerable => exact propertyIsEnumerable_obeys H receiver known
  | getPrototypeOf => exact getPrototypeOf_obeys known
  | getOwnPropertyDescriptor => exact getOwnPropertyDescriptor_obeys H known
  | getOwnPropertyNames => exact getOwnPropertyNames_obeys known
  | create => exact create_obeys H known
  | defineProperty => exact defineProperty_obeys H known
  | defineProperties => exact builtin_defineProperties_obeys H known
  | objectSeal => exact builtin_restrict_obeys H known
  | objectFreeze => exact builtin_restrict_obeys H known
  | preventExtensions => exact builtin_preventExtensions_obeys known
  | isSealed => exact isRestricted_obeys known
  | isFrozen => exact isRestricted_obeys known
  | isExtensible => exact isExtensible_obeys known
  | keys => exact keys_obeys known
  | functionCall => exact functionCall_obeys H receiver known
  | functionApply => exact functionApply_obeys H receiver known
  | functionToString => exact functionToString_obeys
  | arrayJoin => exact arrayJoin_obeys H receiver known
  | arrayToString => exact arrayToString_obeys H receiver
  | booleanToString => exact booleanToString_obeys
  | booleanValueOf => exact booleanValueOf_obeys
  | numberToString => exact numberToString_obeys H known
  | numberValueOf => exact numberValueOf_obeys
  | stringToString => exact stringToString_obeys
  | stringValueOf => exact stringValueOf_obeys
  | error kind => exact error_obeys H object known
  | errorToString => exact errorToString_obeys H receiver
  | generatorNext => exact .bind generator_obeys fun _ _ _ _ => resume_obeys H
  | generatorReturn =>
    exact .bind generator_obeys fun _ _ first _ => .bind abandon_obeys fun _ _ second _ =>
      iteratorResult_obeys ((first.trans second).value (value_argument known 0))
  | generatorThrow =>
    exact .bind generator_obeys fun _ _ first _ => .bind abandon_obeys fun _ _ second _ =>
      .throwValue ((first.trans second).value (value_argument known 0))

theorem call_obeys {f this : Value} {args : List Value} (function : L.value w f) (receiver : L.value w this)
    (known : L.values w args) : L.Obeys c w (Ecma.call E f this args) (Ecma.call E' f this args) L.value := by
  cases f with
  | object callee =>
    refine .read_bind (fun _ _ => by simp) ?_
    cases kind : ((L.left w).object callee).kind with
    | function data =>
      cases data with
      | native n => exact native_obeys H function receiver known
      | script code e strict => exact callScript_obeys H function (L.closure kind) receiver known
    | _ => exact .read_bind (fun _ _ => by simp) (.fail (L.permits_kind nofun))
  | _ => exact .read_bind (fun _ _ => by simp) (.fail (L.permits_kind nofun))

end Call

/-- Laws by which defining an index of an `arguments` object goes well wherever assignments do. -/
def Aliases (L : Law) : Prop := ∀ E E', L.Puts E E' → L.DefinesArguments E E'

section Free

variable (permits : ∀ f, L.permits f)
include permits

theorem passOn_obeys {c : Config} {w : L.World} {E E' : Engine} (puts : L.Puts E E') {e : ScopeRef} {parameter : String}
    {v : Value} (known : L.value w v) :
    L.Obeys c w (ObjectRef.passOn E e parameter v) (ObjectRef.passOn E' e parameter v) L.any := by
  refine .read_bind (fun _ _ => by simp) ?_
  cases record : ((L.left w).scope e).record with
  | declarative bindings => exact .weaken (setDeclarative_obeys record (fun _ => permits _) known)
  | object o provideThis => exact puts (L.record record) known

/-- The definition of an index of an `arguments` object, one change after the other. -/
theorem defineInArguments_obeys {c : Config} {w : L.World} {E E' : Engine} (puts : L.Puts E E') {o : ObjectRef}
    {m : ParameterMap} {name : String} {d : Descriptor} {throw : Bool} (known : L.descriptor w d)
    (defines : L.Obeys c w (o.defineOrdinary name d false) (o.defineOrdinary name d false) L.any)
    (detach : ∀ {u}, L.Reached w u → L.Obeys c u
      (Action.modify (·.modifyObject o (·.detached name))) (Action.modify (·.modifyObject o (·.detached name))) L.any) :
    L.Obeys c w (o.defineInArguments E m name d throw) (o.defineInArguments E' m name d throw) L.any := by
  have protect {u : L.World} (reached : L.Reached w u) : L.Obeys c u
      (do if d.writable = some false then .modify (·.modifyObject o (·.detached name))
          pure true)
      (do if d.writable = some false then .modify (·.modifyObject o (·.detached name))
          pure true) L.any :=
    .ite (fun _ => .bind (detach reached) fun _ _ _ _ => .pure trivial) fun _ => .pure trivial
  refine .bind defines fun defined u reached _ => .ite (fun _ => ?_) fun _ => .reject (permits _)
  cases m.parameter? name with
  | none => exact .pure trivial
  | some parameter =>
    refine .ite (fun _ => .bind (detach reached) fun _ _ _ _ => .pure trivial) fun _ => ?_
    cases requested : d.value with
    | none => exact protect reached
    | some v =>
      exact .bind (passOn_obeys permits puts (reached.value (known.1 v requested))) fun _ _ later _ =>
        protect (reached.trans later)

/-- A law that asks nothing of faults and parameters follows the definition of every index. -/
theorem Aliases.of_free
    (unaliased : ∀ {w o m} name, ((L.left w).object o).kind = .arguments (some m) → L.unaliased w o name)
    (detach : ∀ {c w o name}, L.unaliased w o name → L.Obeys c w
      (Action.modify (·.modifyObject o (·.detached name))) (Action.modify (·.modifyObject o (·.detached name))) L.any) :
    L.Aliases := by
  intro E E' puts c w o m name d throw _ kind known unmixed
  have free := unaliased name kind
  exact defineInArguments_obeys permits puts known (defineOrdinary_obeys known unmixed free (.of_kind (by simp [kind])))
    fun reached => detach (reached.unaliased free)

end Free

/-- Laws by which objects that define their properties in ways of their own do so well, and code leaves the generators
that are watched while they are running. -/
structure Exotics (L : Law) : Prop where
  aliases : L.Aliases
  arrays : ∀ E E', L.DefinesArrays E E'
  steady : ∀ {w g}, L.watches w g → ∀ n, (Engine.ofBudget n).Steady

/-- A law that watches no array. -/
theorem Exotics.of_aliases (aliases : L.Aliases)
    (free : ∀ {w o} name, L.object w o → ((L.left w).object o).kind = .array → L.unaliased w o name)
    (steady : ∀ {w g}, L.watches w g → ∀ n, (Engine.ofBudget n).Steady) : L.Exotics :=
  ⟨aliases, fun _ _ _ _ _ _ _ _ object kind watched => absurd (fun name => free name object kind) watched, steady⟩

/-- Every level of evaluation obeys every law, and a larger budget changes nothing but where the smaller one ran out. -/
theorem engines_ofBudget (exotics : L.Exotics) {n m : Nat} (le : n ≤ m) : L.Engines (.ofBudget n) (.ofBudget m) := by
  induction n generalizing m with
  | zero =>
    have puts : L.Puts (.ofBudget 0) (.ofBudget m) := fun _ _ => .exhaust
    exact {
      budget := Nat.zero_le _
      aims := Engine.aims_ofBudget 0
      steady := fun watched => exotics.steady watched 0
      arguments := exotics.aliases _ _ puts
      arrays := exotics.arrays _ _
      call := fun _ _ _ => .exhaust
      expr := .exhaust
      stmt := fun _ => .exhaust }
  | succ n ih =>
    obtain ⟨m, rfl⟩ : ∃ k, m = k + 1 := ⟨m - 1, by omega⟩
    have H : L.Engines (.ofBudget n) (.ofBudget m) := ih (Nat.le_of_succ_le_succ le)
    have puts : L.Puts (.ofBudget (n + 1)) (.ofBudget (m + 1)) := fun object known => .watched (put_obeys H object known)
    exact {
      budget := le
      aims := Engine.aims_ofBudget (n + 1)
      steady := fun watched => exotics.steady watched (n + 1)
      arguments := exotics.aliases _ _ puts
      arrays := exotics.arrays _ _
      call := fun function receiver known => .watched (call_obeys H function receiver known)
      expr := .watched (evaluate_obeys H)
      stmt := fun ready => .watched (evaluateStmt_obeys H ready) }

end Law

end Ecma
