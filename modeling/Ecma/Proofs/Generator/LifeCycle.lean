import Ecma.Proofs.ContextStack
import Ecma.Proofs.Silent

/-!
# The life of a generator

A generator waits to be started or to go on, it runs, or it is completed. A run leaves it in the state it is in but at the
turns that its path shows: it is resumed, its body comes to where it stops, or it is ended from outside. From this alone
it follows that a completed generator stays as it is, with nothing left to do, and that a generator is running where
exactly one of its resumptions has begun and not come to its end.
-/

namespace Ecma

/-- The generator in whose life an event is a turn. -/
def Event.generator? : Event → Option GeneratorRef
  | declares _ | assigns _ _ | escapes _ | strays _ | binds _ _ _ => none
  | resumes g | rests g | abandons g => some g

namespace Moment

/-- A resumption of a generator begins. -/
def begins (g : GeneratorRef) : Moment → Bool
  | noted (.resumes other) _ => other = g
  | _ => false

/-- A resumption of a generator comes to its end. -/
def stops (g : GeneratorRef) : Moment → Bool
  | noted (.rests other) _ => other = g
  | _ => false

end Moment

namespace Store

/-- A generator is running. -/
def isRunning (s : Store) (g : GeneratorRef) : Bool := (s.generator? g).any (·.status = .running)

/-- The path of a run on which generators come from one state to another at the turns that it shows, and otherwise stay in
the state that they are in. -/
inductive Lives : Store → List Moment → Store → Prop where
  | done {s t : Store} (rests : s.Rests t) : Lives s [] t
  | reached {s t u : Store} {path : List Moment} (rests : s.Rests t) (later : Lives t path u) :
    Lives s (.reached t :: path) u
  | raised {s u : Store} {f : Fault} {path : List Moment} (later : Lives s path u) : Lives s (.raised f :: path) u
  | noted {s t u : Store} {e : Event} {path : List Moment} (rests : s.Rests t) (plain : e.generator? = none)
      (later : Lives t path u) : Lives s (.noted e t :: path) u
  | turned {s t t' u : Store} {e : Event} {path : List Moment} (rests : s.Rests t) (turns : t.Turns e t')
      (later : Lives t' path u) : Lives s (.noted e t' :: path) u

/-- Completed generators have nothing left to do. -/
def Emptied (s : Store) : Prop := ∀ g gen, s.generator? g = some gen → gen.status = .completed → gen.steps = []

/-- Where completed generators have nothing left to do, they stay as they are, and others come to the same. -/
def Settles (s t : Store) : Prop :=
  s.Emptied → t.Emptied ∧ ∀ g gen, s.generator? g = some gen → gen.status = .completed → t.generator? g = some gen

variable {s t u : Store} {e : Event} {g : GeneratorRef} {gen : Generator} {path : List Moment}

theorem isRunning_iff : s.isRunning g = true ↔ ∃ ctx, s.Runs g ctx := by
  rw [isRunning, Option.any_eq_true]
  constructor
  · rintro ⟨gen, found, running⟩
    exact ⟨gen.context, gen, found, of_decide_eq_true running, rfl⟩
  · rintro ⟨ctx, gen, found, running, _⟩
    exact ⟨gen, found, decide_eq_true running⟩

theorem SameRuns.isRunning (h : s.SameRuns t) (g : GeneratorRef) : t.isRunning g = s.isRunning g := by
  rw [Bool.eq_iff_iff, isRunning_iff, isRunning_iff]
  exact exists_congr (h g)

/-- Whether the generator that a turn is about is running comes of its new state, and no other is concerned. -/
theorem isRunning_modifyGenerator {f : Generator → Generator} (found : s.generator? g = some gen)
    (other : GeneratorRef) : (s.modifyGenerator g f).isRunning other =
      if g = other then decide ((f gen).status = .running) else s.isRunning other := by
  rw [isRunning, generator?_modifyGenerator]
  split
  next same =>
    subst same
    rw [found]
    rfl
  · rfl

namespace Settles

theorem refl (s : Store) : s.Settles s := fun emptied => ⟨emptied, fun _ _ found _ => found⟩

theorem trans (first : s.Settles t) (second : t.Settles u) : s.Settles u := fun emptied =>
  ⟨(second (first emptied).1).1, fun g gen found completed =>
    (second (first emptied).1).2 g gen ((first emptied).2 g gen found completed) completed⟩

/-- It is enough to look at each generator. -/
theorem of_generators
    (completes : ∀ g gen, t.generator? g = some gen → gen.status = .completed → gen.steps = [] ∨ s.generator? g = some gen)
    (stays : ∀ g gen, s.generator? g = some gen → gen.status = .completed → gen.steps = [] →
      t.generator? g = some gen) : s.Settles t := fun emptied =>
  ⟨fun g gen found completed => (completes g gen found completed).elim id fun old => emptied g gen old completed,
    fun g gen found completed => stays g gen found completed (emptied g gen found completed)⟩

end Settles

theorem Rests.settles (h : s.Rests t) : s.Settles t := by
  refine .of_generators (fun g gen found completed => ?_) fun g gen found completed _ => ?_
  · have kept := h g
    rw [found] at kept
    generalize s.generator? g = old at kept
    cases kept with
    | same => exact .inr rfl
    | works running => exact nomatch running.symm.trans completed
    | made fresh => exact nomatch fresh.symm.trans completed
  · have kept := h g
    rw [found] at kept
    generalize t.generator? g = new at kept
    cases kept with
    | same => rfl
    | works running => exact nomatch running.symm.trans completed

/-- A turn that a completed generator can only take if it leaves it as it is. -/
theorem Settles.of_modifyGenerator {f : Generator → Generator}
    (completes : ∀ gen, (f gen).status = .completed → (f gen).steps = [])
    (stays : ∀ gen, s.generator? g = some gen → gen.status = .completed → gen.steps = [] → f gen = gen) :
    s.Settles (s.modifyGenerator g f) := by
  refine .of_generators (fun other gen found completed => ?_) fun other gen found completed emptied => ?_
  · rw [generator?_modifyGenerator] at found
    split at found
    next =>
      obtain ⟨old, _, rfl⟩ := Option.map_eq_some_iff.1 found
      exact .inl (completes old completed)
    · exact .inr found
  · rw [generator?_modifyGenerator]
    split
    next same =>
      subst same
      rw [found, Option.map_some, stays gen found completed emptied]
    · exact found

theorem Turns.settles (h : s.Turns e t) : s.Settles t := by
  -- Only a turn from outside finds a completed generator; the others find one that waits or runs.
  cases h with
  | resumes found suspended =>
    refine .of_modifyGenerator nofun fun gen found' completed _ => ?_
    cases found.symm.trans found'
    rcases suspended with h | h <;> exact nomatch h.symm.trans completed
  | yields found running =>
    refine .of_modifyGenerator nofun fun gen found' completed _ => ?_
    cases found.symm.trans found'
    exact nomatch running.symm.trans completed
  | ends found running =>
    refine .of_modifyGenerator (fun _ _ => rfl) fun gen found' completed _ => ?_
    cases found.symm.trans found'
    exact nomatch running.symm.trans completed
  | abandons idle =>
    refine .of_modifyGenerator (fun _ _ => rfl) fun gen _ completed emptied => ?_
    rw [Generator.finished, ← completed, ← emptied]

/-- A turn begins a resumption of a generator that is not running, or ends one of a generator that is, or neither. -/
theorem Turns.isRunning (h : s.Turns e t) (g : GeneratorRef) :
    (Moment.begins g (.noted e t)).toNat + (s.isRunning g).toNat =
      (Moment.stops g (.noted e t)).toNat + (t.isRunning g).toNat := by
  have status {other : GeneratorRef} {gen : Generator} (found : s.generator? other = some gen) (same : other = g) :
      s.isRunning g = decide (gen.status = .running) := by
    rw [Store.isRunning, ← same, found]
    rfl
  cases h with
  | @resumes other gen found suspended =>
    rw [isRunning_modifyGenerator found]
    by_cases same : other = g
    · have idle : gen.status ≠ .running := by rcases suspended with h | h <;> simp [h]
      simp [Moment.begins, Moment.stops, status found same, same, idle]
    · simp [Moment.begins, Moment.stops, same]
  | @yields other gen found running | @ends other gen found running =>
    rw [isRunning_modifyGenerator found]
    by_cases same : other = g
    · simp [Moment.begins, Moment.stops, status found same, same, running, Generator.finished]
    · simp [Moment.begins, Moment.stops, same]
  | abandons idle => rw [(SameRuns.finished fun ctx ⟨gen, found, running, _⟩ => idle gen found running).isRunning g]; rfl

namespace Lives

theorem before (rests : s.Rests t) (h : t.Lives path u) : s.Lives path u := by
  induction h with
  | done later => exact .done (rests.trans later)
  | reached later rest => exact .reached (rests.trans later) rest
  | raised _ ih => exact .raised (ih rests)
  | noted later plain rest => exact .noted (rests.trans later) plain rest
  | turned later turns rest => exact .turned (rests.trans later) turns rest

theorem append {more : List Moment} (h : s.Lives path t) (next : t.Lives more u) : s.Lives (path ++ more) u := by
  induction h with
  | done rests => exact next.before rests
  | reached rests _ ih => exact .reached rests (ih next)
  | raised _ ih => exact .raised (ih next)
  | noted rests plain _ ih => exact .noted rests plain (ih next)
  | turned rests turns _ ih => exact .turned rests turns (ih next)

/-- The part of a path up to a store that it shows. -/
theorem upto {before after : List Moment} (h : s.Lives (before ++ .reached t :: after) u) : s.Lives before t := by
  induction before generalizing s with
  | nil =>
    cases h with
    | reached rests _ => exact .done rests
  | cons moment before ih =>
    cases h with
    | reached rests later => exact .reached rests (ih later)
    | raised later => exact .raised (ih later)
    | noted rests plain later => exact .noted rests plain (ih later)
    | turned rests turns later => exact .turned rests turns (ih later)

/-- Resumptions that begin and come to their ends on a path, and generators that are running before and after it. -/
theorem isRunning (h : s.Lives path t) (g : GeneratorRef) :
    path.countP (Moment.begins g) + (s.isRunning g).toNat = path.countP (Moment.stops g) + (t.isRunning g).toNat := by
  induction h with
  | done rests =>
    rw [rests.sameRuns.isRunning g]
    rfl
  | reached rests _ ih =>
    rw [rests.sameRuns.isRunning g] at ih
    exact ih
  | raised _ ih => exact ih
  | @noted _ _ _ e _ rests plain _ ih =>
    rw [rests.sameRuns.isRunning g] at ih
    cases e with
    | declares | assigns | escapes | strays | binds => exact ih
    | _ => cases plain
  | turned rests turns _ ih =>
    have turn := turns.isRunning g
    have one (b : Bool) : (if b = true then 1 else 0) = b.toNat := by cases b <;> rfl
    rw [rests.sameRuns.isRunning g] at turn
    rw [List.countP_cons, List.countP_cons, one, one]
    omega

/-- The stores on a path in order, with the first and the last. -/
theorem settles (h : s.Lives path u) :
    s.Settles u ∧ (path.filterMap Moment.store?).Pairwise Settles ∧
      ∀ t ∈ path.filterMap Moment.store?, s.Settles t ∧ t.Settles u := by
  induction h with
  | done rests => exact ⟨rests.settles, .nil, List.forall_mem_nil _⟩
  | reached rests _ ih =>
    obtain ⟨whole, ordered, between⟩ := ih
    have first := rests.settles
    exact ⟨first.trans whole, .cons (fun t mem => (between t mem).1) ordered,
      List.forall_mem_cons.2 ⟨⟨first, whole⟩, fun t mem => ⟨first.trans (between t mem).1, (between t mem).2⟩⟩⟩
  | raised _ ih => exact ih
  | noted rests _ _ ih =>
    obtain ⟨whole, ordered, between⟩ := ih
    exact ⟨rests.settles.trans whole, ordered, fun t mem =>
      ⟨rests.settles.trans (between t mem).1, (between t mem).2⟩⟩
  | turned rests turns _ ih =>
    obtain ⟨whole, ordered, between⟩ := ih
    have first := rests.settles.trans turns.settles
    exact ⟨first.trans whole, ordered, fun t mem => ⟨first.trans (between t mem).1, (between t mem).2⟩⟩

end Lives

end Store

/-- What a law lets a run do keeps to the turns that the path shows. -/
theorem Law.Trail.lives {L : Law} {limit : Nat} {w u : L.World} {path : List Moment} (h : L.Trail limit w path u) :
    (L.left w).Lives path (L.left u) := by
  induction h with
  | done onward => exact .done onward.rests
  | reached onward _ _ ih => exact .reached onward.rests ih
  | raised _ _ ih => exact .raised ih
  | @noted _ _ _ e _ onward lawful _ ih =>
    have plain : e.generator? = none := by
      cases e with
      | declares | assigns | escapes | strays | binds => rfl
      | _ => cases lawful
    exact .noted onward.rests plain ih
  | turned onward turns _ _ ih => exact .turned onward.rests turns ih

/-- Generators live through an action, and one that finishes leaves the same of them running. -/
structure Action.Sustains {α : Type} (x : Action α) : Prop where
  lives : ∀ c (s : Store), s.Lives (x.path c s) (x c s).store
  releases : ∀ c (s t : Store), (x c s).Finishes t → s.SameRuns t

theorem Agreement.sustains {α : Type} {x : Action α} {Q : (Law.agreement none).World → α → Prop}
    (h : ∀ c w, (Law.agreement none).Obeys c w x x Q) : x.Sustains := by
  refine ⟨fun c s => ?_, fun c s t finishes => ?_⟩
  · obtain ⟨_, trail, ends⟩ := h c (diagonal s) fun _ _ _ => trivial
    have last : (x c s).store = _ := ends.store
    rw [last]
    exact trail.lives
  · obtain ⟨_, _, ends⟩ := h c (diagonal s) fun _ _ _ => trivial
    obtain ⟨rfl, reached⟩ := ends.finishes finishes
    exact reached.runs

theorem operation_sustains (n : Nat) {α : Type} (op : Operation α) : (op.action (.ofBudget n)).Sustains :=
  Agreement.sustains (operation_obeys n op)

namespace Machine

variable {m : Machine} {units : List (Nat × CodeUnit)}

theorem unit_sustains (budget : Nat) (u : CodeUnit) : (u.action (.ofBudget budget)).Sustains :=
  Agreement.sustains fun _ _ => Law.unit_obeys (Agreement.engines (Nat.le_refl budget)) u

theorem lives_runUnit (budget : Nat) (u : CodeUnit) :
    m.store.Lives ((u.action (.ofBudget budget)).path m.config m.store) (m.runUnit budget u).2.store := by
  rw [store_runUnit]
  exact (unit_sustains budget u).lives m.config m.store

theorem lives : m.store.Lives (m.moments units) (m.after units).store := by
  induction units generalizing m with
  | nil => exact .done (.refl _)
  | cons unit rest ih => exact (lives_runUnit unit.1 unit.2).append ih

theorem states_settle : (m.states units).Pairwise Store.Settles ∧ ∀ s ∈ m.states units, m.store.Settles s := by
  induction units generalizing m with
  | nil => exact ⟨List.pairwise_singleton .., List.forall_mem_singleton.2 (.refl _)⟩
  | cons unit rest ih =>
    obtain ⟨whole, passed, between⟩ := (lives_runUnit (m := m) unit.1 unit.2).settles
    obtain ⟨ordered, later⟩ := ih (m := (m.runUnit unit.1 unit.2).2)
    have follows : ∀ s ∈ _ ++ _, m.store.Settles s :=
      List.forall_mem_append.2 ⟨fun s mem => (between s mem).1, fun s mem => whole.trans (later s mem)⟩
    refine ⟨.cons follows (List.pairwise_append.2 ⟨passed, ordered, fun s mem t mem' => ?_⟩),
      List.forall_mem_cons.2 ⟨.refl _, follows⟩⟩
    exact (between s mem).2.trans (later t mem')

theorem sameRuns_after (answered : none ∉ m.answers units) : m.store.SameRuns (m.after units).store := by
  induction units generalizing m with
  | nil => exact .refl _
  | cons unit rest ih =>
    obtain ⟨now, later⟩ := not_or.1 (mt List.mem_cons.2 answered)
    obtain ⟨answer, found⟩ := Option.ne_none_iff_exists'.1 (Ne.symm now)
    obtain ⟨s, run, store⟩ := answer_runUnit found
    have first : m.store.SameRuns (m.runUnit unit.1 unit.2).2.store := by
      rw [store]
      exact (unit_sustains unit.1 unit.2).releases m.config m.store s (run ▸ .value answer s)
    exact first.trans (ih later)

/-- What becomes of generators in a history. -/
structure KeepsGenerators (m : Machine) (units : List (Nat × CodeUnit)) : Prop where
  /-- They come from one state to another at the turns that the path shows. -/
  lives : m.store.Lives (m.moments units) (m.after units).store
  /-- Those that are completed have nothing left to do. -/
  emptied : ∀ s ∈ m.states units, s.Emptied
  /-- Those that are completed stay as they are. -/
  permanent : (m.states units).Pairwise fun s t =>
    ∀ g gen, s.generator? g = some gen → gen.status = .completed → t.generator? g = some gen
  /-- One is running where one more of its resumptions has begun than have come to their ends. -/
  active : ∀ before s after g, m.moments units = before ++ .reached s :: after →
    before.countP (Moment.begins g) = before.countP (Moment.stops g) + (s.isRunning g).toNat
  /-- None is running when everything has finished. -/
  settled : none ∉ m.answers units → ∀ g, (m.after units).store.isRunning g = false

theorem keepsGenerators (config : Config) (units : List (Nat × CodeUnit)) :
    (Machine.new config).KeepsGenerators units := by
  have none (g : GeneratorRef) : (Machine.new config).store.generator? g = none := rfl
  have idle (g : GeneratorRef) : (Machine.new config).store.isRunning g = false := rfl
  have start : (Machine.new config).store.Emptied := fun g gen found => nomatch (none g).symm.trans found
  obtain ⟨ordered, first⟩ : ((Machine.new config).states units).Pairwise Store.Settles ∧ _ := states_settle
  have emptied (s : Store) (mem : s ∈ (Machine.new config).states units) : s.Emptied := (first s mem start).1
  refine ⟨lives, emptied, ordered.imp_of_mem fun mem _ settles => (settles (emptied _ mem)).2, ?_, ?_⟩
  · intro before s after g split
    have whole : (Machine.new config).store.Lives (before ++ .reached s :: after) _ := split ▸ lives
    have balance := whole.upto.isRunning g
    rwa [idle g] at balance
  · intro answered g
    rw [(sameRuns_after answered).isRunning g, idle g]

end Machine

/-- The methods of generators. -/
def Native.generatorMethods : List Native := [.generatorNext, .generatorReturn, .generatorThrow]

section Methods

variable {E : Engine} {c : Config} {s : Store} {callee o : ObjectRef} {args : List Value} {g : GeneratorRef}
  {gen : Generator} {n : Native}

theorem generator_of_kind (kind : (s.object o).kind = .generator g) : Value.generator (.object o) c s = .value g s := by
  have read : Action.read (·.object o) c s = .value (s.object o) s := rfl
  rw [Value.generator, Action.bind_apply, read, Outcome.bind, kind]
  rfl

theorem resume_of_running (found : s.generator? g = some gen) (running : gen.status = .running) :
    g.resume E c s = .abrupt (.fault .generatorRunning) s := by
  have read : Action.read (·.generator? g) c s = .value (some gen) s := congrArg (Outcome.value · s) found
  rw [GeneratorRef.resume, Action.bind_apply, read]
  obtain ⟨status, ctx, steps⟩ := gen
  cases running
  rfl

theorem resume_of_completed (found : s.generator? g = some gen) (completed : gen.status = .completed) :
    g.resume E c s = .value (.object s.nextObject) (s.addObject (.iteratorResult .undefined true)) := by
  have read : Action.read (·.generator? g) c s = .value (some gen) s := congrArg (Outcome.value · s) found
  rw [GeneratorRef.resume, Action.bind_apply, read]
  obtain ⟨status, ctx, steps⟩ := gen
  cases completed
  rfl

theorem resume_of_suspended (found : s.generator? g = some gen)
    (suspended : gen.status = .suspendedStart ∨ gen.status = .suspendedYield) :
    g.resume E c s = g.resumeIn E gen.context c s := by
  have read : Action.read (·.generator? g) c s = .value (some gen) s := congrArg (Outcome.value · s) found
  rw [GeneratorRef.resume, Action.bind_apply, read]
  obtain ⟨status, ctx, steps⟩ := gen
  rcases suspended with ⟨⟨⟩⟩ | ⟨⟨⟩⟩
  · rfl
  · rfl

theorem abandon_of_running (found : s.generator? g = some gen) (running : gen.status = .running) :
    g.abandon c s = .abrupt (.fault .generatorRunning) s := by
  have read : Action.read (·.generator? g) c s = .value (some gen) s := congrArg (Outcome.value · s) found
  rw [GeneratorRef.abandon, Action.bind_apply, read, Outcome.bind, Option.any_some, if_pos (decide_eq_true running)]
  rfl

theorem abandon_of_idle (found : s.generator? g = some gen) (idle : gen.status ≠ .running) :
    g.abandon c s = .value () (s.modifyGenerator g Generator.finished) := by
  have read : Action.read (·.generator? g) c s = .value (some gen) s := congrArg (Outcome.value · s) found
  rw [GeneratorRef.abandon, Action.bind_apply, read, Outcome.bind, Option.any_some, if_neg (mt of_decide_eq_true idle)]
  rfl

/-- A generator that cannot enter its context is completed. -/
theorem resumeIn_at_limit (found : s.generator? g = some gen) (deep : c.maxCallDepth ≤ s.depth) (ctx : Context) :
    ∃ t, g.resumeIn E ctx c s = .abrupt (.fault .stackOverflow) t ∧ t.generator? g = some gen.finished := by
  have refused (u : Store) (same : u.depth = s.depth) :
      ((g.drive E E.budget).inContext ctx) c u = .abrupt (.fault .stackOverflow) u := by
    have entered : Action.enterContext ctx c u = .abrupt (.fault .stackOverflow) u := if_pos (same ▸ deep)
    rw [Action.inContext, Action.bind_apply, entered]
    rfl
  refine ⟨(s.modifyGenerator g fun gen => { gen with status := .running }).modifyGenerator g Generator.finished, ?_, ?_⟩
  · show Outcome.bind (Outcome.attempted ((g.drive E E.budget).inContext ctx c (s.modifyGenerator g _))) _ = _
    rw [refused (s.modifyGenerator g _) rfl]
    rfl
  · rw [Store.generator?_modifyGenerator, if_pos rfl, Store.generator?_modifyGenerator, if_pos rfl, found]
    rfl

/-- How the methods of a generator answer, by the state that it is in. -/
structure Generator.Answers (E : Engine) (c : Config) (s : Store) (callee o : ObjectRef) (args : List Value)
    (g : GeneratorRef) (gen : Generator) : Prop where
  /-- None of them does anything to one that is running. -/
  running : gen.status = .running → ∀ n ∈ Native.generatorMethods,
    n.apply E callee (.object o) args c s = .abrupt (.fault .generatorRunning) s
  /-- One that is completed has no more to give. -/
  completed : gen.status = .completed → Native.generatorNext.apply E callee (.object o) args c s =
    .value (.object s.nextObject) (s.addObject (.iteratorResult .undefined true))
  /-- One that has no room to run in is completed. -/
  overflows : gen.status = .suspendedStart ∨ gen.status = .suspendedYield → c.maxCallDepth ≤ s.depth →
    ∃ t, Native.generatorNext.apply E callee (.object o) args c s = .abrupt (.fault .stackOverflow) t ∧
      t.generator? g = some gen.finished
  /-- One that is not running is completed from outside. -/
  returns : gen.status ≠ .running → Native.generatorReturn.apply E callee (.object o) args c s =
    .value (.object s.nextObject)
      ((s.modifyGenerator g Generator.finished).addObject (.iteratorResult (argument args 0) true))
  throws : gen.status ≠ .running → Native.generatorThrow.apply E callee (.object o) args c s =
    .abrupt (.thrown (argument args 0)) (s.modifyGenerator g Generator.finished)

theorem generator_answers (kind : (s.object o).kind = .generator g) (found : s.generator? g = some gen) :
    gen.Answers E c s callee o args g := by
  have next : Native.generatorNext.apply E callee (.object o) args c s = g.resume E c s := by
    rw [Native.apply, Action.bind_apply, generator_of_kind kind, Outcome.bind]
  have returned : Native.generatorReturn.apply E callee (.object o) args c s =
      (g.abandon c s).bind fun _ t => Action.iteratorResult (argument args 0) true c t := by
    rw [Native.apply, Action.bind_apply, generator_of_kind kind, Outcome.bind, Action.bind_apply]
  have thrown : Native.generatorThrow.apply E callee (.object o) args c s =
      (g.abandon c s).bind fun _ t => Action.throwValue (argument args 0) c t := by
    rw [Native.apply, Action.bind_apply, generator_of_kind kind, Outcome.bind, Action.bind_apply]
  refine ⟨fun running n method => ?_, fun completed => ?_, fun suspended deep => ?_, fun idle => ?_, fun idle => ?_⟩
  · simp only [Native.generatorMethods, List.mem_cons, List.not_mem_nil, or_false] at method
    rcases method with rfl | rfl | rfl
    · rw [next, resume_of_running found running]
    · rw [returned, abandon_of_running found running, Outcome.bind]
    · rw [thrown, abandon_of_running found running, Outcome.bind]
  · rw [next, resume_of_completed found completed]
  · rw [next, resume_of_suspended found suspended]
    exact resumeIn_at_limit found deep gen.context
  · rw [returned, abandon_of_idle found idle]
    rfl
  · rw [thrown, abandon_of_idle found idle]
    rfl

end Methods

/-- Whatever is run on a fresh machine, a generator is set going, stops and is ended only at the turns that the path shows;
one that is completed has nothing left to do and stays so; and one is running only while it is resumed. No operation that
finishes, with a value or by throwing, leaves another set of generators running than it found. A running generator fails
calls of its methods with a type error and is left alone by them, and a completed one has no more values to give. -/
theorem generator_life_cycle :
    (∀ config units, (Machine.new config).KeepsGenerators units) ∧
      (∀ n {α : Type} (op : Operation α), (op.action (.ofBudget n)).Sustains) ∧
      Fault.generatorRunning.kind = .typeError ∧
      ∀ E c (s : Store) callee o args g (gen : Generator), (s.object o).kind = .generator g → s.generator? g = some gen →
        gen.Answers E c s callee o args g :=
  ⟨Machine.keepsGenerators, fun n _ op => operation_sustains n op, rfl, fun _ _ _ _ _ _ _ _ => generator_answers⟩

/-- A generator whose body resumes it, and a program that resumes it first. -/
def Program.resumesItself : Program :=
  ⟨[.declare [⟨"it", some (.call (.function ⟨none, [], [.expr (.call (.member (.ident "it") "next") [])], false, true⟩) [])⟩],
    .expr (.call (.member (.ident "it") "next") [])], false⟩

/-- A store with a generator and the object that stands for it. -/
def Store.lone (status : GeneratorStatus) : Store :=
  ⟨#[.generator ⟨0⟩ ⟨0⟩], #[], #[⟨status, .global false, []⟩], []⟩

/-- The generator that resumes itself is no longer running when that has failed. A call of `next` fails where the generator
is running, and gives a result that says so where it is completed. -/
theorem generator_life_cycle_resumed :
    ((Machine.new .standard).after [(9, .global .resumesItself)]).store.isRunning ⟨0⟩ = false ∧
      Native.generatorNext.apply .spent ⟨0⟩ (.object ⟨0⟩) [] .standard (.lone .running) =
        .abrupt (.fault .generatorRunning) (.lone .running) ∧
      Native.generatorNext.apply .spent ⟨0⟩ (.object ⟨0⟩) [] .standard (.lone .completed) =
        .value (.object ⟨1⟩) ((Store.lone .completed).addObject (.iteratorResult .undefined true)) := by
  have answered : ((Machine.new .standard).answers [(9, .global .resumesItself)]).all Option.isSome = true := by
    decide +kernel
  obtain ⟨keeps, _, _, answers⟩ := generator_life_cycle
  refine ⟨?_, ?_, ?_⟩
  · exact (keeps .standard _).settled (fun absent => nomatch List.all_eq_true.1 answered none absent) ⟨0⟩
  · exact (answers .spent .standard (.lone .running) ⟨0⟩ ⟨0⟩ [] ⟨0⟩ _ rfl rfl).running rfl _ (List.mem_cons_self ..)
  · exact (answers .spent .standard (.lone .completed) ⟨0⟩ ⟨0⟩ [] ⟨0⟩ _ rfl rfl).completed rfl

end Ecma
