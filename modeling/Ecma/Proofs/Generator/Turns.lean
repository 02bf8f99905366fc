import Ecma.Generator

/-!
# What becomes of generators

Nearly all that code does leaves the generators of a store alone, but for the queue of one that is running, which it works
off. The rest are the turns in the life of a generator: it is set going, it stops where its body says so, or it is ended
from outside. Each turn is an event on the path of a run.
-/

namespace Ecma

theorem Store.generator?_modifyGenerator (s : Store) (g : GeneratorRef) (f : Generator → Generator)
    (other : GeneratorRef) :
    (s.modifyGenerator g f).generator? other = if g = other then (s.generator? other).map f else s.generator? other := by
  rw [generator?, modifyGenerator, Array.getElem?_modify]
  by_cases same : g = other
  · rw [if_pos (congrArg GeneratorRef.index same), if_pos same]
    rfl
  · have apart : g.index ≠ other.index := fun index => same (by cases g; cases other; cases index; rfl)
    rw [if_neg apart, if_neg same]
    rfl

theorem Store.generator?_addGenerator (s : Store) (gen : Generator) (other : GeneratorRef) :
    (s.addGenerator gen).generator? other =
      if other.index = s.generators.size then some gen else s.generator? other := by
  rw [generator?, addGenerator, Array.getElem?_push]
  rfl

/-- Code leaves the generators that are running as they are. -/
structure Engine.Steady (E : Engine) : Prop where
  expr : ∀ {e c s v t g gen}, E.expr e c s = .value v t → s.generator? g = some gen → gen.status = .running →
    t.generator? g = some gen
  stmt : ∀ {labels stmt c s r t g gen}, E.stmt labels stmt c s = .value r t → s.generator? g = some gen →
    gen.status = .running → t.generator? g = some gen

namespace Generator

/-- What becomes of a generator while none is set going or stopped: one that is running may work off its queue, and one
that is made has not started. -/
inductive Keeps : Option Generator → Option Generator → Prop where
  | same {gen : Option Generator} : Keeps gen gen
  | works {gen : Generator} (running : gen.status = .running) (steps : List GeneratorStep) :
    Keeps (some gen) (some { gen with steps })
  | made {gen : Generator} (fresh : gen.status = .suspendedStart) : Keeps none (some gen)

/-- A generator is running in a context. -/
def Runs (gen : Option Generator) (ctx : Context) : Prop :=
  ∃ g, gen = some g ∧ g.status = .running ∧ g.context = ctx

namespace Keeps

variable {gen gen' gen'' : Option Generator}

theorem trans (first : Keeps gen gen') (second : Keeps gen' gen'') : Keeps gen gen'' := by
  cases second with
  | same => exact first
  | works running steps =>
    cases first with
    | same => exact .works running steps
    | works running' _ => exact .works running' steps
    | made fresh =>
      rw [running] at fresh
      cases fresh
  | made fresh =>
    cases first with
    | same => exact .made fresh

theorem runs (h : Keeps gen gen') (ctx : Context) : Runs gen' ctx ↔ Runs gen ctx := by
  cases h with
  | same => exact .rfl
  | works running steps =>
    constructor
    · rintro ⟨_, ⟨⟩, _, context⟩
      exact ⟨_, rfl, running, context⟩
    · rintro ⟨_, ⟨⟩, _, context⟩
      exact ⟨_, rfl, running, context⟩
  | made fresh =>
    constructor
    · rintro ⟨_, ⟨⟩, running, _⟩
      rw [running] at fresh
      cases fresh
    · rintro ⟨_, ⟨⟩, _⟩

end Keeps

end Generator

namespace Store

/-- A generator is running in a context. -/
def Runs (s : Store) (g : GeneratorRef) (ctx : Context) : Prop := Generator.Runs (s.generator? g) ctx

/-- The same generators are running, each in the same context. -/
def SameRuns (s t : Store) : Prop := ∀ g ctx, t.Runs g ctx ↔ s.Runs g ctx

/-- No generator is set going or stopped. -/
def Rests (s t : Store) : Prop := ∀ g, Generator.Keeps (s.generator? g) (t.generator? g)

/-- A turn in the life of a generator. -/
inductive Turns (s : Store) : Event → Store → Prop where
  | resumes {g : GeneratorRef} {gen : Generator} (found : s.generator? g = some gen)
      (suspended : gen.status = .suspendedStart ∨ gen.status = .suspendedYield) :
    Turns s (.resumes g) (s.modifyGenerator g fun gen => { gen with status := .running })
  | yields {g : GeneratorRef} {gen : Generator} (found : s.generator? g = some gen) (running : gen.status = .running) :
    Turns s (.rests g) (s.modifyGenerator g fun gen => { gen with status := .suspendedYield })
  | ends {g : GeneratorRef} {gen : Generator} (found : s.generator? g = some gen) (running : gen.status = .running) :
    Turns s (.rests g) (s.modifyGenerator g Generator.finished)
  | abandons {g : GeneratorRef} (idle : ∀ gen, s.generator? g = some gen → gen.status ≠ .running) :
    Turns s (.abandons g) (s.modifyGenerator g Generator.finished)

variable {s t u : Store} {g : GeneratorRef}

theorem SameRuns.refl (s : Store) : s.SameRuns s := fun _ _ => .rfl

theorem SameRuns.trans (first : s.SameRuns t) (second : t.SameRuns u) : s.SameRuns u :=
  fun g ctx => (second g ctx).trans (first g ctx)

namespace Rests

theorem refl (s : Store) : s.Rests s := fun _ => .same

theorem trans (first : s.Rests t) (second : t.Rests u) : s.Rests u := fun g => (first g).trans (second g)

theorem sameRuns (h : s.Rests t) : s.SameRuns t := fun g => (h g).runs

theorem of_generators (same : t.generators = s.generators) : s.Rests t := fun g => by
  rw [generator?, generator?, same]
  exact .same

theorem addGenerator {gen : Generator} (fresh : gen.status = .suspendedStart) : s.Rests (s.addGenerator gen) := by
  intro g
  rw [generator?_addGenerator]
  split
  next last =>
    have absent : s.generator? g = none := Array.getElem?_eq_none (Nat.le_of_eq last.symm)
    rw [absent]
    exact .made fresh
  · exact .same

/-- A generator that is running works off its queue. -/
theorem setSteps {ctx : Context} (running : s.Runs g ctx) (steps : List GeneratorStep) :
    s.Rests (s.modifyGenerator g fun gen => { gen with steps }) := by
  intro other
  rw [generator?_modifyGenerator]
  split
  next same =>
    subst same
    obtain ⟨gen, found, status, _⟩ := running
    rw [found]
    exact .works status steps
  · exact .same

end Rests

/-- Once a generator that was not running is set going, it is running in its context, and the others as before. -/
theorem runs_resumed {gen : Generator} (found : s.generator? g = some gen) :
    (s.modifyGenerator g fun gen => { gen with status := .running }).Runs g gen.context := by
  rw [Runs, generator?_modifyGenerator, if_pos rfl, found]
  exact ⟨_, rfl, rfl, rfl⟩

/-- Setting a generator going and stopping it leaves the others that are running. -/
theorem SameRuns.of_stopped {f : Generator → Generator} (idle : ∀ ctx, ¬s.Runs g ctx)
    (between : (s.modifyGenerator g fun gen => { gen with status := .running }).SameRuns t)
    (stops : ∀ gen, (f gen).status ≠ .running) : s.SameRuns (t.modifyGenerator g f) := by
  intro other ctx
  rw [Runs, generator?_modifyGenerator]
  split
  next same =>
    subst same
    refine ⟨?_, fun runs => absurd runs (idle ctx)⟩
    rintro ⟨gen, found, running, _⟩
    obtain ⟨old, _, rfl⟩ := Option.map_eq_some_iff.1 found
    exact absurd running (stops old)
  next apart =>
    refine (between other ctx).trans ?_
    rw [Runs, generator?_modifyGenerator, if_neg apart, Runs]

/-- Ending a generator that is not running leaves those that are. -/
theorem SameRuns.finished (idle : ∀ ctx, ¬s.Runs g ctx) : s.SameRuns (s.modifyGenerator g Generator.finished) := by
  intro other ctx
  rw [Runs, generator?_modifyGenerator]
  split
  next same =>
    subst same
    refine ⟨?_, fun runs => absurd runs (idle ctx)⟩
    rintro ⟨gen, found, running, _⟩
    obtain ⟨old, _, rfl⟩ := Option.map_eq_some_iff.1 found
    cases running
  · rfl

end Store

end Ecma
