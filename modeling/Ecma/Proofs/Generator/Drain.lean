import Ecma.Proofs.Generator.Queue
import Ecma.Proofs.Silent

/-!
# Driving a generator to its end

A generator that is driven again whenever it stops at a `yield`, one step after the other. Its queue is in the store:
each step takes its statement off the queue, does what that asks for, and then what is next.
-/

namespace Ecma

/-- What is left for a generator to do. -/
def Store.queue (s : Store) (g : GeneratorRef) : List GeneratorStep := ((s.generator? g).map (·.steps)).getD []

/-- Leaves a generator other things to do. -/
def Store.setQueue (s : Store) (g : GeneratorRef) (steps : List GeneratorStep) : Store :=
  s.modifyGenerator g fun gen => { gen with steps }

theorem Store.generator?_setQueue (s : Store) (g : GeneratorRef) (steps : List GeneratorStep) :
    (s.setQueue g steps).generator? g = (s.generator? g).map fun gen => { gen with steps } := by
  rw [generator?, setQueue, modifyGenerator, Array.getElem?_modify, if_pos rfl]
  rfl

theorem Store.setQueue_queue (s : Store) (g : GeneratorRef) : s.setQueue g (s.queue g) = s := by
  have same : (s.setQueue g (s.queue g)).generators = s.generators := by
    refine Array.ext_getElem? fun i => ?_
    rw [setQueue, modifyGenerator, Array.getElem?_modify]
    split
    case isTrue here =>
      subst here
      rw [queue, generator?]
      cases s.generators[g.index]? <;> rfl
    case isFalse => rfl
  show { s with generators := (s.setQueue g (s.queue g)).generators } = s
  rw [same]

/-- Does what is next for a generator. -/
def Next.settle (g : GeneratorRef) (s : Store) : Next → Outcome (Option Pause)
  | go steps => .value none (s.setQueue g steps)
  | yields v _ => .value (some (.yields v)) s
  | returns v => .value (some (.returns v)) s
  | fails f => .abrupt (.fault f) s

namespace GeneratorRef

theorem follow_eq (g : GeneratorRef) (completion : Completion) (c : Config) (s : Store) :
    g.follow completion c s = (GeneratorStep.next (s.queue g) completion).settle g s := by
  have jump (keepLoop : Bool) (otherwise : Fault) :
      (do g.jump keepLoop otherwise; pure none : Action (Option Pause)) c s =
        (((GeneratorStep.jump? keepLoop (s.queue g)).map Next.go).getD (.fails otherwise)).settle g s := by
    have read : g.steps c s = .value (s.queue g) s := rfl
    rw [Action.bind_apply, GeneratorRef.jump, Action.bind_apply, read]
    dsimp only [Outcome.bind]
    cases GeneratorStep.jump? keepLoop (s.queue g) <;> rfl
  cases completion with
  | normal v =>
    show Outcome.value none s = .value none (s.setQueue g (s.queue g))
    rw [s.setQueue_queue]
  | returns v => rfl
  | breaks l =>
    cases l with
    | none => exact jump false .strayBreak
    | some l => rfl
  | continues l =>
    cases l with
    | none => exact jump true .strayContinue
    | some l => rfl

/-- A step does what it asks for, and then what is next. -/
theorem runStep_eq (E : Engine) (g : GeneratorRef) (stmt : Stmt) (c : Config) (s : Store) :
    g.runStep E stmt c s = (GeneratorStep.effect E stmt c s).bind fun e t => (e.next (t.queue g)).settle g t := by
  have evaluated (e : Expr) (f : Value → Action (Option Pause)) (effect : Value → Effect)
      (h : ∀ v t, f v c t = ((effect v).next (t.queue g)).settle g t) :
      (E.expr e >>= f) c s = ((effect <$> E.expr e) c s).bind fun e t => (e.next (t.queue g)).settle g t := by
    show (E.expr e c s).bind _ = ((E.expr e c s).bind _).bind _
    cases E.expr e c s with
    | value v t => exact h v t
    | abrupt => rfl
    | exhausted => rfl
  have whole : (E.stmt [] stmt >>= g.follow) c s =
      ((Effect.ends <$> E.stmt [] stmt) c s).bind fun e t => (e.next (t.queue g)).settle g t := by
    show (E.stmt [] stmt c s).bind _ = ((E.stmt [] stmt c s).bind _).bind _
    cases E.stmt [] stmt c s with
    | value completion t => exact g.follow_eq completion c t
    | abrupt => rfl
    | exhausted => rfl
  cases stmt with
  | yields value =>
    cases value with
    | none => rfl
    | some e => exact evaluated e _ .yields fun _ _ => rfl
  | block body => rfl
  | ifElse test consequent alternate => exact evaluated test _ _ fun _ _ => rfl
  | whileLoop test body =>
    refine evaluated test _ _ fun v t => ?_
    cases v.toBoolean with
    | true => rfl
    | false =>
      show Outcome.value none t = .value none (t.setQueue g (t.queue g))
      rw [t.setQueue_queue]
  | _ => exact whole

/-- Driving a generator that has something left to do. -/
theorem drive_cons {E : Engine} {g : GeneratorRef} {c : Config} {s : Store} {step : GeneratorStep}
    {rest : List GeneratorStep} (left : s.queue g = step :: rest) (budget : Nat) :
    g.drive E (budget + 1) c s = (g.runStep E step.stmt c (s.setQueue g rest)).bind fun pause t =>
      pause.elim (g.drive E budget c t) (.value · t) := by
  have read : g.steps c s = .value (step :: rest) s := congrArg (Outcome.value · s) left
  rw [drive, Action.bind_apply, read]
  show (g.runStep E step.stmt c (s.setQueue g rest)).bind _ = _
  cases g.runStep E step.stmt c (s.setQueue g rest) with
  | value pause t => cases pause <;> rfl
  | abrupt => rfl
  | exhausted => rfl

theorem drive_nil {E : Engine} {g : GeneratorRef} {c : Config} {s : Store} (left : s.queue g = []) (budget : Nat) :
    g.drive E (budget + 1) c s = .value (.returns .undefined) s := by
  have read : g.steps c s = .value [] s := congrArg (Outcome.value · s) left
  rw [drive, Action.bind_apply, read]
  rfl

end GeneratorRef

/-- Emits what a generator yields and goes on. -/
def Pause.run (onward : Emitter Value) : Pause → Emitter Value
  | yields v => do
    Emitter.emit v
    onward
  | returns v => pure v

/-- Drives a generator again whenever it stops at a `yield`, at most as often as given. -/
def GeneratorRef.drain (E : Engine) (g : GeneratorRef) (ctx : Context) : (rounds : Nat) → Emitter Value
  | 0 => .lift .exhaust
  | rounds + 1 => do
    (← .lift ((g.drive E E.budget).inContext ctx)).run (g.drain E ctx rounds)

/-- The same where the generator is under way, in its context. -/
def GeneratorRef.carryOn (E : Engine) (g : GeneratorRef) (ctx : Context) (budget rounds : Nat) : Emitter Value := do
  (← .lift ((g.drive E budget).ensuring Store.popContext)).run (g.drain E ctx rounds)

/-- Does what is next, in the context of the generator. -/
def Next.resolve (onward pausing : List GeneratorStep → Store → Emission Value) (s : Store) : Next → Emission Value
  | go steps => onward steps s
  | yields v steps => (pausing steps s).after [v]
  | returns v => ⟨[], .value v s.popContext⟩
  | fails f => ⟨[], .abrupt (.fault f) s.popContext⟩

/-- Goes on after a step, in the context of the generator. -/
def resolve (left : Store → List GeneratorStep) (onward pausing : List GeneratorStep → Store → Emission Value) :
    Outcome Effect → Emission Value
  | .value e s => (e.next (left s)).resolve onward pausing s
  | .abrupt e s => ⟨[], .abrupt e s.popContext⟩
  | .exhausted s => ⟨[], .exhausted s⟩

theorem flow_resolve (E : Engine) (budget : Nat) (step : GeneratorStep) (rest : List GeneratorStep) (c : Config)
    (s : Store) :
    (flow E (budget + 1) (step :: rest)).ensuring Store.popContext c s =
      resolve (fun _ => rest) (fun steps => (flow E budget steps).ensuring Store.popContext c)
        (fun steps => (flow E budget steps).ensuring Store.popContext c) (GeneratorStep.effect E step.stmt c s) := by
  show Emission.cleaned _ (Emission.bind ⟨[], GeneratorStep.effect E step.stmt c s⟩ _) = _
  cases GeneratorStep.effect E step.stmt c s with
  | value e t =>
    show Emission.cleaned _ (((e.next rest).run (flow E budget) c t).after []) = (e.next rest).resolve _ _ t
    cases e.next rest <;> rfl
  | abrupt => rfl
  | exhausted => rfl

namespace GeneratorRef

variable {E : Engine} {g : GeneratorRef} {ctx : Context} {c : Config} {s : Store}

theorem carryOn_resolve {step : GeneratorStep} {rest : List GeneratorStep} (left : s.queue g = step :: rest)
    (budget rounds : Nat) :
    g.carryOn E ctx (budget + 1) rounds c s =
      resolve (·.queue g) (fun steps t => g.carryOn E ctx budget rounds c (t.setQueue g steps))
        (fun _ t => g.drain E ctx rounds c t.popContext)
        (GeneratorStep.effect E step.stmt c (s.setQueue g rest)) := by
  show Emission.bind ⟨[], (g.drive E (budget + 1) c s).cleaned _⟩ _ = _
  rw [drive_cons left, runStep_eq]
  cases GeneratorStep.effect E step.stmt c (s.setQueue g rest) with
  | value e t =>
    dsimp only [Outcome.bind, resolve]
    cases e.next (t.queue g) <;> rfl
  | abrupt => rfl
  | exhausted => rfl

theorem carryOn_nil (left : s.queue g = []) (budget rounds : Nat) :
    g.carryOn E ctx (budget + 1) rounds c s = ⟨[], .value .undefined s.popContext⟩ := by
  show Emission.bind ⟨[], (g.drive E (budget + 1) c s).cleaned _⟩ _ = _
  rw [drive_nil left]
  rfl

/-- The next round begins where the last one left the context. -/
theorem drain_succ (room : s.depth < c.maxCallDepth) (rounds : Nat) :
    g.drain E ctx (rounds + 1) c s = g.carryOn E ctx E.budget rounds c (s.pushContext ctx) := by
  show Emission.bind ⟨[], (Action.enterContext ctx c s).bind _⟩ _ = _
  rw [Action.enterContext_of_room room]
  rfl

end GeneratorRef

/-- A generator that yields goes on with the rest of its queue. -/
theorem Effect.steps_of_yields {e : Effect} {rest steps : List GeneratorStep} {v : Value}
    (h : e.next rest = .yields v steps) : steps = rest := by
  have jump (keepLoop : Bool) (f : Fault) :
      ((GeneratorStep.jump? keepLoop rest).map Next.go).getD (.fails f) ≠ .yields v steps := by
    cases GeneratorStep.jump? keepLoop rest <;> exact nofun
  cases e with
  | push front => cases h
  | yields v =>
    cases h
    rfl
  | ends c =>
    cases c with
    | normal v => cases h
    | returns v => cases h
    | breaks l =>
      cases l with
      | none => exact absurd h (jump false .strayBreak)
      | some l => cases h
    | continues l =>
      cases l with
      | none => exact absurd h (jump true .strayContinue)
      | some l => cases h

theorem resolve_below {R R' : Store → Store → Prop} {left left' : Store → List GeneratorStep}
    {f f' p p' : List GeneratorStep → Store → Emission Value} {o o' : Outcome Effect}
    (h : (Emission.mk [] o).Below R ⟨[], o'⟩) (same : ∀ {s t}, R s t → left s = left' t)
    (onward : ∀ {s t} steps, R s t → (f steps s).Below R' (f' steps t))
    (pausing : ∀ {s t}, R s t → (p (left s) s).Below R' (p' (left s) t))
    (popped : ∀ {s t}, R s t → R' s.popContext t.popContext) :
    (resolve left f p o).Below R' (resolve left' f' p' o') := by
  cases h with
  | exhausted => exact .exhausted List.nil_prefix
  | abrupt related => exact .abrupt (popped related)
  | @value _ e s t related =>
    show Emission.Below R' ((e.next (left s)).resolve f p s) ((e.next (left' t)).resolve f' p' t)
    rw [← same related]
    cases next : e.next (left s) with
    | go steps => exact onward steps related
    | yields v steps =>
      obtain rfl := Effect.steps_of_yields next
      exact (pausing related).after [v]
    | returns v => exact .value (popped related)
    | fails f => exact .abrupt (popped related)

end Ecma
