import Ecma.Proofs.ContextStack
import Ecma.Proofs.Silent

/-!
# Jumps do not escape

Where every jump of a body leads somewhere, none leads out of it. A call or a program has nothing to complain of then, and
a generator with such a body finds the boundary that each jump leads to in its queue, whenever it is resumed and whatever
has happened in between. That rests on two facts: nothing but its own steps touches the queue of a generator that is
running, and each of these leaves a queue in which all jumps lead somewhere.
-/

namespace Ecma

/-- What gives a value leaves the generators that were running meanwhile. -/
theorem Agreement.leaves {α : Type} {x : Action α} {c : Config} {s t : Store} {a : α} {g : GeneratorRef} {gen : Generator}
    (obeys : ∀ w, (Law.agreement (some g)).Obeys c w x x (Law.agreement (some g)).any) (run : x c s = .value a t)
    (found : s.generator? g = some gen) (running : gen.status = .running) : t.generator? g = some gen := by
  have alike : s.AgreeBut (some g) s := by
    refine ⟨rfl, rfl, fun _ _ => rfl, fun own same => ?_⟩
    cases same
    exact ⟨gen, gen, found, found, running, running, rfl⟩
  obtain ⟨u, _, ends⟩ := obeys ⟨(s, s), alike⟩ fun _ _ _ => trivial
  obtain ⟨rfl, reached⟩ := ends.finishes (t := t) (run ▸ .value a t)
  exact reached.le.1 g rfl gen found

theorem Engine.steady_ofBudget (n : Nat) : (Engine.ofBudget n).Steady where
  expr := Agreement.leaves fun _ => .weaken (Agreement.engines (Nat.le_refl n)).expr
  stmt := Agreement.leaves fun _ => .weaken ((Agreement.engines (Nat.le_refl n)).stmt Agreement.ready)

namespace Aiming

/-- A store and generators all of whose jumps lead somewhere. Of those that have not started, all such are among them. -/
structure World where
  store : Store
  watched : GeneratorRef → Prop
  aimed : ∀ g gen, watched g → store.generator? g = some gen → GeneratorStep.aimed gen.steps = true
  fresh : ∀ g gen, store.generator? g = some gen → gen.status = .suspendedStart →
    GeneratorStep.aimed gen.steps = true → watched g

namespace World

/-- Generators stay, and the same of them are watched. -/
structure Le (w u : World) : Prop where
  size : w.store.generators.size ≤ u.store.generators.size
  watched : ∀ g, g.index < w.store.generators.size → (u.watched g ↔ w.watched g)

variable {w u v : World}

theorem Le.refl (w : World) : w.Le w := ⟨Nat.le_refl _, fun _ _ => .rfl⟩

theorem Le.trans (first : w.Le u) (second : u.Le v) : w.Le v :=
  ⟨Nat.le_trans first.size second.size, fun g inside =>
    (second.watched g (Nat.lt_of_lt_of_le inside first.size)).trans (first.watched g inside)⟩

theorem index_lt {s : Store} {g : GeneratorRef} {gen : Generator} (found : s.generator? g = some gen) :
    g.index < s.generators.size := (Array.getElem?_eq_some_iff.1 found).1

/-- The world of a store with the same generators. -/
def withStore (w : World) (s : Store) (same : s.generators = w.store.generators) : World where
  store := s
  watched := w.watched
  aimed g gen watched found := w.aimed g gen watched (by rw [Store.generator?, ← same]; exact found)
  fresh g gen found := w.fresh g gen (by rw [Store.generator?, ← same]; exact found)

theorem le_withStore {s : Store} (same : s.generators = w.store.generators) : w.Le (w.withStore s same) :=
  ⟨Nat.le_of_eq (congrArg Array.size same.symm), fun _ _ => .rfl⟩

/-- The world when a generator is made. -/
def addGenerator (w : World) (gen : Generator) : World where
  store := w.store.addGenerator gen
  watched g := if g.index = w.store.generators.size then GeneratorStep.aimed gen.steps = true else w.watched g
  aimed g old watched found := by
    rw [Store.generator?_addGenerator] at found
    split at found
    next last =>
      cases found
      rwa [if_pos last] at watched
    next old =>
      rw [if_neg old] at watched
      exact w.aimed g _ watched found
  fresh g old found fresh aimed := by
    rw [Store.generator?_addGenerator] at found
    split at found
    next last =>
      cases found
      rwa [if_pos last]
    next old =>
      rw [if_neg old]
      exact w.fresh g _ found fresh aimed

theorem le_addGenerator (gen : Generator) : w.Le (w.addGenerator gen) where
  size := by
    show _ ≤ (w.store.generators.push gen).size
    rw [Array.size_push]
    exact Nat.le_succ _
  watched g inside := by
    show (if _ then _ else _) ↔ _
    rw [if_neg (Nat.ne_of_lt inside)]

/-- The world when a generator does a step or comes to another state. -/
def modifyGenerator (w : World) (g : GeneratorRef) (f : Generator → Generator)
    (started : ∀ gen, w.store.generator? g = some gen → (f gen).status ≠ .suspendedStart)
    (aimed : w.watched g → ∀ gen, w.store.generator? g = some gen → GeneratorStep.aimed (f gen).steps = true) : World where
  store := w.store.modifyGenerator g f
  watched := w.watched
  aimed other gen watched found := by
    rw [Store.generator?_modifyGenerator] at found
    split at found
    next same =>
      subst same
      obtain ⟨old, there, rfl⟩ := Option.map_eq_some_iff.1 found
      exact aimed watched old there
    · exact w.aimed other gen watched found
  fresh other gen found fresh aimed := by
    rw [Store.generator?_modifyGenerator] at found
    split at found
    next same =>
      subst same
      obtain ⟨old, there, rfl⟩ := Option.map_eq_some_iff.1 found
      exact absurd fresh (started old there)
    · exact w.fresh other gen found fresh aimed

end World

/-- Worlds in which the generators that are watched stay so. -/
def frame : Frame (.lenient World.store (fun _ _ _ => True) (fun _ => True) World.watched) where
  right := World.store
  le := World.Le
  allows _ _ := True
  refl := .refl
  trans := .trans
  agree _ := rfl
  agree_size _ := rfl
  agree_drives _ := rfl
  agree_head _ _ := rfl
  drives_idle _ := trivial
  change {w F} made := by
    rcases made.blind with ⟨_, keeps⟩ | ⟨gen, rfl⟩ | ⟨g, f, _, started, aimed, rfl⟩
    · exact ⟨w.withStore (F w.store) (keeps _), rfl, rfl, World.le_withStore _⟩
    · exact ⟨w.addGenerator gen, rfl, rfl, World.le_addGenerator gen⟩
    · exact ⟨w.modifyGenerator g f started aimed, rfl, rfl, by simp [World.modifyGenerator, Store.modifyGenerator],
        fun _ _ => .rfl⟩
  enclose {w strict scope} _ :=
    ⟨w.withStore (w.store.addScope scope) rfl, rfl, rfl, World.le_withStore _, trivial, trivial, fun _ _ _ _ => trivial⟩

end Aiming

/-- The law of runs in which no jump of a generator that is watched goes astray. -/
def Law.aiming : Law :=
  .ofFrame Aiming.frame (fun _ _ => trivial) (fun _ _ => trivial)
    (fun le found => le.watched _ (Aiming.World.index_lt found)) fun watched found => Aiming.World.aimed _ _ _ watched found

namespace Aiming

theorem aliases : Law.aiming.Aliases := by
  refine .of_free (fun _ => trivial) (fun _ _ => trivial) fun {c w o name} _ => ?_
  have onward : Law.aiming.Onward w (World.withStore w (w.store.modifyObject o (·.detached name)) rfl) :=
    .of_generators (World.le_withStore _) rfl
  exact fun _ => ⟨_, .done onward, .value_of (onward.reached rfl) trivial rfl rfl⟩

theorem exotics : Law.aiming.Exotics := .of_aliases aliases (fun _ _ _ => trivial) fun _ => Engine.steady_ofBudget

/-- The world of a store, and the generators in it all of whose jumps lead somewhere. -/
def start (s : Store) : World where
  store := s
  watched g := ∃ gen, s.generator? g = some gen ∧ GeneratorStep.aimed gen.steps = true
  aimed g gen := by
    rintro ⟨_, there, aimed⟩ found
    cases there.symm.trans found
    exact aimed
  fresh g gen found _ aimed := ⟨gen, found, aimed⟩

variable {w : World} {m : Machine} {units : List (Nat × CodeUnit)} {g : GeneratorRef} {gen : Generator}

/-- No jump of a generator that is watched goes astray. -/
theorem not_strays (begins : w.store = m.store) (watched : w.watched g) (inside : g.index < w.store.generators.size)
    (t : Store) : .noted (.strays g) t ∉ m.moments units := by
  intro mem
  have governs : Law.aiming.Governs w m units := Law.governs exotics (fun _ _ => trivial) begins units
  rcases governs.events _ t mem with ⟨v, _, le, lawful⟩ | ⟨_, turns⟩
  · exact lawful ((le.watched g inside).2 watched)
  · cases turns

/-- No jump of a generator goes astray from when it is seen not to have started, with jumps that all lead somewhere. -/
theorem not_strays_after {before after : List Moment} {s : Store} (split : m.moments units = before ++ .reached s :: after)
    (found : s.generator? g = some gen) (unstarted : gen.status = .suspendedStart)
    (aimed : GeneratorStep.aimed gen.steps = true) (t : Store) : .noted (.strays g) t ∉ after := by
  induction units generalizing m before with
  | nil => cases before <;> cases split
  | cons unit rest ih =>
    obtain ⟨budget, unit⟩ := unit
    have obeys : Law.aiming.Obeys m.config (start m.store) (unit.action (.ofBudget budget)) (unit.action (.ofBudget budget))
        Law.aiming.answer := Law.unit_obeys (Law.engines_ofBudget exotics (Nat.le_refl budget)) unit
    obtain ⟨u, trail, ends⟩ := obeys fun _ _ _ => trivial
    have next : u.store = (m.runUnit budget unit).2.store := by
      rw [Machine.store_runUnit]
      exact ends.store.symm
    rcases List.append_eq_append_iff.1 split with ⟨between, _, later⟩ | ⟨between, now, follows⟩
    · exact ih later
    · cases between with
      | nil =>
        have later : (m.runUnit budget unit).2.moments rest = [] ++ .reached s :: after := follows.symm
        exact ih later
      | cons moment between =>
        cases follows
        change Law.aiming.Trail _ _ ((unit.action (.ofBudget budget)).path m.config m.store) u at trail
        rw [now] at trail
        obtain ⟨v, rfl, _, rest⟩ := trail.after
        have inside := World.index_lt found
        have watched : World.watched v g := World.fresh v g gen found unstarted aimed
        intro mem
        rcases List.mem_append.1 mem with soon | later
        · rcases rest.event soon with ⟨x, _, le, lawful⟩ | ⟨_, turns⟩
          · exact lawful ((le.watched g inside).2 watched)
          · cases turns
        · have le : World.Le v u := rest.le
          exact not_strays next ((le.watched g inside).2 watched) (Nat.lt_of_lt_of_le inside le.size) t later

end Aiming

section Bodies

variable {c : Config} {s t : Store} {body : List Stmt}

/-- A jump out of a body is seen. -/
theorem Stmt.mem_path_evaluateBody {E : Engine} {r : Completion} (run : evaluateBody E body c s = .value r t)
    (jumps : r.isJump = true) : .noted (.escapes body) t ∈ (evaluateBody E body).path c s := by
  rw [evaluateBody_run] at run
  refine Action.mem_path_bind_right run ?_
  rw [if_pos jumps]
  exact List.mem_cons_self ..

/-- A body with a jump out of it has a jump that leads nowhere. -/
theorem Law.Trail.not_aimed {L : Law} {limit : Nat} {w u : L.World} {path : List Moment} (trail : L.Trail limit w path u)
    (mem : .noted (.escapes body) t ∈ path) : Stmt.aimedAll .nowhere body = false := by
  rcases trail.event mem with ⟨_, _, _, lawful⟩ | ⟨_, turns⟩
  · exact lawful
  · cases turns

theorem operation_keeps_jumps (n : Nat) {α : Type} (op : Operation α)
    (mem : .noted (.escapes body) t ∈ (op.action (.ofBudget n)).path c s) : Stmt.aimedAll .nowhere body = false := by
  obtain ⟨_, trail, _⟩ := operation_obeys n op c (Agreement.diagonal s) fun _ _ _ => trivial
  exact trail.not_aimed mem

theorem program_keeps_jumps (n : Nat) {kind : CodeKind} {p : Program} {ctx : Context}
    (mem : .noted (.escapes body) t ∈ (p.evaluateIn (.ofBudget n) kind ctx).path c s) :
    Stmt.aimedAll .nowhere body = false := by
  have obeys : (Law.agreement none).Obeys c (Agreement.diagonal s) (p.evaluateIn (.ofBudget n) kind ctx)
      (p.evaluateIn (.ofBudget n) kind ctx) (Law.agreement none).value :=
    Law.evaluateIn_obeys (Agreement.engines (Nat.le_refl n)) ⟨trivial, trivial, trivial, trivial, .inr trivial⟩ trivial
  obtain ⟨_, trail, _⟩ := obeys fun _ _ _ => trivial
  exact trail.not_aimed mem

/-- What no jump has ended is a value to a call, and no jump to a program. -/
theorem Completion.concludes {r : Completion} (stays : r.isJump = false) :
    (∃ v, r.returned c t = .value v t) ∧ r.result c t ≠ .abrupt (.fault .strayJump) t := by
  cases r with
  | normal v => exact ⟨⟨_, rfl⟩, nofun⟩
  | returns v => exact ⟨⟨_, rfl⟩, nofun⟩
  | breaks | continues => cases stays

end Bodies

/-- A body all of whose jumps lead somewhere ends with no jump, from whatever store it is run, so that a call or a program
goes on as it should. A call or program that has come to a jump out of a body, which is always seen, has come to one in
which some jump leads nowhere. And whatever is run, once a generator with such a body is made, no jump of it goes astray. -/
theorem aimed_jumps_stay :
    (∀ n body, Stmt.aimedAll .nowhere body = true → ∀ c s r t,
        Stmt.evaluateList (.ofBudget n) body c s = .value r t →
          r.isJump = false ∧ (∃ v, r.returned c t = .value v t) ∧ r.result c t ≠ .abrupt (.fault .strayJump) t) ∧
      (∀ E body c s r t, Stmt.evaluateBody E body c s = .value r t → r.isJump = true →
        .noted (.escapes body) t ∈ (Stmt.evaluateBody E body).path c s) ∧
      (∀ n {α : Type} (op : Operation α) c s body t, .noted (.escapes body) t ∈ (op.action (.ofBudget n)).path c s →
        Stmt.aimedAll .nowhere body = false) ∧
      (∀ n p kind ctx c s body t, .noted (.escapes body) t ∈ (Program.evaluateIn (.ofBudget n) kind p ctx).path c s →
        Stmt.aimedAll .nowhere body = false) ∧
      ∀ (m : Machine) units before s after g ctx body, m.moments units = before ++ .reached s :: after →
        s.generator? g = some ⟨.suspendedStart, ctx, GeneratorStep.ofBody body⟩ → Stmt.aimedAll .nowhere body = true →
          ∀ t, .noted (.strays g) t ∉ after := by
  refine ⟨fun n body aimed c s r t run => ?_, fun _ _ _ _ _ _ => Stmt.mem_path_evaluateBody,
    fun n _ op _ _ _ _ => operation_keeps_jumps n op, fun n _ _ _ _ _ _ _ => program_keeps_jumps n, ?_⟩
  · have allowed : Targets.nowhere.allows r = true :=
      Stmt.evaluateList_gives (Engine.aims_ofBudget n) aimed c s r t run
    have stays : r.isJump = false := by simpa [Targets.nowhere_allows] using allowed
    exact ⟨stays, Completion.concludes stays⟩
  · intro m units before s after g ctx body split found aimed
    exact Aiming.not_strays_after split found rfl (GeneratorStep.aimed_ofBody.trans aimed)

/-- A loop in a loop, with a jump out of both. -/
def Stmt.leavesLoops : List Stmt :=
  [.label "a" (.whileLoop (.boolean true) [.whileLoop (.boolean true) [.breaks (some "a")]])]

/-- A loop with a `yield` and a jump out of it. -/
def Stmt.yieldsInLoop : List Stmt := [.whileLoop (.boolean true) [.yields none, .breaks none]]

/-- A machine on which a generator with such a loop has been made. -/
def Machine.withLoop : Machine :=
  (Machine.new .standard).after [(9, .global ⟨[.declare [⟨"it", some (.call (.function
    ⟨none, [], Stmt.yieldsInLoop, false, true⟩) [])⟩]], false⟩)]

/-- Resumes the generator. -/
def CodeUnit.resumesLoop : CodeUnit := .global ⟨[.expr (.call (.member (.ident "it") "next") [])], false⟩

/-- A jump out of two loops; a jump out of a program; and a generator that is resumed twice and comes to a jump then. -/
theorem aimed_jumps_stay_loops :
    (∃ r t, Stmt.evaluateList (.ofBudget 5) Stmt.leavesLoops .standard .initial = .value r t ∧ r.isJump = false) ∧
      (∃ t, .noted (.escapes [.breaks none]) t ∈
          (Program.evaluateIn (.ofBudget 3) .global ⟨[.breaks none], false⟩ (.global false)).path .standard .initial ∧
        Stmt.aimedAll .nowhere [.breaks none] = false) ∧
      ∀ t, .noted (.strays ⟨0⟩) t ∉ (Machine.withLoop.moments [(9, .resumesLoop), (9, .resumesLoop)]).tail := by
  obtain ⟨stays, _, _, seen, generators⟩ := aimed_jumps_stay
  refine ⟨?_, ?_, ?_⟩
  · have run : Stmt.evaluateList (.ofBudget 5) Stmt.leavesLoops .standard .initial = .value _ _ := rfl
    exact ⟨_, _, run, (stays 5 _ rfl _ _ _ _ run).1⟩
  · have mem : .noted (.escapes [.breaks none]) _ ∈
        (Program.evaluateIn (.ofBudget 3) .global ⟨[.breaks none], false⟩ (.global false)).path .standard .initial :=
      List.mem_of_getElem? (i := 4) rfl
    exact ⟨_, mem, seen 3 _ _ _ _ _ _ _ mem⟩
  · have made : Machine.withLoop.store.generator? ⟨0⟩ = some ⟨.suspendedStart,
        ⟨⟨1⟩, ⟨1⟩, .object Intrinsic.global.ref, false, none⟩, GeneratorStep.ofBody Stmt.yieldsInLoop⟩ := rfl
    have first : Machine.withLoop.moments [(9, .resumesLoop), (9, .resumesLoop)] =
        [] ++ .reached Machine.withLoop.store ::
          (Machine.withLoop.moments [(9, .resumesLoop), (9, .resumesLoop)]).tail := rfl
    exact generators _ _ _ _ _ _ _ _ first made rfl

end Ecma
