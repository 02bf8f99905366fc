import Ecma.Proofs.History
import Ecma.Proofs.Law.Call

/-!
# Programs obey every law

A program as a whole, from its declarations to the answer that the host is given, and one program after the other on one
machine.
-/

namespace Ecma

namespace Law

variable {L : Law} {E E' : Engine} {c : Config} {w : L.World} {p : Program}

theorem result_obeys {r : Completion} (known : L.completion w r) : L.Obeys c w r.result r.result L.value := by
  cases r with
  | normal v => exact .pure (value_getD known)
  | returns v => exact .fail (L.permits_kind nofun)
  | breaks l => exact .fail (L.permits_kind nofun)
  | continues l => exact .fail (L.permits_kind nofun)

theorem context_global (strict : Bool) : L.context w (.global strict) :=
  ⟨L.global w strict, L.global w strict, L.intrinsic w .global, L.within_refl w .global, .inl rfl⟩

/-- An internal report comes of a fault that was permitted. -/
def answer (L : Law) (_ : L.World) (r : Except Report String) : Prop :=
  ∀ message site, r = .error (.internal message site) → ∃ f, L.permits f ∧ f.kind = .internal

theorem ofError_ne_internal (name text message : String) (site : Site) :
    Report.ofError name text ≠ .internal message site := by
  unfold Report.ofError
  split <;> nofun

variable (H : L.Engines E E')
include H

theorem evaluateIn_obeys {kind : CodeKind} {ctx : Context} (known : L.context w ctx)
    (allowed : L.declares w ctx.vars kind.deletable) :
    L.Obeys c w (p.evaluateIn E kind ctx) (p.evaluateIn E' kind ctx) L.value := by
  refine .inContext known .value fun u le left => ?_
  have top : (L.left u).contexts = ctx :: (L.left w).contexts := by rw [left]; rfl
  refine .bind (instantiate_obeys H top (L.declares_mono le allowed) nofun) fun _ _ reached bound => ?_
  exact .bind (evaluateBody_obeys H (.of_contexts (reached.contexts.trans top) bound)) fun _ _ _ post => result_obeys post

theorem program_obeys : L.Obeys c w (p.evaluate E) (p.evaluate E') L.value :=
  .config_bind (evaluateIn_obeys H (context_global _) (L.declares_fixed w .global))

/-- Eval code that no code called. -/
theorem evaluateEval_obeys : L.Obeys c w (p.evaluateEval E false) (p.evaluateEval E' false) L.value := by
  refine .read_bind (fun _ _ => by simp) (.ite (fun _ => ?_) fun _ =>
    evaluateIn_obeys H (context_global false) (L.declares_global w _))
  exact .bind (.evalScope (L.global w true)) fun _ _ _ made =>
    evaluateIn_obeys H ⟨made.1, made.1, L.intrinsic _ .global, L.within_refl .., .inr made.2.2⟩ made.2.1

theorem report_obeys {e : Abrupt} (known : L.abrupt w e) :
    L.Obeys c w (e.report E) (e.report E') fun u r => L.answer u (.error r) := by
  cases e with
  | fault f =>
    refine .pure fun message site h => ⟨f, known, ?_⟩
    have same : f.report = .internal message site := Except.error.inj h
    unfold Fault.report at same
    cases kind : f.kind <;> simp_all
  | thrown v =>
    cases v with
    | object o =>
      refine .read_bind (fun _ _ => by simp)
        (.ite (fun _ => .read (fun _ _ => by simp) fun message site h => ?_) fun _ => ?_)
      · exact absurd (Except.error.inj h) (ofError_ne_internal _ _ message site)
      · refine .bind (.attempt (toText_obeys H known)) fun r u _ _ => ?_
        cases r with
        | ok t => exact .pure nofun
        | error e => exact .read (fun _ _ => by simp) nofun
    | _ => exact .read (fun _ _ => by simp) nofun

theorem observe_obeys {x y : Action Value} (hx : L.Obeys c w x y L.value) :
    L.Obeys c w (x.observe E) (y.observe E') L.answer := by
  refine .bind (.attempt (.bind hx fun v u _ held => toText_obeys H held)) fun r u _ post => ?_
  cases r with
  | ok t => exact .pure nofun
  | error e => exact .map (report_obeys H post) fun _ _ _ h => h

theorem unit_obeys (u : CodeUnit) : L.Obeys c w (u.action E) (u.action E') L.answer := by
  cases u with
  | global p => exact observe_obeys H (program_obeys H)
  | eval p => exact observe_obeys H (evaluateEval_obeys H)

omit H

/-- The stores on a path are those of worlds that follow each other. -/
theorem Trail.worlds {limit : Nat} {u : L.World} {path : List Moment} (h : L.Trail limit w path u) :
    ∃ ws : List L.World, ws.map L.left = path.filterMap Moment.store? ∧ ws.Pairwise L.le ∧
      ∀ v ∈ ws, L.le w v ∧ L.le v u := by
  induction h with
  | done => exact ⟨[], rfl, .nil, List.forall_mem_nil _⟩
  | @reached w v u path onward _ rest ih =>
    obtain ⟨ws, stores, ordered, between⟩ := ih
    refine ⟨v :: ws, ?_, .cons (fun x mem => (between x mem).1) ordered, ?_⟩
    · rw [List.map_cons, stores]
      rfl
    · exact List.forall_mem_cons.2
        ⟨⟨onward.le, rest.le⟩, fun x mem => ⟨L.trans onward.le (between x mem).1, (between x mem).2⟩⟩
  | raised _ _ ih => exact ih
  | noted onward _ _ ih =>
    obtain ⟨ws, stores, ordered, between⟩ := ih
    exact ⟨ws, stores, ordered, fun x mem => ⟨L.trans onward.le (between x mem).1, (between x mem).2⟩⟩
  | turned onward _ le _ ih =>
    obtain ⟨ws, stores, ordered, between⟩ := ih
    exact ⟨ws, stores, ordered, fun x mem =>
      ⟨L.trans onward.le (L.trans le (between x mem).1), (between x mem).2⟩⟩

/-- Stores that are those of worlds which follow each other and a first one. -/
def Follows (L : Law) (w : L.World) (stores : List Store) : Prop :=
  ∃ ws : List L.World, ws.map L.left = stores ∧ ws.Pairwise L.le ∧ ∀ v ∈ ws, L.le w v

theorem Follows.singleton : L.Follows w [L.left w] :=
  ⟨[w], rfl, List.pairwise_singleton .., List.forall_mem_cons.2 ⟨L.refl w, List.forall_mem_nil _⟩⟩

/-- What follows the end of a path follows its beginning. -/
theorem Trail.follows {limit : Nat} {u : L.World} {path : List Moment} {stores : List Store}
    (h : L.Trail limit w path u) (later : L.Follows u stores) :
    L.Follows w (L.left w :: path.filterMap Moment.store? ++ stores) := by
  obtain ⟨passed, stores', ordered, between⟩ := h.worlds
  obtain ⟨rest, stores'', ordered', after⟩ := later
  have follows : ∀ v ∈ passed ++ rest, L.le w v :=
    List.forall_mem_append.2 ⟨fun v mem => (between v mem).1, fun v mem => L.trans h.le (after v mem)⟩
  refine ⟨w :: (passed ++ rest), ?_, ?_, List.forall_mem_cons.2 ⟨L.refl w, follows⟩⟩
  · rw [List.map_cons, List.map_append, stores', stores'']
    rfl
  · exact .cons follows (List.pairwise_append.2 ⟨ordered, ordered', fun v mem v' mem' =>
      L.trans (between v mem).2 (after v' mem')⟩)

/-- What a law knows of a history that starts in a world. -/
structure Governs (L : Law) (w : L.World) (m : Machine) (units : List (Nat × CodeUnit)) : Prop where
  worlds : L.Follows w (m.states units)
  faults : ∀ f, .raised f ∈ m.moments units → L.permits f
  events : ∀ e s, .noted e s ∈ m.moments units →
    (∃ v, L.left v = s ∧ L.le w v ∧ L.lawful v e) ∨ ∃ t : Store, t.Turns e s
  answers : ∀ message site, some (.error (.internal message site)) ∈ m.answers units →
    ∃ f, L.permits f ∧ f.kind = .internal

/-- What a law says of every unit it says of a whole history. -/
theorem governs (exotics : L.Exotics) (lenient : ∀ o v, L.allows o v) {m : Machine} (start : L.left w = m.store)
    (units : List (Nat × CodeUnit)) : L.Governs w m units := by
  induction units generalizing w m with
  | nil =>
    refine ⟨?_, nofun, nofun, nofun⟩
    rw [Machine.states, ← start]
    exact .singleton
  | cons unit rest ih =>
    obtain ⟨budget, unit⟩ := unit
    have obeys : L.Obeys m.config w (unit.action (.ofBudget budget)) (unit.action (.ofBudget budget)) L.answer :=
      unit_obeys (engines_ofBudget exotics (Nat.le_refl budget)) unit
    obtain ⟨u, trail, ends⟩ := obeys fun o v _ => lenient o v
    have next : L.left u = (m.runUnit budget unit).2.store := by rw [Machine.store_runUnit, ← start, ends.store]
    obtain ⟨worlds, faults, events, answers⟩ := ih next
    have stores := trail.follows worlds
    have whole := trail.le
    rw [start] at trail ends stores
    refine ⟨stores, fun f mem => ?_, fun e s mem => ?_, fun message site mem => ?_⟩
    · rcases List.mem_append.1 mem with now | later
      · exact trail.fault now
      · exact faults f later
    · rcases List.mem_append.1 mem with now | later
      · exact trail.event now
      · exact (events e s later).imp_left fun ⟨v, left, le, lawful⟩ => ⟨v, left, L.trans whole le, lawful⟩
    · rcases List.mem_cons.1 mem with now | later
      · obtain ⟨s, run, _⟩ := Machine.answer_runUnit now.symm
        rw [run] at ends
        generalize unit.action (.ofBudget budget) m.config (L.right w) = other at ends
        cases ends with
        | value _ post => exact post message site rfl
      · exact answers message site later

end Law

end Ecma
