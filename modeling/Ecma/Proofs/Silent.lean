import Ecma.Action

/-!
# Actions that pass silently

Some actions run no code and raise nothing: they give a value and leave a store, and that is all there is to say about
them. Others may also end with a fault, but still run no code: they are quiet. A request that is turned down is quiet,
and has a fault only where its caller asked for one.
-/

namespace Ecma

namespace Action

section Bind

variable {α β : Type} {x : Action α} {f : α → Action β} {c : Config} {s t : Store} {moment : Moment}

theorem bind_apply (x : Action α) (f : α → Action β) (c : Config) (s : Store) :
    (x >>= f) c s = (x c s).bind fun a t => f a c t := rfl

theorem bind_run {a : α} (run : x c s = .value a t) (f : α → Action β) : (x >>= f) c s = f a c t := by
  rw [bind_apply, run]
  rfl

theorem read_bind_run (r : Store → α) (f : α → Action β) : (read r >>= f) c s = f (r s) c s := rfl

/-- An action that gave a value was carried out, and so was what followed it. -/
theorem exists_of_bind_eq_value {b : β} (run : (x >>= f) c s = .value b t) :
    ∃ a u, x c s = .value a u ∧ f a c u = .value b t := by
  rw [bind_apply] at run
  cases first : x c s with
  | value a u =>
    rw [first] at run
    exact ⟨a, u, rfl, run⟩
  | abrupt e u =>
    rw [first] at run
    cases run
  | exhausted u =>
    rw [first] at run
    cases run

theorem path_bind (x : Action α) (f : α → Action β) (c : Config) (s : Store) :
    (x >>= f).path c s = x.path c s ++ (x c s).pathAfter fun a t => (f a).path c t := rfl

theorem mem_path_bind_left (mem : moment ∈ x.path c s) : moment ∈ (x >>= f).path c s := List.mem_append_left _ mem

theorem mem_path_bind_right {a : α} (run : x c s = .value a t) (mem : moment ∈ (f a).path c t) :
    moment ∈ (x >>= f).path c s := by
  refine List.mem_append_right _ ?_
  rw [run]
  exact mem

end Bind

theorem reject_ne_true {throw : Bool} {f : Fault} {c : Config} {s t : Store} :
    reject throw f c s ≠ .value true t := by
  cases throw <;> simp [reject, fail, once, Pure.pure, Action.pure]

/-- An action gives a value and leaves a store, and nothing happens under way. -/
structure Does {α : Type} (x : Action α) (c : Config) (s : Store) (a : α) (t : Store) : Prop where
  run : x c s = .value a t
  path : x.path c s = []

namespace Does

variable {α β : Type} {c : Config} {s t u : Store} {a : α} {b : β}

theorem pure : (Pure.pure a : Action α).Does c s a s := ⟨rfl, rfl⟩

theorem modify {F : Store → Store} : (Action.modify F).Does c s () (F s) := ⟨rfl, rfl⟩

theorem read {r : Store → α} : (Action.read r).Does c s (r s) s := ⟨rfl, rfl⟩

theorem bind {x : Action α} {f : α → Action β} (first : x.Does c s a t) (second : (f a).Does c t b u) :
    (x >>= f).Does c s b u := by
  refine ⟨?_, ?_⟩
  · show (x c s).bind _ = _
    rw [first.run]
    exact second.run
  · show x.path c s ++ (x c s).pathAfter _ = []
    rw [first.path, first.run]
    exact second.path

theorem read_bind {r : Store → α} {f : α → Action β} (h : (f (r s)).Does c s b t) :
    (Action.read r >>= f).Does c s b t := read.bind h

theorem modify_bind {F : Store → Store} {f : Unit → Action β} (h : (f ()).Does c (F s) b t) :
    (Action.modify F >>= f).Does c s b t := modify.bind h

end Does

end Action

/-- An action fails on the store that it was given, and nothing happens before. -/
structure Action.Fails {α : Type} (x : Action α) (c : Config) (s : Store) (f : Fault) : Prop where
  run : x c s = .abrupt (.fault f) s
  path : x.path c s = [.raised f]

/-- A request is turned down, with a type error where the caller asked for one, and nothing else happens. -/
structure Action.TurnsDown (request : Bool → Action Bool) (c : Config) (s : Store) : Prop where
  lenient : (request false).Does c s false s
  strict : ∃ f, f.kind = .typeError ∧ (request true).Fails c s f

namespace Action

variable {α β : Type} {c : Config} {s : Store} {f : Fault}

namespace Fails

theorem fail : (Action.fail f : Action α).Fails c s f := ⟨rfl, rfl⟩

theorem read_bind {r : Store → β} {next : β → Action α} (h : (next (r s)).Fails c s f) :
    (Action.read r >>= next).Fails c s f := ⟨h.run, h.path⟩

theorem after {x : Action β} {b : β} {next : β → Action α} (first : x.Does c s b s) (h : (next b).Fails c s f) :
    (x >>= next).Fails c s f := by
  refine ⟨?_, ?_⟩
  · rw [bind_run first.run]
    exact h.run
  · rw [path_bind, first.run, first.path]
    exact h.path

end Fails

namespace TurnsDown

theorem reject (kind : f.kind = .typeError) : TurnsDown (Action.reject · f) c s := ⟨.pure, f, kind, .fail⟩

theorem read_bind {r : Store → β} {next : Bool → β → Action Bool} (h : TurnsDown (next · (r s)) c s) :
    TurnsDown (fun throw => Action.read r >>= next throw) c s := by
  obtain ⟨f, kind, fails⟩ := h.strict
  exact ⟨.read_bind h.lenient, f, kind, .read_bind fails⟩

theorem after {x : Action β} {b : β} {next : Bool → β → Action Bool} (first : x.Does c s b s)
    (h : TurnsDown (next · b) c s) : TurnsDown (fun throw => x >>= next throw) c s := by
  obtain ⟨f, kind, fails⟩ := h.strict
  exact ⟨first.bind h.lenient, f, kind, .after first fails⟩

end TurnsDown

end Action

/-- An action that did not run out of budget left what it should: its value and a store, or a store alone where it ended
early. -/
inductive Outcome.Leaves {α : Type} (Q : Option α → Store → Prop) : Outcome α → Prop where
  | value {a : α} {s : Store} (post : Q (some a) s) : Leaves Q (.value a s)
  | abrupt {e : Abrupt} {s : Store} (post : Q none s) : Leaves Q (.abrupt e s)

/-- An action runs no code and leaves what it should. -/
structure Action.Quiet {α : Type} (x : Action α) (c : Config) (s : Store) (Q : Option α → Store → Prop) : Prop where
  leaves : (x c s).Leaves Q
  path : ∀ moment ∈ x.path c s, ∃ f, moment = .raised f

namespace Action.Quiet

variable {α β : Type} {c : Config} {s : Store} {Q R : Option α → Store → Prop}

theorem pure {a : α} (h : Q (some a) s) : (Pure.pure a : Action α).Quiet c s Q :=
  ⟨.value h, fun _ mem => by cases mem⟩

theorem fail {f : Fault} (h : Q none s) : (Action.fail f : Action α).Quiet c s Q :=
  ⟨.abrupt h, fun _ mem => ⟨f, List.mem_singleton.1 mem⟩⟩

theorem reject_answers {throw : Bool} {f : Fault} {Q : Option Bool → Store → Prop}
    (h : ∀ r, r ≠ some true → (throw = false → r ≠ none) → Q r s) : (Action.reject throw f).Quiet c s Q := by
  cases throw with
  | true => exact fail (h none nofun nofun)
  | false => exact pure (h (some false) (by simp) fun _ => nofun)

theorem reject {throw : Bool} {f : Fault} {Q : Option Bool → Store → Prop} (h : ∀ r, r ≠ some true → Q r s) :
    (Action.reject throw f).Quiet c s Q := reject_answers fun r no _ => h r no

theorem read_bind {r : Store → β} {f : β → Action α} (h : (f (r s)).Quiet c s Q) :
    (Action.read r >>= f).Quiet c s Q := ⟨h.leaves, h.path⟩

theorem modify {F : Store → Store} {Q : Option Unit → Store → Prop} (h : Q (some ()) (F s)) :
    (Action.modify F).Quiet c s Q := ⟨.value h, fun _ mem => by cases mem⟩

theorem modify_bind {F : Store → Store} {f : Unit → Action α} (h : (f ()).Quiet c (F s) Q) :
    (Action.modify F >>= f).Quiet c s Q := ⟨h.leaves, h.path⟩

theorem sizing_bind {o : ObjectRef} {v : Value} {f : Unit → Action α} (h : (f ()).Quiet c s Q) :
    (Action.sizing o v >>= f).Quiet c s Q := ⟨h.leaves, h.path⟩

theorem store {x : Action α} (hx : x.Quiet c s Q) : ∃ r, Q r (x c s).store := by
  obtain ⟨leaves, _⟩ := hx
  generalize x c s = o at leaves ⊢
  cases leaves with
  | value post => exact ⟨_, post⟩
  | abrupt post => exact ⟨_, post⟩

theorem of_does {x : Action α} {a : α} {t : Store} (does : x.Does c s a t) (h : Q (some a) t) : x.Quiet c s Q := by
  refine ⟨does.run ▸ .value h, fun moment mem => ?_⟩
  rw [does.path] at mem
  cases mem

theorem of_fails {x : Action α} {f : Fault} (fails : x.Fails c s f) (h : Q none s) : x.Quiet c s Q := by
  refine ⟨fails.run ▸ .abrupt h, fun moment mem => ⟨f, ?_⟩⟩
  rw [fails.path] at mem
  exact List.mem_singleton.1 mem

/-- What is left is what the action comes to. -/
theorem traced {x : Action α} (hx : x.Quiet c s Q) :
    x.Quiet c s fun r t => Q r t ∧ (∀ a, r = some a → x c s = .value a t) ∧ (r = none → ∃ e, x c s = .abrupt e t) := by
  refine ⟨?_, hx.path⟩
  obtain ⟨leaves, _⟩ := hx
  generalize x c s = o at leaves ⊢
  cases leaves with
  | value post => exact .value ⟨post, fun a same => by cases same; rfl, nofun⟩
  | abrupt post => exact .abrupt ⟨post, nofun, fun _ => ⟨_, rfl⟩⟩

theorem mono {x : Action α} (hx : x.Quiet c s Q) (h : ∀ r t, Q r t → R r t) : x.Quiet c s R := by
  refine ⟨?_, hx.path⟩
  obtain ⟨leaves, _⟩ := hx
  generalize x c s = o at leaves ⊢
  cases leaves with
  | value post => exact .value (h _ _ post)
  | abrupt post => exact .abrupt (h _ _ post)

theorem bind {x : Action β} {f : β → Action α} {P : Option β → Store → Prop} (hx : x.Quiet c s P)
    (next : ∀ b t, P (some b) t → (f b).Quiet c t Q) (stop : ∀ t, P none t → Q none t) : (x >>= f).Quiet c s Q := by
  obtain ⟨leaves, path⟩ := hx
  suffices h : ((x c s).bind fun b t => f b c t).Leaves Q ∧
      ∀ moment ∈ (x c s).pathAfter fun b t => (f b).path c t, ∃ f, moment = .raised f by
    exact ⟨h.1, fun moment mem => (List.mem_append.1 mem).elim (path moment) (h.2 moment)⟩
  generalize x c s = o at leaves ⊢
  cases leaves with
  | value post => exact ⟨(next _ _ post).leaves, (next _ _ post).path⟩
  | abrupt post => exact ⟨.abrupt (stop _ post), fun _ mem => by cases mem⟩

end Action.Quiet

end Ecma
