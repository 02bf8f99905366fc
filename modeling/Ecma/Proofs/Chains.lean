import Ecma.Proofs.Closed

/-!
# Chains come to an end

Property lookup, enumeration, `instanceof` and `isPrototypeOf` go from an object to what it inherits from, and names are
looked up from a scope outward. Each of them is a loop without a bound of its own. In a closed store every link leads to
something older, so both kinds of chain are finite, the lists that stand for them are whole, and each loop comes to the
answer that is read off its list.
-/

namespace Ecma

section Links

variable {α β σ ρ : Type}

/-- The places that links lead to one after the other, to the last. -/
inductive Walk (next : α → Option α) : Option α → List α → Prop where
  | done : Walk next none []
  | step {a : α} {rest : List α} (walk : Walk next (next a) rest) : Walk next (some a) (a :: rest)

/-- A loop along links: it takes a turn at each place, until one gives an answer or no link leads on. -/
inductive Loop (next : α → Option α) (turn : α → σ → Except ρ σ) : Option α → σ → Except ρ σ → Prop where
  | ended (state : σ) : Loop next turn none state (.ok state)
  | answered {a : α} {state : σ} {answer : ρ} (h : turn a state = .error answer) :
    Loop next turn (some a) state (.error answer)
  | onward {a : α} {state state' : σ} {r : Except ρ σ} (h : turn a state = .ok state')
      (rest : Loop next turn (next a) state' r) : Loop next turn (some a) state r

/-- How a search ends that has found something, or has not. -/
def sought : Option β → Except β Unit
  | some b => .error b
  | none => .ok ()

/-- A turn of a search. -/
def seek (look : α → Option β) (a : α) (_ : Unit) : Except β Unit := sought (look a)

variable {next : α → Option α} {turn : α → σ → Except ρ σ} {start : Option α} {places : List α}

namespace Walk

/-- What is listed by following links up to a bound is all there is, if links lead to what is older. -/
theorem of_bounded {age : α → Nat} (older : ∀ a b, next a = some b → age b < age a) {list : Nat → α → List α}
    (unfolds : ∀ bound a, list (bound + 1) a = a :: ((next a).map (list bound)).getD []) {bound : Nat} {a : α}
    (enough : age a ≤ bound ∨ next a = none) : Walk next (some a) (list (bound + 1) a) := by
  induction bound generalizing a with
  | zero =>
    have last : next a = none := by
      rcases enough with young | last
      · cases found : next a with
        | none => rfl
        | some b =>
          have := older a b found
          omega
      · exact last
    rw [unfolds, last]
    refine .step ?_
    rw [last]
    exact .done
  | succ bound ih =>
    rw [unfolds]
    refine .step ?_
    cases found : next a with
    | none => exact .done
    | some b =>
      refine ih (.inl ?_)
      rcases enough with young | last
      · have := older a b found
        omega
      · simp [last] at found

theorem age_le {age : α → Nat} (older : ∀ a b, next a = some b → age b < age a) (walk : Walk next start places) {n : Nat}
    (young : ∀ a, start = some a → age a ≤ n) : ∀ b ∈ places, age b ≤ n := by
  induction walk with
  | done => exact List.forall_mem_nil _
  | @step a rest _ ih =>
    have first := young a rfl
    refine List.forall_mem_cons.2 ⟨first, ih fun b found => ?_⟩
    have := older a b found
    omega

theorem loop (walk : Walk next start places) (turn : α → σ → Except ρ σ) (state : σ) :
    Loop next turn start state (places.foldlM (fun state a => turn a state) state) := by
  induction walk generalizing state with
  | done => exact .ended state
  | @step a rest _ ih =>
    rw [List.foldlM_cons]
    cases taken : turn a state with
    | error answer => exact .answered taken
    | ok state' => exact .onward taken (ih state')

end Walk

/-- A loop has one answer. -/
theorem Loop.unique {state : σ} {r r' : Except ρ σ} (first : Loop next turn start state r)
    (second : Loop next turn start state r') : r' = r := by
  induction first with
  | ended =>
    cases second
    rfl
  | answered h =>
    cases second with
    | answered h' => exact h'.symm.trans h
    | onward h' => simp [h] at h'
  | onward h _ ih =>
    cases second with
    | answered h' => simp [h] at h'
    | onward h' rest =>
      cases h.symm.trans h'
      exact ih rest

theorem foldlM_seek (look : α → Option β) (places : List α) :
    places.foldlM (fun state a => seek look a state) () = sought (places.findSome? look) := by
  induction places with
  | nil => rfl
  | cons a rest ih =>
    rw [List.foldlM_cons, List.findSome?_cons, seek]
    cases look a with
    | some b => rfl
    | none => exact ih

/-- A search along all places finds what the first of them shows. -/
theorem Walk.seek (walk : Walk next start places) (look : α → Option β) (r : Except β Unit) :
    Loop next (seek look) start () r ↔ r = sought (places.findSome? look) := by
  have found := walk.loop (Ecma.seek look) ()
  rw [foldlM_seek] at found
  exact ⟨found.unique, fun same => same ▸ found⟩

theorem findSome?_congr {look look' : α → Option β} (agree : ∀ a ∈ places, look a = look' a) :
    places.findSome? look = places.findSome? look' := by
  induction places with
  | nil => rfl
  | cons a rest ih =>
    obtain ⟨first, others⟩ := List.forall_mem_cons.1 agree
    rw [List.findSome?_cons, List.findSome?_cons, first, ih others]

theorem find?_beq [BEq α] [LawfulBEq α] (places : List α) (target : α) :
    places.find? (· == target) = if places.contains target then some target else none := by
  induction places with
  | nil => rfl
  | cons a rest ih =>
    by_cases same : a = target
    · simp [same]
    · have differs : (a == target) = false := beq_false_of_ne same
      simp [differs, ih, Ne.symm same]

end Links

namespace Store

/-- What an object inherits from. -/
def parent? (s : Store) (o : ObjectRef) : Option ObjectRef := (s.object o).prototype

/-- The scope around a scope. -/
def outer? (s : Store) (e : ScopeRef) : Option ScopeRef := (s.scope e).outer

/-- A turn of an enumeration, with the names that were met and those that are to be visited: a name that is met again is
passed over. -/
def meet (s : Store) (o : ObjectRef) (state : List String × List String) (name : String) : List String × List String :=
  if state.1.contains name then state
  else (name :: state.1, if s.isEnumerable o name then state.2 ++ [name] else state.2)

def meetOwn (s : Store) (o : ObjectRef) (state : List String × List String) :
    Except Empty (List String × List String) := .ok ((s.ownKeys o).foldl (s.meet o) state)

end Store

/-- The scope that a reference found a name in. -/
def Reference.scope? (r : Reference) : Option ScopeRef :=
  match r.base with
  | .scope e => some e
  | _ => none

/-- Both kinds of chain are finite, and every loop along one comes to its answer. -/
structure Store.ChainsEnd (s : Store) : Prop where
  prototypes : WellFounded fun p o => s.parent? o = some p
  outers : WellFounded fun d e => s.outer? e = some d
  inherited : ∀ o, Walk s.parent? (some o) (s.prototypeChain o)
  enclosing : ∀ e, Walk s.outer? (some e) (s.scopeChain e)
  /-- A parameter that an own property stands for is read within the bound, whatever objects that goes through. -/
  own : ∀ o name bound, s.objects.size < bound → s.ownWith (s.parameterValue bound) o name = s.getOwn? o name
  property : ∀ o name r, Loop s.parent? (seek (s.getOwn? · name)) (some o) () r ↔ r = sought (s.getProperty? o name)
  /-- The question that `instanceof` and `isPrototypeOf` ask. -/
  ancestor : ∀ o target r, Loop s.parent? (seek (Option.guard (· == target))) (s.parent? o) () r ↔
    r = sought (if (s.ancestors o).contains target then some target else none)
  enumeration : ∀ o, ∃ met, ∀ r, Loop s.parent? s.meetOwn (some o) ([], []) r ↔ r = .ok (met, s.enumerableKeys o)
  name : ∀ e name strict r, Loop s.outer? (seek (Option.guard (s.hasBinding · name))) e () r ↔
    r = sought (Reference.identifier s e name strict).scope?

namespace Store

variable {s : Store} {o : ObjectRef} {e : ScopeRef} {name : String}

theorem ownWith_congr {read read' : ScopeRef → String → Value}
    (agree : ∀ m parameter, (s.object o).kind = .arguments (some m) → m.parameter? name = some parameter →
      read m.scope parameter = read' m.scope parameter) : s.ownWith read o name = s.ownWith read' o name := by
  unfold ownWith
  dsimp only
  cases kind : (s.object o).kind with
  | arguments mapped =>
    cases mapped with
    | none => rfl
    | some m =>
      cases (s.object o).properties.get? name with
      | none => rfl
      | some p =>
        dsimp only
        cases aliased : m.parameter? name with
        | none => rfl
        | some parameter =>
          dsimp only
          rw [agree m parameter kind aliased]
  | string t => cases (s.object o).properties.get? name <;> rfl
  | _ => rfl

/-- Meeting the names one by one comes to those that are visible. -/
theorem foldl_meet (places : List (ObjectRef × String)) (seen found : List String) :
    (places.foldl (fun state place => s.meet place.1 state place.2) (seen, found)).2 = found ++ visible s places seen := by
  induction places generalizing seen found with
  | nil => simp [visible]
  | cons place rest ih =>
    obtain ⟨o, name⟩ := place
    rw [List.foldl_cons, visible, meet]
    by_cases old : seen.contains name
    · rw [if_pos old, if_pos old]
      exact ih seen found
    · rw [if_neg old, if_neg old, ih]
      cases s.isEnumerable o name with
      | true => exact List.append_assoc found [name] _
      | false => rfl

theorem foldlM_meetOwn (places : List ObjectRef) (state : List String × List String) :
    places.foldlM (fun state o => s.meetOwn o state) state =
      .ok ((places.flatMap fun o => (s.ownKeys o).map fun name => (o, name)).foldl
        (fun state place => s.meet place.1 state place.2) state) := by
  induction places generalizing state with
  | nil => rfl
  | cons o rest ih =>
    rw [List.flatMap_cons, List.foldl_append, List.foldl_map]
    exact ih _

/-- Where every object is younger than what it inherits from, its chain comes to an end. -/
theorem walk_of_older (older : ∀ o p, s.parent? o = some p → p.index < o.index) (o : ObjectRef) :
    Walk s.parent? (some o) (s.prototypeChain o) := by
  refine .of_bounded older (fun _ _ => rfl) ?_
  cases inherits : s.parent? o with
  | none => exact .inr rfl
  | some p => exact .inl (Nat.le_of_lt (inside_of_prototype inherits))

namespace Closed

variable (h : s.Closed)
include h

theorem parent_older (o p : ObjectRef) (inherits : s.parent? o = some p) : p.index < o.index :=
  (h.objects o).older p inherits

theorem outer_older (e d : ScopeRef) (lies : s.outer? e = some d) : d.index < e.index := (h.scopes e).older d lies

theorem walk_prototypeChain (o : ObjectRef) : Walk s.parent? (some o) (s.prototypeChain o) := walk_of_older h.parent_older o

theorem walk_scopeChain (e : ScopeRef) : Walk s.outer? (some e) (s.scopeChain e) := by
  refine .of_bounded h.outer_older (fun _ _ => rfl) ?_
  by_cases inside : e.index < s.scopes.size
  · exact .inl (Nat.le_of_lt inside)
  · refine .inr ?_
    rw [outer?, scope, Array.getElem?_eq_none (Nat.le_of_not_lt inside)]
    rfl

theorem walk_ancestors (o : ObjectRef) : Walk s.parent? (s.parent? o) (s.ancestors o) := by
  have walk := h.walk_prototypeChain o
  cases walk with
  | step rest => exact rest

/-- Once the bound exceeds the place of the object that keeps the bindings it no longer matters: what that object inherits
from is older, and what these read parameters from is older still. -/
theorem parameterValue_bound {n bound bound' : Nat} (enough : n < bound) (enough' : n < bound')
    (record : ∀ x, (s.scope e).record.object? = some x → x.index < n) (name : String) :
    s.parameterValue bound e name = s.parameterValue bound' e name := by
  induction n generalizing bound bound' e name with
  | zero =>
    obtain ⟨b, rfl⟩ := Nat.exists_eq_succ_of_ne_zero (Nat.ne_of_gt enough)
    obtain ⟨b', rfl⟩ := Nat.exists_eq_succ_of_ne_zero (Nat.ne_of_gt enough')
    cases kept : (s.scope e).record with
    | declarative bindings => simp only [parameterValue, kept]
    | object x provideThis => exact absurd (record x (congrArg ScopeRecord.object? kept)) (Nat.not_lt_zero _)
  | succ n ih =>
    obtain ⟨b, rfl⟩ := Nat.exists_eq_succ_of_ne_zero (Nat.ne_of_gt (Nat.zero_lt_of_lt enough))
    obtain ⟨b', rfl⟩ := Nat.exists_eq_succ_of_ne_zero (Nat.ne_of_gt (Nat.zero_lt_of_lt enough'))
    cases kept : (s.scope e).record with
    | declarative bindings => simp only [parameterValue, kept]
    | object x provideThis =>
      have place : x.index ≤ n := Nat.le_of_lt_succ (record x (congrArg ScopeRecord.object? kept))
      have same : (s.prototypeChain x).findSome? (fun p => s.ownWith (s.parameterValue b) p name) =
          (s.prototypeChain x).findSome? fun p => s.ownWith (s.parameterValue b') p name := by
        refine findSome?_congr fun p mem => ownWith_congr fun m parameter kind aliased => ?_
        have older : p.index ≤ n :=
          (h.walk_prototypeChain x).age_le h.parent_older (fun a same => Option.some.inj same ▸ place) p mem
        refine ih (Nat.lt_of_succ_lt_succ enough) (Nat.lt_of_succ_lt_succ enough') (fun y found => ?_) parameter
        exact Nat.lt_of_lt_of_le (((h.objects p).parameters m name parameter kind aliased).2 y found) older
      simp only [parameterValue, kept, same]

theorem chainsEnd : s.ChainsEnd where
  prototypes := Subrelation.wf (fun {p o} inherits => h.parent_older o p inherits) (measure ObjectRef.index).wf
  outers := Subrelation.wf (fun {d e} lies => h.outer_older e d lies) (measure ScopeRef.index).wf
  inherited := h.walk_prototypeChain
  enclosing := h.walk_scopeChain
  own o name bound enough := by
    refine ownWith_congr fun m parameter kind aliased => ?_
    exact h.parameterValue_bound enough (Nat.lt_succ_self _) (h.scopes m.scope).object parameter
  property o name := (h.walk_prototypeChain o).seek _
  ancestor o target r := by
    rw [(h.walk_ancestors o).seek, List.findSome?_guard, find?_beq]
  enumeration o := by
    have ended := (h.walk_prototypeChain o).loop s.meetOwn ([], [])
    rw [foldlM_meetOwn, ← Prod.eta (List.foldl _ _ _), foldl_meet, List.nil_append] at ended
    exact ⟨_, fun r => ⟨ended.unique, fun same => same ▸ ended⟩⟩
  name e name strict r := by
    have found : (Reference.identifier s e name strict).scope? = e.bind fun e => s.resolve? e name := by
      unfold Reference.identifier
      cases e.bind fun e => s.resolve? e name with
      | none => rfl
      | some d => rfl
    rw [found]
    cases e with
    | none => exact Walk.done.seek _ r
    | some e =>
      rw [(h.walk_scopeChain e).seek, List.findSome?_guard]
      rfl

end Closed

end Store

namespace Machine

/-- Whatever a host makes and runs on a new machine, chains come to an end in every store on the way. -/
theorem chains_end (config : Config) (calls : List (Nat × HostCall)) (provides : (new config).Provides calls) (s : Store)
    (reached : .reached s ∈ (new config).chronicle calls) : s.ChainsEnd :=
  (closed_of_chronicle provides reached).chainsEnd

/-- The host makes an object, a scope that keeps its bindings there, and `arguments` that inherit from the object and stand
for a parameter in that scope. -/
def linked : List (Nat × HostCall) :=
  [(0, .newObject (some (Intrinsic.ref .objectPrototype)) .object .ordinary),
    (0, .newObjectScope ⟨57⟩ false (some .global)),
    (0, .newObject (some ⟨57⟩) .arguments (.arguments (some ⟨⟨1⟩, [some "x"]⟩))),
    (9, .request (.put ⟨58⟩ "0" .null false))]

theorem chains_end_linked :
    (new .standard).Provides linked ∧ ∃ s, .reached s ∈ (new .standard).chronicle linked ∧ s.ChainsEnd ∧
      s.prototypeChain ⟨58⟩ = [⟨58⟩, ⟨57⟩, ⟨0⟩] := by
  have provides : (new .standard).Provides linked := by
    refine ⟨⟨?_, trivial⟩, ⟨?_, ?_⟩, ⟨?_, ?_⟩, ?_, trivial⟩
    · rintro p ⟨⟩
      decide +kernel
    · decide +kernel
    · rintro e ⟨⟩
      decide +kernel
    · rintro p ⟨⟩
      decide +kernel
    · show (1 : Nat) < _
      decide +kernel
    · refine List.forall_mem_cons.2 ⟨?_, List.forall_mem_cons.2 ⟨nofun, List.forall_mem_nil _⟩⟩
      rintro o ⟨⟩
      decide +kernel
  have reached : .reached _ ∈ (new .standard).chronicle linked := List.mem_of_getElem? (i := 6) rfl
  exact ⟨provides, _, reached, chains_end .standard linked provides _ reached, by decide +kernel⟩

end Machine

end Ecma
