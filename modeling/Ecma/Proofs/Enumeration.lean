import Ecma.Proofs.OwnKeys

/-!
# What a `for`-`in` loop visits

A `for`-`in` loop lists the names of an object and of all that it inherits from before its first turn. A name is listed
once, for the nearest object that has it, and only if it is enumerated there; so the list holds what a lookup finds
enumerated, in the order in which the lookup comes by it. The turns of the loop go through that list. Their code may
change anything, and what a lookup no longer finds enumerated when its turn comes is passed over.
-/

namespace Ecma

namespace Store

variable {s : Store} {o : ObjectRef} {name : String}

/-- Looking a name up finds a property that is enumerated. -/
def findsEnumerable (s : Store) (o : ObjectRef) (name : String) : Bool := (s.getProperty? o name).any (·.enumerable)

/-- No string along the chain of an object has more than `2 ^ 32` units, so that all of its places have an index. -/
def BriefChain (s : Store) (o : ObjectRef) : Prop := ∀ p ∈ s.prototypeChain o, s.Brief p

/-- Where a name is found: how far up the chain its owner is, and where it stands among the names of the owner. -/
def place (s : Store) (chain : List ObjectRef) (name : String) : Nat × Nat :=
  (chain.findIdx fun p => (s.getOwn? p name).isSome,
    ((chain.find? fun p => (s.getOwn? p name).isSome).map fun p => (s.ownKeys p).idxOf name).getD 0)

/-- The owner of one name is nearer than that of another, or they have one owner, which lists it first. -/
def Precedes (s : Store) (o : ObjectRef) (a b : String) : Prop :=
  (s.place (s.prototypeChain o) a).1 < (s.place (s.prototypeChain o) b).1 ∨
    (s.place (s.prototypeChain o) a).1 = (s.place (s.prototypeChain o) b).1 ∧
      (s.place (s.prototypeChain o) a).2 < (s.place (s.prototypeChain o) b).2

/-! ## The list of names -/

/-- The names that the objects of a chain list, each with its object. -/
def listed (s : Store) (chain : List ObjectRef) : List (ObjectRef × String) :=
  chain.flatMap fun p => (s.ownKeys p).map fun name => (p, name)

/-- The first object of a chain that lists a name has it enumerated. -/
def Heads (s : Store) (chain : List ObjectRef) (name : String) : Prop :=
  ∃ p, (s.listed chain).find? (·.2 == name) = some (p, name) ∧ s.isEnumerable p name = true

theorem mem_visible {places : List (ObjectRef × String)} {seen : List String} :
    name ∈ visible s places seen ↔
      name ∉ seen ∧ ∃ p, places.find? (·.2 == name) = some (p, name) ∧ s.isEnumerable p name = true := by
  induction places generalizing seen with
  | nil => simp [visible]
  | cons place rest ih =>
    obtain ⟨p, other⟩ := place
    by_cases same : other = name
    · subst same
      by_cases old : other ∈ seen
      · simp [visible, old, ih]
      · cases enumerable : s.isEnumerable p other <;> simp [visible, old, ih, enumerable]
    · have differs : (other == name) = false := beq_false_of_ne same
      by_cases old : other ∈ seen
      · simp [visible, old, ih, differs]
      · cases enumerable : s.isEnumerable p other <;> simp [visible, old, ih, differs, enumerable, Ne.symm same]

/-- Names are visited in the order in which they are listed first. -/
theorem pairwise_visible (places : List (ObjectRef × String)) (seen : List String) :
    (visible s places seen).Pairwise fun a b => (places.map (·.2)).idxOf a < (places.map (·.2)).idxOf b := by
  induction places generalizing seen with
  | nil => exact .nil
  | cons place rest ih =>
    obtain ⟨p, name⟩ := place
    -- none of the names that follow is the first one again
    have onward {seen : List String} (old : name ∈ seen) : (visible s rest seen).Pairwise fun a b =>
        (name :: rest.map (·.2)).idxOf a < (name :: rest.map (·.2)).idxOf b := by
      refine (ih seen).imp_of_mem fun {a b} memA memB less => ?_
      have otherA : name ≠ a := fun same => (mem_visible.1 memA).1 (same ▸ old)
      have otherB : name ≠ b := fun same => (mem_visible.1 memB).1 (same ▸ old)
      rw [List.idxOf_cons_ne _ otherA, List.idxOf_cons_ne _ otherB]
      omega
    by_cases old : name ∈ seen
    · simpa [visible, old] using onward old
    · have later := onward (List.mem_cons_self (a := name) (l := seen))
      cases enumerable : s.isEnumerable p name with
      | false => simpa [visible, old, enumerable] using later
      | true =>
        simp only [visible, List.contains_eq_mem, old, enumerable, decide_false, if_true, List.map_cons]
        refine .cons (fun b mem => ?_) later
        have other : name ≠ b := fun same => (mem_visible.1 mem).1 (same ▸ List.mem_cons_self ..)
        rw [List.idxOf_cons_self, List.idxOf_cons_ne _ other]
        omega

/-! ## Along the chain -/

theorem find?_own (keys : List String) (q : ObjectRef) :
    (keys.map fun key => (q, key)).find? (·.2 == name) = if name ∈ keys then some (q, name) else none := by
  induction keys with
  | nil => rfl
  | cons key rest ih =>
    by_cases same : key = name
    · simp [same]
    · have differs : (key == name) = false := beq_false_of_ne same
      simp [differs, Ne.symm same, ih]

theorem heads_cons {chain : List ObjectRef} {q : ObjectRef} :
    s.Heads (q :: chain) name ↔ if name ∈ s.ownKeys q then s.isEnumerable q name = true else s.Heads chain name := by
  unfold Heads
  rw [listed, List.flatMap_cons, List.find?_append, find?_own]
  by_cases own : name ∈ s.ownKeys q
  · simp [own]
  · simp [own, listed]

theorem place_own {chain : List ObjectRef} {q : ObjectRef} (own : (s.getOwn? q name).isSome = true) :
    s.place (q :: chain) name = (0, (s.ownKeys q).idxOf name) := by
  simp [place, List.findIdx_cons, own]

theorem place_inherited {chain : List ObjectRef} {q : ObjectRef} (absent : (s.getOwn? q name).isSome = false) :
    s.place (q :: chain) name = ((s.place chain name).1 + 1, (s.place chain name).2) := by
  simp [place, List.findIdx_cons, absent]

/-- The order in which the names of a chain are listed is that of their places. -/
theorem place_lt {chain : List ObjectRef} {a b : String} (headsA : s.Heads chain a) (headsB : s.Heads chain b)
    (less : ((s.listed chain).map (·.2)).idxOf a < ((s.listed chain).map (·.2)).idxOf b) :
    (s.place chain a).1 < (s.place chain b).1 ∨
      (s.place chain a).1 = (s.place chain b).1 ∧ (s.place chain a).2 < (s.place chain b).2 := by
  induction chain with
  | nil => simp [Heads, listed] at headsA
  | cons q chain ih =>
    have names : (s.listed (q :: chain)).map (·.2) = s.ownKeys q ++ (s.listed chain).map (·.2) := by
      simp [listed, Function.comp_def]
    have shows {name : String} (own : name ∈ s.ownKeys q) (heads : s.Heads (q :: chain) name) :
        (s.getOwn? q name).isSome = true := by
      rw [heads_cons, if_pos own, isEnumerable] at heads
      exact Option.isSome_of_any heads
    have hides {name : String} (other : name ∉ s.ownKeys q) : (s.getOwn? q name).isSome = false := by
      refine Option.isSome_eq_false_iff.2 (Option.isNone_iff_eq_none.2 (Option.eq_none_iff_forall_ne_some.2 ?_))
      exact fun p present => other (mem_ownKeys_of_getOwn? present)
    rw [names, List.idxOf_append, List.idxOf_append] at less
    by_cases ownA : a ∈ s.ownKeys q
    · rw [place_own (shows ownA headsA)]
      by_cases ownB : b ∈ s.ownKeys q
      · rw [place_own (shows ownB headsB)]
        rw [if_pos ownA, if_pos ownB] at less
        exact .inr ⟨rfl, less⟩
      · rw [place_inherited (hides ownB)]
        exact .inl (Nat.succ_pos _)
    · rw [if_neg ownA] at less
      by_cases ownB : b ∈ s.ownKeys q
      · rw [if_pos ownB] at less
        have := List.idxOf_lt_length_of_mem ownB
        omega
      · rw [heads_cons, if_neg ownA] at headsA
        rw [heads_cons, if_neg ownB] at headsB
        rw [if_neg ownB] at less
        have := ih headsA headsB (by omega)
        rw [place_inherited (hides ownA), place_inherited (hides ownB)]
        omega

theorem mem_enumerableKeys : name ∈ s.enumerableKeys o ↔ s.Heads (s.prototypeChain o) name := by
  rw [enumerableKeys, mem_visible]
  simp [Heads, listed]

/-- The first object that lists a name, if it has it enumerated, is the one that a lookup finds it on. -/
theorem found_of_heads {chain : List ObjectRef} (heads : s.Heads chain name) :
    (chain.findSome? fun p => s.getOwn? p name).any (·.enumerable) = true := by
  induction chain with
  | nil => simp [Heads, listed] at heads
  | cons q chain ih =>
    rw [heads_cons] at heads
    rw [List.findSome?_cons]
    cases found : s.getOwn? q name with
    | some p => rwa [if_pos (mem_ownKeys_of_getOwn? found), isEnumerable, found] at heads
    | none =>
      rw [isEnumerable, found] at heads
      split at heads
      · cases heads
      · exact ih heads

theorem heads_of_found {chain : List ObjectRef}
    (agree : ∀ p ∈ chain, name ∈ s.ownKeys p ↔ (s.getOwn? p name).isSome = true)
    (found : (chain.findSome? fun p => s.getOwn? p name).any (·.enumerable) = true) : s.Heads chain name := by
  induction chain with
  | nil => cases found
  | cons q chain ih =>
    obtain ⟨first, others⟩ := List.forall_mem_cons.1 agree
    rw [List.findSome?_cons] at found
    rw [heads_cons, isEnumerable]
    cases own : s.getOwn? q name with
    | none =>
      rw [own] at found
      rw [if_neg (by simp [first, own])]
      exact ih others found
    | some p =>
      rw [own] at found
      rwa [if_pos (by simp [first, own])]

theorem findsEnumerable_of_mem (mem : name ∈ s.enumerableKeys o) : s.findsEnumerable o name = true :=
  found_of_heads (mem_enumerableKeys.1 mem)

theorem mem_enumerableKeys_iff (brief : s.BriefChain o) :
    name ∈ s.enumerableKeys o ↔ s.findsEnumerable o name = true :=
  ⟨findsEnumerable_of_mem, fun found =>
    mem_enumerableKeys.2 (heads_of_found (fun p mem => (brief p mem).mem_ownKeys_iff) found)⟩

theorem pairwise_enumerableKeys : (s.enumerableKeys o).Pairwise (s.Precedes o) := by
  refine (pairwise_visible ..).imp_of_mem fun {a b} memA memB less => ?_
  exact place_lt (mem_enumerableKeys.1 memA) (mem_enumerableKeys.1 memB) less

theorem nodup_enumerableKeys : (s.enumerableKeys o).Nodup := by
  refine pairwise_enumerableKeys.imp fun {a b} before same => ?_
  subst same
  unfold Precedes at before
  omega

end Store

/-! ## The turns of a loop -/

/-- An action that ended early ends what it is part of in the same way. -/
inductive Outcome.Stops {α β : Type} : Outcome α → Outcome β → Prop where
  | abrupt (e : Abrupt) (s : Store) : Stops (.abrupt e s) (.abrupt e s)
  | exhausted (s : Store) : Stops (.exhausted s) (.exhausted s)

theorem Outcome.stops_bind {α β : Type} (r : Outcome α) (f : α → Store → Outcome β) :
    (∃ a s, r = .value a s) ∨ r.Stops (r.bind f) := by
  cases r with
  | value a s => exact .inl ⟨a, s, rfl⟩
  | abrupt e s => exact .inr (.abrupt e s)
  | exhausted s => exact .inr (.exhausted s)

/-- Goes on with a loop after a turn. -/
def Turn.follow (onward : Option Value → Action Completion) : Turn → Action Completion
  | again last => onward last
  | leave completion => pure completion

namespace Stmt

/-- What a `for`-`in` loop does with a name when it knows where that goes: it assigns the name and runs its body. -/
def visit (E : Engine) (labels : List String) (body : List Stmt) (r : Reference) (name : String) (last : Option Value) :
    Action Turn := do
  r.assign E true (.ofString name)
  return (← evaluateList E body).turn labels last

/-- How a `for`-`in` loop goes through names from a store on: the names that it assigns, each with the store on which its
turn came and before anything was done about it, and how the loop ends. A name is passed over just where a lookup on that
store does not find it enumerated. -/
inductive Visits (E : Engine) (c : Config) (labels : List String) (target : ForInTarget) (o : ObjectRef)
    (body : List Stmt) : List String → Option Value → Store → List (String × Store) → Outcome Completion → Prop where
  | done {last : Option Value} {s : Store} : Visits E c labels target o body [] last s [] (.value (.normal last) s)
  | passed {name : String} {rest : List String} {last : Option Value} {s : Store} {visits : List (String × Store)}
      {result : Outcome Completion} (gone : s.findsEnumerable o name = false)
      (onward : Visits E c labels target o body rest last s visits result) :
    Visits E c labels target o body (name :: rest) last s visits result
  /-- There is nowhere for the name to go, and it is not assigned. -/
  | astray {name : String} {rest : List String} {last : Option Value} {s : Store} {result : Outcome Completion}
      (found : s.findsEnumerable o name = true) (stops : (target.reference E c s).Stops result) :
    Visits E c labels target o body (name :: rest) last s [] result
  | stopped {name : String} {rest : List String} {last : Option Value} {s t : Store} {r : Reference}
      {result : Outcome Completion} (found : s.findsEnumerable o name = true)
      (aims : target.reference E c s = .value r t) (stops : (visit E labels body r name last c t).Stops result) :
    Visits E c labels target o body (name :: rest) last s [(name, s)] result
  | left {name : String} {rest : List String} {last : Option Value} {s t u : Store} {r : Reference}
      {completion : Completion} (found : s.findsEnumerable o name = true)
      (aims : target.reference E c s = .value r t)
      (leaves : visit E labels body r name last c t = .value (.leave completion) u) :
    Visits E c labels target o body (name :: rest) last s [(name, s)] (.value completion u)
  | again {name : String} {rest : List String} {last last' : Option Value} {s t u : Store} {r : Reference}
      {visits : List (String × Store)} {result : Outcome Completion} (found : s.findsEnumerable o name = true)
      (aims : target.reference E c s = .value r t)
      (goes : visit E labels body r name last c t = .value (.again last') u)
      (onward : Visits E c labels target o body rest last' u visits result) :
    Visits E c labels target o body (name :: rest) last s ((name, s) :: visits) result

variable {E : Engine} {c : Config} {labels : List String} {target : ForInTarget} {o : ObjectRef} {body : List Stmt}
  {names : List String} {last : Option Value} {s t : Store} {visits : List (String × Store)} {result : Outcome Completion}

namespace Visits

theorem sublist (h : Visits E c labels target o body names last s visits result) :
    (visits.map (·.1)).Sublist names := by
  induction h with
  | done => exact .slnil
  | passed _ _ ih => exact ih.cons _
  | astray => exact List.nil_sublist _
  | stopped => exact (List.nil_sublist _).cons_cons _
  | left => exact (List.nil_sublist _).cons_cons _
  | again _ _ _ _ ih => exact ih.cons_cons _

theorem found (h : Visits E c labels target o body names last s visits result) :
    ∀ turn ∈ visits, turn.2.findsEnumerable o turn.1 = true := by
  induction h with
  | done => exact List.forall_mem_nil _
  | passed _ _ ih => exact ih
  | astray => exact List.forall_mem_nil _
  | stopped found => exact List.forall_mem_singleton.2 found
  | left found => exact List.forall_mem_singleton.2 found
  | again found _ _ _ ih => exact List.forall_mem_cons.2 ⟨found, ih⟩

end Visits

theorem visitKeys_gone {name : String} (rest : List String) (gone : s.findsEnumerable o name = false) :
    visitKeys E labels target o body (name :: rest) last c s = visitKeys E labels target o body rest last c s := by
  rw [Store.findsEnumerable] at gone
  rw [visitKeys, Action.read_bind_run, gone]
  rfl

theorem visitKeys_found {name : String} (rest : List String) (found : s.findsEnumerable o name = true) :
    visitKeys E labels target o body (name :: rest) last c s = (target.reference E c s).bind fun r t =>
      (visit E labels body r name last c t).bind fun turn u =>
        turn.follow (visitKeys E labels target o body rest) c u := by
  have joined (r : Reference) : (r.assign E true (.ofString name) >>= fun _ => evaluateList E body >>= fun completion =>
      (completion.turn labels last).follow (visitKeys E labels target o body rest)) =
      visit E labels body r name last >>= Turn.follow (visitKeys E labels target o body rest) := by
    simp only [visit, bind_assoc, pure_bind]
  rw [Store.findsEnumerable] at found
  rw [visitKeys, Action.read_bind_run, found, if_pos rfl, Action.bind_apply]
  congr 1
  funext r t
  rw [← Action.bind_apply, ← joined]
  rfl

/-- The loop goes through its names as it should, whatever its target and its body do. -/
theorem visits_visitKeys (names : List String) (last : Option Value) (s : Store) :
    ∃ visits, Visits E c labels target o body names last s visits (visitKeys E labels target o body names last c s) := by
  induction names generalizing last s with
  | nil => exact ⟨[], .done⟩
  | cons name rest ih =>
    cases found : s.findsEnumerable o name with
    | false =>
      obtain ⟨visits, onward⟩ := ih last s
      rw [visitKeys_gone rest found]
      exact ⟨visits, .passed found onward⟩
    | true =>
      rw [visitKeys_found rest found]
      rcases (target.reference E c s).stops_bind _ with ⟨r, t, aims⟩ | stops
      · rw [aims]
        rcases (visit E labels body r name last c t).stops_bind _ with ⟨turn, u, ran⟩ | stops
        · cases turn with
          | leave completion =>
            simp only [Outcome.bind, ran]
            exact ⟨_, .left found aims ran⟩
          | again last' =>
            obtain ⟨visits, onward⟩ := ih last' u
            simp only [Outcome.bind, ran]
            exact ⟨_, .again found aims ran onward⟩
        · exact ⟨_, .stopped found aims stops⟩
      · exact ⟨_, .astray found stops⟩

/-- Whatever has properties is an object or is wrapped in one. -/
theorem toObject_run {v : Value} (c : Config) (s : Store) (some : v.isNullish = false) :
    ∃ o t, v.toObject c s = .value o t := by
  cases v with
  | undefined => cases some
  | null => cases some
  | _ => exact ⟨_, _, rfl⟩

theorem forIn_run {object : Expr} {v : Value} (evaluated : E.expr object c s = .value v t) :
    evaluate E labels (.forIn target object body) c s =
      if v.isNullish then .value (.normal none) t
      else (v.toObject c t).bind fun o u => visitKeys E labels target o body (u.enumerableKeys o) none c u := by
  rw [evaluate, Action.bind_run evaluated]
  split
  · rfl
  · rfl

/-- What a `for`-`in` loop lists a lookup finds enumerated, without repetition and in the order of the owners and of their
own names; and it lists all that a lookup finds enumerated, as long as no string along the chain has more than `2 ^ 32`
units. And the loop assigns some of the names that it listed at its start, in their order, each of which a lookup still
finds enumerated when its turn comes. -/
theorem enumeration_matches_lookup (s : Store) (o : ObjectRef) :
    (s.enumerableKeys o).Nodup ∧
    (∀ name ∈ s.enumerableKeys o, s.findsEnumerable o name = true) ∧
    (s.BriefChain o → ∀ name, name ∈ s.enumerableKeys o ↔ s.findsEnumerable o name = true) ∧
    (s.enumerableKeys o).Pairwise (s.Precedes o) ∧
    ∀ (E : Engine) (c : Config) (labels : List String) (target : ForInTarget) (object : Expr) (body : List Stmt)
      (v : Value) (t : Store), E.expr object c s = .value v t →
      if v.isNullish then evaluate E labels (.forIn target object body) c s = .value (.normal none) t
      else ∃ o u visits, v.toObject c t = .value o u ∧
        Visits E c labels target o body (u.enumerableKeys o) none u visits
          (evaluate E labels (.forIn target object body) c s) ∧
        (visits.map (·.1)).Sublist (u.enumerableKeys o) ∧ ∀ turn ∈ visits, turn.2.findsEnumerable o turn.1 = true := by
  refine ⟨Store.nodup_enumerableKeys, fun name => Store.findsEnumerable_of_mem,
    fun brief name => Store.mem_enumerableKeys_iff brief, Store.pairwise_enumerableKeys, ?_⟩
  intro E c labels target object body v t evaluated
  rw [forIn_run evaluated]
  cases nullish : v.isNullish with
  | true => rfl
  | false =>
    obtain ⟨o, u, made⟩ := toObject_run c t nullish
    obtain ⟨visits, h⟩ : ∃ visits, Visits E c labels target o body (u.enumerableKeys o) none u visits
        (visitKeys E labels target o body (u.enumerableKeys o) none c u) := visits_visitKeys ..
    rw [made]
    exact ⟨o, u, visits, rfl, h, h.sublist, h.found⟩

/-- A string inherits from an object. It hides one of the properties there by one that is not enumerated and another by a
character, and it is `this` in the code that runs. -/
def layered : Store :=
  let lower := Store.initial.addObject (.ordinary none [("a", .plain .null), ("0", .plain .null), ("y", .plain .null)])
  let upper := lower.addObject (.fresh (some Store.initial.nextObject) .string (.string [120])
    [("a", .data .null true false true), ("z", .plain .null)])
  { upper with contexts := [⟨.global, .global, .object lower.nextObject, false, none⟩] }

/-- The first turn of the loop deletes a property that is still to be visited. -/
theorem enumeration_matches_lookup_layered :
    layered.enumerableKeys ⟨58⟩ = ["0", "z", "y"] ∧
    layered.BriefChain ⟨58⟩ ∧
    layered.findsEnumerable ⟨58⟩ "a" = false ∧ "a" ∉ layered.enumerableKeys ⟨58⟩ ∧
    layered.findsEnumerable ⟨58⟩ "y" = true ∧ "y" ∈ layered.enumerableKeys ⟨58⟩ ∧
    (Engine.ofBudget 9).expr .thisValue .standard layered = .value (.object ⟨58⟩) layered ∧
    ∃ visits, Visits (.ofBudget 9) .standard [] (.declare "k") ⟨58⟩ [.expr (.unary .delete (.member .thisValue "z"))]
        ["0", "z", "y"] none layered visits
        (evaluate (.ofBudget 9) [] (.forIn (.declare "k") .thisValue [.expr (.unary .delete (.member .thisValue "z"))])
          .standard layered) ∧
      (visits.map (·.1)).Sublist ["0", "z", "y"] ∧ ∀ turn ∈ visits, turn.2.findsEnumerable ⟨58⟩ turn.1 = true := by
  have names : layered.enumerableKeys ⟨58⟩ = ["0", "z", "y"] := by decide +kernel
  have chain : layered.prototypeChain ⟨58⟩ = [⟨58⟩, ⟨57⟩] := by decide +kernel
  have brief : layered.BriefChain ⟨58⟩ := by
    intro p mem t kind
    have string : t = [120] := by
      rw [chain] at mem
      rcases List.mem_pair.1 mem with rfl | rfl
      · exact (ObjectKind.string.inj kind).symm
      · cases kind
    subst string
    decide
  have evaluated : (Engine.ofBudget 9).expr .thisValue .standard layered = .value (.object ⟨58⟩) layered := rfl
  have absent : layered.findsEnumerable ⟨58⟩ "a" = false := by decide +kernel
  have present : layered.findsEnumerable ⟨58⟩ "y" = true := by decide +kernel
  obtain ⟨-, sound, complete, -, loop⟩ := enumeration_matches_lookup layered ⟨58⟩
  obtain ⟨o, u, visits, made, visited, some, found⟩ := loop (.ofBudget 9) .standard [] (.declare "k") .thisValue
    [.expr (.unary .delete (.member .thisValue "z"))] _ _ evaluated
  cases made
  rw [names] at visited some
  exact ⟨names, brief, absent, fun mem => Bool.false_ne_true (absent.symm.trans (sound "a" mem)), present,
    (complete brief "y").2 present, evaluated, visits, visited, some, found⟩

end Stmt

/-- A program that gives all objects a property under a name too great for an index, and then makes an object of a
text. -/
def Program.wraps (t : Text) : Program :=
  ⟨[.expr (.assign (.member (.member (.ident "Object") "prototype") "4294967296") .null),
    .expr (.call (.ident "Object") [.text t]), .expr .null], false⟩

/-- The store that the program leaves. -/
def Store.wrapping (t : Text) : Store :=
  (initial.modifyObject Intrinsic.objectPrototype.ref (·.withProperty "4294967296" (.plain .null))).addObject (.string t)

set_option maxRecDepth 4096 in
theorem Machine.served_wraps (t : Text) :
    ((new .standard).served [(9, .run (.global (.wraps t)))]).store = .wrapping t := rfl

/-- A text of more than `2 ^ 32` units has a place of that name without showing a character there. -/
theorem Store.wrapping_hides {t : Text} (long : 4294967296 < t.length) :
    (wrapping t).findsEnumerable ⟨57⟩ "4294967296" = true ∧ "4294967296" ∉ (wrapping t).enumerableKeys ⟨57⟩ := by
  have chain : (wrapping t).prototypeChain ⟨57⟩ =
      [⟨57⟩, Intrinsic.stringPrototype.ref, Intrinsic.objectPrototype.ref] := rfl
  have beyond : Index.ofName? "4294967296" = none := by decide +kernel
  have hidden : (wrapping t).getOwn? ⟨57⟩ "4294967296" = none := by
    show character? t "4294967296" = none
    rw [character?, beyond, Option.bind_none]
  refine ⟨?_, fun mem => ?_⟩
  · rw [findsEnumerable, getProperty?, chain, List.findSome?_cons, hidden]
    rfl
  · have listed : "4294967296" ∈ (wrapping t).ownKeys ⟨57⟩ := by
      refine List.mem_append_left _ (List.mem_map.2 ⟨4294967296, List.mem_range.2 long, ?_⟩)
      decide +kernel
    rw [mem_enumerableKeys, chain, heads_cons, if_pos listed, isEnumerable, hidden] at mem
    cases mem

/-- A loop over a string of `2 ^ 32 + 1` units passes over a property that a lookup finds enumerated. -/
theorem Stmt.enumeration_misses_overlong :
    ∃ s ∈ (Machine.new .standard).visited [(9, .run (.global (.wraps (List.replicate 4294967297 97))))],
      s.findsEnumerable ⟨57⟩ "4294967296" = true ∧ "4294967296" ∉ s.enumerableKeys ⟨57⟩ := by
  refine ⟨_, Machine.served_mem_visited _, ?_⟩
  rw [Machine.served_wraps]
  refine Store.wrapping_hides ?_
  rw [List.length_replicate]
  decide

end Ecma
