import Ecma.Proofs.WellFormed.Initial

/-!
# Sessions

A host does more with a machine than run code: it makes arrays, defines, assigns and deletes properties, and seals,
freezes and closes objects. A session is a list of such requests, each with a budget for the code that it may set off.
The host refers to nothing but what is there, and every law that governs the code of a machine governs its sessions.
-/

namespace Ecma

/-- What a host asks of a machine. -/
inductive Request where
  | run (u : CodeUnit)
  | newArray (values : List Value)
  | define (o : ObjectRef) (name : String) (d : Descriptor) (throw : Bool)
  | put (o : ObjectRef) (name : String) (v : Value) (throw : Bool)
  | delete (o : ObjectRef) (name : String) (throw : Bool)
  /-- Seals or freezes an object. -/
  | restrict (o : ObjectRef) (freeze : Bool)
  | preventExtensions (o : ObjectRef)

namespace Request

/-- What serving a request does. -/
def action (E : Engine) : Request → Action Unit
  | run u => do let _ ← u.action E
  | newArray values => do let _ ← Action.newArray values
  | define o name d throw => do let _ ← o.define E name d throw
  | put o name v throw => o.put E name v throw
  | delete o name throw => do let _ ← o.delete name throw
  | restrict o freeze => o.restrict E freeze
  | preventExtensions o => o.preventExtensions

/-- The values that a request refers to. -/
def mentions : Request → List Value
  | run _ => []
  | newArray values => values
  | define o _ d _ => .object o :: d.value.toList ++ d.get.toList ++ d.set.toList
  | put o _ v _ => [.object o, v]
  | delete o _ _ | restrict o _ | preventExtensions o => [.object o]

/-- A request that refers to nothing but what is there. -/
def Grounded (s : Store) (r : Request) : Prop := ∀ v ∈ r.mentions, s.Holds v

end Request

namespace Machine

/-- The machine when a request was served, or given up. -/
def serve (m : Machine) (budget : Nat) (r : Request) : Machine := (m.perform (r.action (.ofBudget budget))).2

/-- The machine at the end of a session. -/
def served (m : Machine) : List (Nat × Request) → Machine
  | [] => m
  | (budget, r) :: rest => (m.serve budget r).served rest

/-- The stores of a session in order: before each request, while it is served, and at the end. -/
def visited (m : Machine) : List (Nat × Request) → List Store
  | [] => [m.store]
  | (budget, r) :: rest =>
    m.store :: ((r.action (.ofBudget budget)).path m.config m.store).filterMap Moment.store? ++
      (m.serve budget r).visited rest

/-- The arrays that were to get another length in a session, each with the value that it was to get. -/
def sized (m : Machine) : List (Nat × Request) → List (ObjectRef × Value)
  | [] => []
  | (budget, r) :: rest => (r.action (.ofBudget budget)).sizes m.config m.store ++ (m.serve budget r).sized rest

/-- Each request of a session refers to nothing but what is there by then. -/
def Grounded (m : Machine) : List (Nat × Request) → Prop
  | [] => True
  | (budget, r) :: rest => r.Grounded m.store ∧ (m.serve budget r).Grounded rest

variable {m : Machine} {budget : Nat} {r : Request}

theorem store_serve : (m.serve budget r).store = ((r.action (.ofBudget budget)) m.config m.store).store := by
  rw [serve, perform]
  split <;> simp_all [Outcome.store]

theorem served_mem_visited (requests : List (Nat × Request)) : (m.served requests).store ∈ m.visited requests := by
  induction requests generalizing m with
  | nil => exact List.mem_singleton.2 rfl
  | cons request rest ih => exact List.mem_append_right _ ih

end Machine

namespace Law

variable {L : Law} {E E' : Engine} {c : Config} {w : L.World}

theorem value_of_holds {v : Value} (h : (L.left w).Holds v) : L.value w v := by
  cases v with
  | object o => exact L.present (h o rfl)
  | _ => exact L.primitive rfl

theorem request_obeys (H : L.Engines E E') {r : Request} (known : L.values w r.mentions) :
    L.Obeys c w (r.action E) (r.action E') L.any := by
  cases r with
  | run u => exact .bind (unit_obeys H u) fun _ _ _ _ => .pure trivial
  | newArray values => exact .bind (.alloc (.array known)) fun _ _ _ _ => .pure trivial
  | define o name d throw =>
    obtain ⟨object, fields⟩ := List.forall_mem_cons.1 known
    refine .bind (define_obeys H object ⟨?_, ?_, ?_⟩) fun _ _ _ _ => .pure trivial
    · exact fun v asked => fields v (by simp [asked])
    · exact fun v asked => fields v (by simp [asked])
    · exact fun v asked => fields v (by simp [asked])
  | put o name v throw =>
    exact put_obeys H (known _ (List.mem_cons_self ..)) (known v (List.mem_cons_of_mem _ (List.mem_cons_self ..)))
  | delete o name throw => exact .bind delete_obeys fun _ _ _ _ => .pure trivial
  | restrict o freeze => exact restrict_obeys H (known _ (List.mem_cons_self ..))
  | preventExtensions o => exact preventExtensions_obeys

/-- What a law says of every request it says of a whole session. It need only know the values that requests refer to. -/
theorem follows_visited (exotics : L.Exotics) {m : Machine} (start : L.left w = m.store) {requests : List (Nat × Request)}
    (known : m.Grounded requests ∨ ∀ w v, L.value w v) (allowed : L.Allows (m.sized requests)) :
    L.Follows w (m.visited requests) := by
  induction requests generalizing w m with
  | nil =>
    rw [Machine.visited, ← start]
    exact .singleton
  | cons request rest ih =>
    obtain ⟨budget, r⟩ := request
    obtain ⟨now, later⟩ := allows_append.1 allowed
    have mentioned : L.values w r.mentions := fun v mem =>
      known.elim (fun grounded => value_of_holds (start ▸ grounded.1 v mem)) fun all => all w v
    have obeys : L.Obeys m.config w (r.action (.ofBudget budget)) (r.action (.ofBudget budget)) L.any :=
      request_obeys (engines_ofBudget exotics (Nat.le_refl budget)) mentioned
    obtain ⟨u, trail, ends⟩ := obeys (start ▸ now)
    have next : L.left u = (m.serve budget r).store := by rw [Machine.store_serve, ← start, ends.store]
    have stores := trail.follows (ih next (known.imp_left And.right) later)
    rw [start] at stores
    exact stores

end Law

/-- Every store of a session on a fresh machine is that of a world which follows the first. -/
theorem Machine.follows_session (config : Config) {requests : List (Nat × Request)}
    (grounded : (new config).Grounded requests) : Law.wellFormed.Follows World.initial ((new config).visited requests) :=
  Law.follows_visited World.exotics rfl (.inl grounded) fun _ _ _ => trivial

theorem Machine.exists_world_of_visited (config : Config) {requests : List (Nat × Request)}
    (grounded : (new config).Grounded requests) {s : Store} (mem : s ∈ (new config).visited requests) :
    ∃ w : World, World.initial.Steps w ∧ w.store = s := by
  obtain ⟨worlds, stores, _, later⟩ := Machine.follows_session config grounded
  rw [← stores] at mem
  obtain ⟨w, there, same⟩ := List.mem_map.1 mem
  exact ⟨w, later w there, same⟩

end Ecma
