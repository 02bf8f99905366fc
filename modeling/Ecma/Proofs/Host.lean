import Ecma.Proofs.Session

/-!
# What a host does to scopes and objects

Besides what a session asks of objects, a host makes objects and scopes of every kind and creates, sets, initializes and
deletes the bindings of a scope. The chronicle of a machine tells what happens while such calls are carried out, one
after the other: every store that code begins or ends on, and what it does in between. A law that lets the host do as it
pleases governs all that a chronicle tells.
-/

namespace Ecma

/-- A call that works on the bindings of one scope. -/
inductive BindingCall where
  | createMutable (name : String) (deletable : Bool)
  | setMutable (name : String) (v : Value) (strict : Bool)
  | createImmutable (name : String)
  | initializeImmutable (name : String) (v : Value)
  | delete (name : String)

namespace BindingCall

/-- What the call does in a scope, and whether it was granted. -/
def action (E : Engine) (e : ScopeRef) : BindingCall → Action Bool
  | createMutable name deletable => do e.createMutable E name deletable; pure true
  | setMutable name v strict => do e.setMutable E name v strict; pure true
  | createImmutable name => do e.createImmutable name; pure true
  | initializeImmutable name v => do e.initializeImmutable name v; pure true
  | delete name => e.deleteBinding name

/-- The values that a call refers to. -/
def mentions : BindingCall → List Value
  | setMutable _ v _ | initializeImmutable _ v => [v]
  | createMutable _ _ | createImmutable _ | delete _ => []

end BindingCall

/-- What an object of some kind refers to is there. -/
def ObjectKind.Grounded (s : Store) : ObjectKind → Prop
  | function (.script _ e _) => e.index < s.scopes.size
  | arguments (some m) => m.scope.index < s.scopes.size
  | _ => True

/-- A scope around another is there, if there is to be one. -/
def Store.Offers (s : Store) (outer : Option ScopeRef) : Prop := ∀ e, outer = some e → e.index < s.scopes.size

/-- What a host does with a machine. -/
inductive HostCall where
  | request (r : Request)
  | newObject (prototype : Option ObjectRef) (className : ClassName) (kind : ObjectKind)
  | newScope (outer : Option ScopeRef)
  | newObjectScope (o : ObjectRef) (provideThis : Bool) (outer : Option ScopeRef)
  | bindings (e : ScopeRef) (call : BindingCall)

namespace HostCall

/-- What carrying out a call does. -/
def action (E : Engine) : HostCall → Action Unit
  | request r => r.action E
  | newObject prototype className kind => do let _ ← .alloc (.fresh prototype className kind [])
  | newScope outer => do let _ ← .declarativeScope outer
  | newObjectScope o provideThis outer => do let _ ← .objectScope o provideThis outer
  | bindings e call => do let _ ← call.action E e

/-- A call that refers to nothing but what is there. -/
def Grounded (s : Store) : HostCall → Prop
  | request r => r.Grounded s
  | newObject prototype _ kind => (∀ p, prototype = some p → p.index < s.objects.size) ∧ kind.Grounded s
  | newScope outer => s.Offers outer
  | newObjectScope o _ outer => o.index < s.objects.size ∧ s.Offers outer
  | bindings e call => e.index < s.scopes.size ∧ ∀ v ∈ call.mentions, s.Holds v

end HostCall

namespace Machine

/-- The machine when a call was carried out, or given up. -/
def handle (m : Machine) (budget : Nat) (call : HostCall) : Machine := (m.perform (call.action (.ofBudget budget))).2

/-- What happens while calls are carried out, with the stores before each of them and at the end. -/
def chronicle (m : Machine) : List (Nat × HostCall) → List Moment
  | [] => [.reached m.store]
  | (budget, call) :: rest =>
    .reached m.store :: ((call.action (.ofBudget budget)).path m.config m.store ++ (m.handle budget call).chronicle rest)

/-- Each call refers to nothing but what is there by then. -/
def Provides (m : Machine) : List (Nat × HostCall) → Prop
  | [] => True
  | (budget, call) :: rest => call.Grounded m.store ∧ (m.handle budget call).Provides rest

variable {m : Machine} {budget : Nat} {call : HostCall}

theorem store_handle : (m.handle budget call).store = ((call.action (.ofBudget budget)) m.config m.store).store := by
  rw [handle, perform]
  split <;> simp_all [Outcome.store]

end Machine

namespace Law

variable {L : Law} {E E' : Engine} {c : Config} {w v u : L.World} {path later : List Moment}

/-- Moments that a law allows from a world on. Each store is that of a world which may come after the one before, and what
code does is lawful or a turn in the life of a generator. -/
inductive Tells (L : Law) : L.World → List Moment → Prop where
  | nil {w : L.World} : Tells L w []
  | reached {w v : L.World} {path : List Moment} (le : L.le w v) (rest : Tells L v path) :
    Tells L w (.reached (L.left v) :: path)
  | raised {w : L.World} {f : Fault} {path : List Moment} (rest : Tells L w path) : Tells L w (.raised f :: path)
  | noted {w v : L.World} {e : Event} {path : List Moment} (le : L.le w v)
      (may : L.lawful v e ∨ ∃ t : Store, t.Turns e (L.left v)) (rest : Tells L v path) :
    Tells L w (.noted e (L.left v) :: path)

namespace Tells

theorem before (le : L.le w v) (h : L.Tells v path) : L.Tells w path := by
  induction h with
  | nil => exact .nil
  | reached next rest _ => exact .reached (L.trans le next) rest
  | raised _ ih => exact .raised (ih le)
  | noted next may rest _ => exact .noted (L.trans le next) may rest

theorem follows (h : L.Tells w path) : L.Follows w (path.filterMap Moment.store?) := by
  induction h with
  | nil => exact ⟨[], rfl, .nil, List.forall_mem_nil _⟩
  | @reached w v path le _ ih =>
    obtain ⟨ws, stores, ordered, after⟩ := ih
    refine ⟨v :: ws, congrArg (L.left v :: ·) stores, .cons after ordered, ?_⟩
    exact List.forall_mem_cons.2 ⟨le, fun u mem => L.trans le (after u mem)⟩
  | raised _ ih => exact ih
  | noted le _ _ ih =>
    obtain ⟨ws, stores, ordered, after⟩ := ih
    exact ⟨ws, stores, ordered, fun u mem => L.trans le (after u mem)⟩

/-- What code did is known in a world, and all that follows follows that. -/
theorem event {before after : List Moment} {e : Event} {s : Store} (h : L.Tells w (before ++ .noted e s :: after)) :
    ∃ v, L.left v = s ∧ (L.lawful v e ∨ ∃ t : Store, t.Turns e s) ∧ L.Tells v after := by
  induction before generalizing w with
  | nil =>
    cases h with
    | noted _ may rest => exact ⟨_, rfl, may, rest⟩
  | cons moment before ih =>
    cases h with
    | reached _ rest => exact ih rest
    | raised rest => exact ih rest
    | noted _ _ rest => exact ih rest

end Tells

theorem Trail.tells {limit : Nat} (h : L.Trail limit w path u) (rest : L.Tells u later) : L.Tells w (path ++ later) := by
  induction h with
  | done onward => exact rest.before onward.le
  | reached onward _ _ ih => exact .reached onward.le (ih rest)
  | raised _ _ ih => exact .raised (ih rest)
  | noted onward lawful _ ih => exact .noted onward.le (.inl lawful) (ih rest)
  | turned onward turns le _ ih => exact .noted (L.trans onward.le le) (.inr ⟨_, turns⟩) (ih rest)

/-- A law that lets the host do as it pleases, with what is there. -/
structure Hosts (L : Law) : Prop where
  exotics : L.Exotics
  permits : ∀ f, L.permits f
  allows : ∀ o v, L.allows o v
  bound : ∀ w e name, L.bound w e name
  declares : ∀ w e deletable, L.declares w e deletable
  known : ∀ {w e} strict, e.index < (L.left w).scopes.size → L.scope w e strict
  object : ∀ {w prototype className kind}, (HostCall.newObject prototype className kind).Grounded (L.left w) →
    ∃ u, L.left u = (L.left w).addObject (.fresh prototype className kind []) ∧
      L.right u = (L.right w).addObject (.fresh prototype className kind []) ∧ L.le w u
  scope : ∀ {w outer}, (L.left w).Offers outer →
    ∃ u, L.left u = (L.left w).addScope ⟨.declarative .empty, outer⟩ ∧
      L.right u = (L.right w).addScope ⟨.declarative .empty, outer⟩ ∧ L.le w u
  objectScope : ∀ {w o provideThis outer}, L.object w o → (L.left w).Offers outer →
    ∃ u, L.left u = (L.left w).addScope ⟨.object o provideThis, outer⟩ ∧
      L.right u = (L.right w).addScope ⟨.object o provideThis, outer⟩ ∧ L.le w u

namespace Hosts

variable (hosts : L.Hosts) (H : L.Engines E E')
include hosts H

theorem bindings_obeys {e : ScopeRef} {call : BindingCall} (inside : e.index < (L.left w).scopes.size)
    (known : L.values w call.mentions) : L.Obeys c w (call.action E e) (call.action E' e) L.any := by
  have scope := hosts.known false inside
  cases call with
  | createMutable name deletable =>
    have absent : L.absent w e name := fun _ _ _ => hosts.permits _
    exact .bind (createMutable_obeys H scope absent (hosts.declares w e deletable)) fun _ _ _ _ => .pure trivial
  | setMutable name v strict =>
    exact .bind (setMutable_obeys H (hosts.bound w e name) (known v (List.mem_cons_self ..))) fun _ _ _ _ => .pure trivial
  | createImmutable name =>
    exact .bind (createImmutable_obeys scope (.inl hosts.permits)) fun _ _ _ _ => .pure trivial
  | initializeImmutable name v =>
    exact .bind (initializeImmutable_obeys (known v (List.mem_cons_self ..)) (.inl hosts.permits)) fun _ _ _ _ =>
      .pure trivial
  | delete name => exact deleteBinding_obeys scope

theorem call_obeys {call : HostCall} (grounded : call.Grounded (L.left w)) :
    L.Obeys c w (call.action E) (call.action E') L.any := by
  cases call with
  | request r => exact request_obeys H fun v mem => value_of_holds (grounded v mem)
  | newObject prototype className kind =>
    obtain ⟨u, left, right, le⟩ := hosts.object grounded
    exact .bind (.alloc_of left right le) fun _ _ _ _ => .pure trivial
  | newScope outer =>
    obtain ⟨u, left, right, le⟩ := hosts.scope grounded
    exact .bind (.allocScope_of (Q := L.any) left right le trivial) fun _ _ _ _ => .pure trivial
  | newObjectScope o provideThis outer =>
    obtain ⟨u, left, right, le⟩ := hosts.objectScope (L.present grounded.1) grounded.2
    exact .bind (.allocScope_of (Q := L.any) left right le trivial) fun _ _ _ _ => .pure trivial
  | bindings e call =>
    have known : L.values w call.mentions := fun v mem => value_of_holds (grounded.2 v mem)
    exact .bind (hosts.bindings_obeys H grounded.1 known) fun _ _ _ _ => .pure trivial

omit H

/-- What a law says of every call it says of a whole chronicle. -/
theorem tells {m : Machine} (start : L.left w = m.store) {calls : List (Nat × HostCall)} (provides : m.Provides calls) :
    L.Tells w (m.chronicle calls) := by
  induction calls generalizing w m with
  | nil =>
    rw [Machine.chronicle, ← start]
    exact .reached (L.refl w) .nil
  | cons call rest ih =>
    obtain ⟨budget, call⟩ := call
    obtain ⟨grounded, provides⟩ := provides
    have H : L.Engines (.ofBudget budget) (.ofBudget budget) := engines_ofBudget hosts.exotics (Nat.le_refl budget)
    have obeys : L.Obeys m.config w (call.action (.ofBudget budget)) (call.action (.ofBudget budget)) L.any :=
      hosts.call_obeys H (start ▸ grounded)
    obtain ⟨u, trail, ends⟩ := obeys fun o v _ => hosts.allows o v
    have next : L.left u = (m.handle budget call).store := by rw [Machine.store_handle, ← start, ends.store]
    have told := trail.tells (ih next provides)
    rw [Machine.chronicle, ← start]
    exact .reached (L.refl w) told

end Hosts

end Law

end Ecma
