import Ecma.Proofs.Agreement
import Ecma.Proofs.Array.Shape
import Ecma.Proofs.Session

/-!
# Arrays count their elements

The law of one array: whatever code runs and whatever a host asks for, its length lies beyond all of its elements, and
once it is read-only it stays. Nothing but a definition of one of its properties could break that, and such a definition
runs no code as long as the values for its length are primitive.
-/

namespace Ecma

namespace Store

variable {V : Terms} {w : V.World} {F : Store → Store} {o : ObjectRef} {n : Nat} {writable : Bool}

/-- An array counts as before after every change but a definition of one of its properties. -/
theorem Counts.change (counts : (V.left w).Counts o n writable) (made : Change V w F)
    (apart : ∀ name, ¬V.unaliased w o name) : (F (V.left w)).Counts o n writable := by
  have same {t : Store} (objects : t.objects = (V.left w).objects) : t.Counts o n writable :=
    counts.of_same (by rw [object, objects, object])
  have old := inside_of_array counts.kind
  cases made with
  | addObject => exact counts.of_same (object_addObject_old _ _ old)
  | addFunction =>
    refine counts.of_same ?_
    rw [object_addFunction, if_neg (by omega), if_neg (by omega)]
  | @addProperty o' name d _ _ _ _ unaliased =>
    refine counts.of_same (object_modifyObject_of_ne _ _ ?_)
    rintro rfl
    exact apart name unaliased
  | @changeProperty o' name d p q _ _ _ _ unaliased =>
    refine counts.of_same (object_modifyObject_of_ne _ _ ?_)
    rintro rfl
    exact apart name unaliased
  | @changeAliased o' m name parameter d p change bindings b kind =>
    refine counts.of_same (object_defineAliased_of_ne _ _ _ _ _ _ _ _ ?_)
    rintro rfl
    cases counts.kind.symm.trans kind
  | @deleteProperty o' name p present configurable =>
    by_cases here : o = o'
    · subst here
      exact Spans.without counts present configurable
    · exact counts.of_same (object_modifyObject_of_ne _ _ here)
  | close o' =>
    by_cases here : o = o'
    · subst here
      exact Spans.closed counts
    · exact counts.of_same (object_modifyObject_of_ne _ _ here)
  | addScope => exact same rfl
  | declare => exact same rfl
  | declareImmutable => exact same rfl
  | assign => exact same rfl
  | settle => exact same rfl
  | undeclare => exact same rfl
  | addGenerator => exact same rfl
  | steer => exact same rfl
  | enter => exact same rfl
  | leave => exact same rfl
  | shift => exact same (objects_setLexical ..)

end Store

/-- Stores in which an array counts its elements. Its length stays once it is read-only. -/
def Counting.frame (o : ObjectRef) :
    Frame (.lenient (fun w : { s : Store // ∃ n writable, s.Counts o n writable } => w.1) (fun _ other _ => other ≠ o)
      (fun _ => True) fun _ _ => False) where
  right w := w.1
  le w u := ∀ n, w.1.Counts o n false → u.1.Counts o n false
  allows other v := other = o → v.isPrimitive = true
  refl _ _ := id
  trans first second n := second n ∘ first n
  agree _ := rfl
  agree_size _ := rfl
  agree_drives _ := rfl
  agree_head _ _ := rfl
  drives_idle _ := trivial
  change {w F} made :=
    have kept {n writable} (counts : w.1.Counts o n writable) : (F w.1).Counts o n writable :=
      counts.change made fun _ apart => apart rfl
    ⟨⟨F w.1, w.2.imp fun _ h => h.imp fun _ => kept⟩, rfl, rfl, fun _ => kept⟩
  enclose {w _ scope} _ :=
    ⟨⟨w.1.addScope scope, w.2.imp fun _ h => h.imp fun _ counts => counts.of_same rfl⟩, rfl, rfl,
      fun _ counts => counts.of_same rfl, trivial, trivial, fun _ _ _ _ => trivial⟩

/-- The law of runs in which an array counts its elements and is given primitive lengths alone. -/
def Law.counting (o : ObjectRef) : Law :=
  .ofFrame (Counting.frame o) (fun _ => id) (fun {w other name} kind _ => by
    rintro rfl
    obtain ⟨n, writable, counts⟩ := w.2
    exact kind counts.kind) (fun _ _ => .rfl) nofun

namespace Counting

variable {o : ObjectRef} {c : Config} {w : (Law.counting o).World}

theorem aliases : (Law.counting o).Aliases := by
  refine .of_free (fun _ => trivial) (fun {w other m} name kind => ?_) fun {c w other name} apart => ?_
  · rintro rfl
    obtain ⟨n, writable, counts⟩ := w.2
    cases counts.kind.symm.trans kind
  · have same : (w.1.modifyObject other (·.detached name)).object o = w.1.object o :=
      Store.object_modifyObject_of_ne _ _ (Ne.symm apart)
    have intact := w.2.imp fun _ h => h.imp fun _ counts => counts.of_same same
    have kept (n : Nat) (counts : w.1.Counts o n false) := counts.of_same same
    have onward : (Law.counting o).Onward w ⟨_, intact⟩ := .of_generators kept rfl
    exact fun _ => ⟨_, .done onward, .value_of (onward.reached rfl) trivial rfl rfl⟩

/-- A primitive length makes no use of the engine. -/
theorem defineInArray_engine (E E' : Engine) {name : String} {d : Descriptor} {throw : Bool}
    (primitive : name = "length" → ∀ v, d.value = some v → v.isPrimitive = true) :
    o.defineInArray E name d throw = o.defineInArray E' name d throw := by
  unfold ObjectRef.defineInArray
  split
  next length =>
    unfold ObjectRef.defineLength
    cases asked : d.value with
    | none => rfl
    | some v => simp only [Value.toUint32, Value.toNumber_of_isPrimitive (primitive length v asked)]
  · rfl

/-- What an action that runs no code leaves, where it is intact. -/
theorem obeys_of_quiet {α : Type} {x : Action α} {P : Option α → Store → Prop} (quiet : x.Quiet c w.1 P)
    (contexts : (x c w.1).store.contexts = w.1.contexts) (rests : w.1.Rests (x c w.1).store)
    (intact : ∃ n writable, (x c w.1).store.Counts o n writable)
    (kept : ∀ n, w.1.Counts o n false → (x c w.1).store.Counts o n false) :
    (Law.counting o).Obeys c w x x (Law.counting o).any := by
  have onward : (Law.counting o).Onward w ⟨(x c w.1).store, intact⟩ := ⟨kept, rests⟩
  refine fun _ => ⟨_, .silent (fun _ => trivial) onward quiet.path, ?_⟩
  obtain ⟨leaves, _⟩ := quiet
  have reached := onward.reached contexts
  show (Law.counting o).Ends _ w _ _ (x c w.1) (x c w.1)
  generalize x c w.1 = r at leaves intact reached ⊢
  cases leaves with
  | value => exact .value_of reached trivial rfl rfl
  | @abrupt e =>
    refine .abrupt_of reached ?_ rfl rfl
    cases e <;> trivial

/-- Defining a property of an array leaves the stack of contexts and the generators. -/
theorem rests_defineInArray {s : Store} {name : String} {d : Descriptor} {throw : Bool}
    {P : Option Bool → Store → Prop} (unmixed : d.isMixed = false)
    (quiet : (o.defineInArray (.ofBudget 0) name d throw).Quiet c s P) :
    (o.defineInArray (.ofBudget 0) name d throw c s).store.contexts = s.contexts ∧
      s.Rests (o.defineInArray (.ofBudget 0) name d throw c s).store := by
  let start : (Law.agreement none).World := ⟨(s, s), .refl s⟩
  have obeys : (Law.agreement none).Obeys c start (o.defineInArray (.ofBudget 0) name d throw)
      (o.defineInArray (.ofBudget 0) name d throw) (Law.agreement none).any :=
    Law.defineInArray_obeys (Agreement.engines (Nat.le_refl 0))
      ⟨fun _ _ => trivial, fun _ _ => trivial, fun _ _ => trivial⟩ unmixed fun _ => trivial
  obtain ⟨u, trail, ends⟩ := obeys fun _ _ _ => trivial
  obtain ⟨leaves, silent⟩ := quiet
  have onward := trail.onward_of_silent silent
  change (Law.agreement none).Ends _ _ _ u (o.defineInArray (.ofBudget 0) name d throw c s) _ at ends
  generalize o.defineInArray (.ofBudget 0) name d throw c ((Law.agreement none).right start) = other at ends
  generalize o.defineInArray (.ofBudget 0) name d throw c s = r at leaves ends ⊢
  cases leaves with
  | value =>
    cases ends with
    | value reached => exact ⟨reached.contexts, onward.rests⟩
  | abrupt =>
    cases ends with
    | abrupt reached => exact ⟨reached.contexts, onward.rests⟩

/-- A length that is asked for is seen. -/
theorem mem_sizes_defineLength {E : Engine} {s : Store} {d : Descriptor} {throw : Bool} {v : Value}
    (asked : d.value = some v) : (o, v) ∈ (o.defineInArray E "length" d throw).sizes c s := by
  show (o, v) ∈ (o.defineLength E d throw).sizes c s
  unfold ObjectRef.defineLength
  rw [asked]
  exact List.mem_cons_self ..

theorem arrays (E E' : Engine) : (Law.counting o).DefinesArrays E E' := by
  intro c w other name d throw _ _ watched known unmixed allowed
  obtain rfl : other = o := Classical.not_not.1 fun apart => watched fun _ => apart
  have primitive : name = "length" → ∀ v, d.value = some v → v.isPrimitive = true := by
    rintro rfl v asked
    exact allowed other v (mem_sizes_defineLength asked) rfl
  rw [defineInArray_engine E (.ofBudget 0) primitive] at allowed ⊢
  rw [defineInArray_engine E' (.ofBudget 0) primitive]
  have quiet {n : Nat} {writable : Bool} (counts : w.1.Counts other n writable) :
      (other.defineInArray (.ofBudget 0) name d throw).Quiet c w.1 fun _ t => t.Recounts other n writable :=
    ObjectRef.defineInArray_quiet counts unmixed primitive
  obtain ⟨n, writable, counts⟩ := w.2
  obtain ⟨_, recounts⟩ := (quiet counts).store
  obtain ⟨contexts, rests⟩ := rests_defineInArray unmixed (quiet counts)
  refine obeys_of_quiet (quiet counts) contexts rests recounts.1 ?_ allowed
  intro n readOnly
  obtain ⟨_, recounts⟩ := (quiet readOnly).store
  exact recounts.2 rfl

theorem exotics : (Law.counting o).Exotics := ⟨aliases, arrays, nofun⟩

end Counting

/-- A new array counts its elements. -/
theorem Store.counts_addObject_array {values : List Value} (s : Store) (few : values.length < 4294967296) :
    (s.addObject (.array values)).Counts s.nextObject values.length true := by
  have made : (s.addObject (.array values)).object s.nextObject = .array values := by
    rw [object_addObject]
    exact if_pos rfl
  have kind : ((s.addObject (.array values)).object s.nextObject).kind = .array := by
    rw [made]
    rfl
  refine ⟨kind, few, ?_, fun i small mem => ?_⟩
  · rw [getOwn?_array kind, made]
    rfl
  · rw [ownKeys_array kind, made] at mem
    rcases List.mem_cons.1 mem with length | mem
    · exact absurd length (Index.name_ne_length small)
    · obtain ⟨_, entry, named⟩ := List.mem_map.1 mem
      obtain ⟨⟨v, j⟩, there, rfl⟩ := List.mem_map.1 entry
      have inside : j < values.length := (List.getElem?_eq_some_iff.1 (List.mem_zipIdx_iff_getElem?.1 there)).1
      obtain rfl : j = i := Index.name_injective named
      exact inside

/-- Whatever is asked of a machine once it has made an array, and whatever code runs meanwhile: as long as only primitive
values are to become its length, the array has a length beyond all of its elements, and once it is read-only it stays. -/
theorem array_counts_elements (m : Machine) (budget : Nat) {values : List Value} (few : values.length < 4294967296)
    (requests : List (Nat × Request))
    (primitive : ∀ v, (m.store.nextObject, v) ∈ (m.serve budget (.newArray values)).sized requests →
      v.isPrimitive = true) :
    Action.newArray values m.config m.store = .value m.store.nextObject (m.serve budget (.newArray values)).store ∧
    (∀ s ∈ (m.serve budget (.newArray values)).visited requests, ∃ n writable, s.Counts m.store.nextObject n writable) ∧
    ((m.serve budget (.newArray values)).visited requests).Pairwise fun s t =>
      ∀ n, s.Counts m.store.nextObject n false → t.Counts m.store.nextObject n false := by
  have made : (m.serve budget (.newArray values)).store = m.store.addObject (.array values) := by
    rw [Machine.store_serve]
    rfl
  let start : (Law.counting m.store.nextObject).World :=
    ⟨m.store.addObject (.array values), values.length, true, m.store.counts_addObject_array few⟩
  have follows : (Law.counting m.store.nextObject).Follows start _ :=
    Law.follows_visited (w := start) Counting.exotics made.symm (.inr fun _ _ => trivial) fun o v mem same =>
      primitive v (same ▸ mem)
  obtain ⟨worlds, stores, ordered, _⟩ := follows
  rw [← stores]
  refine ⟨made ▸ rfl, fun s mem => ?_, ordered.map _ fun _ _ le => le⟩
  obtain ⟨w, _, rfl⟩ := List.mem_map.1 mem
  exact w.2

/-- A machine that has made an array of three elements. -/
def Machine.threeElements : Machine := (new .standard).serve 0 (.newArray [.null, .null, .null])

/-- The array cannot be emptied once one of its elements cannot be deleted. Its length is then made read-only, and another
element is asked for. -/
def Request.shrinkArray : List (Nat × Request) :=
  [(0, .define ⟨57⟩ "1" { Descriptor.empty with configurable := some false } false),
    (0, .put ⟨57⟩ "length" (.ofNat 0) false),
    (0, .define ⟨57⟩ "length" { Descriptor.empty with writable := some false } false),
    (0, .put ⟨57⟩ "5" .null false),
    (0, .restrict ⟨57⟩ true)]

/-- The element that stays is counted, and no other one. -/
theorem array_counts_elements_shrunk :
    Machine.threeElements.sized Request.shrinkArray = [(⟨57⟩, .ofNat 0)] ∧
      (Machine.threeElements.served Request.shrinkArray).store.Counts ⟨57⟩ 2 false := by
  have sized : Machine.threeElements.sized Request.shrinkArray = [(⟨57⟩, .ofNat 0)] := by decide +kernel
  have length : (Machine.threeElements.served Request.shrinkArray).store.getOwn? ⟨57⟩ "length" =
      some (.data (.ofNat 2) false false false) := by decide +kernel
  have here : (Machine.new .standard).store.nextObject = ⟨57⟩ := by decide +kernel
  have primitive (v : Value)
      (mem : ((Machine.new .standard).store.nextObject, v) ∈ Machine.threeElements.sized Request.shrinkArray) :
      v.isPrimitive = true := by
    rw [sized] at mem
    cases List.mem_singleton.1 mem
    rfl
  obtain ⟨_, counted, _⟩ := array_counts_elements (Machine.new .standard) 0 (by decide) Request.shrinkArray primitive
  obtain ⟨n, writable, counts⟩ := counted _ (Machine.served_mem_visited _)
  rw [here] at counts
  obtain ⟨value, rfl, _⟩ := Property.data_inj (Option.some.inj (counts.length.symm.trans length))
  obtain rfl := Number.ofNat_injective counts.small (by decide) value
  exact ⟨sized, counts⟩

end Ecma
