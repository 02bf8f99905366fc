import Ecma.Proofs.Law.Basic
import Ecma.Proofs.Silent

/-!
# Actions that obey a law

How the ways of putting actions together obey a law, one lemma each. The lemmas on single operations of the runtime are
built from these alone, along the lines of the operations themselves.
-/

namespace Ecma

namespace Law.Obeys

variable {L : Law} {α β : Type} {c : Config} {w : L.World}

theorem mono {x y : Action α} {Q R : L.World → α → Prop} (hx : L.Obeys c w x y Q)
    (h : ∀ u a, L.Reached w u → Q u a → R u a) : L.Obeys c w x y R := by
  intro allowed
  obtain ⟨u, trail, ends⟩ := hx allowed
  refine ⟨u, trail, ?_⟩
  generalize x c (L.left w) = o at ends ⊢
  generalize y c (L.right w) = o' at ends ⊢
  cases ends with
  | value reached post => exact .value reached (h _ _ reached post)
  | abrupt reached post => exact .abrupt reached post
  | exhausted depth => exact .exhausted depth

/-- The world of a result is the one whose store the first run left. -/
theorem outcome {x y : Action α} {Q : L.World → α → Prop} (hx : L.Obeys c w x y Q) :
    L.Obeys c w x y fun u a => Q u a ∧ x c (L.left w) = .value a (L.left u) := by
  intro allowed
  obtain ⟨u, trail, ends⟩ := hx allowed
  refine ⟨u, trail, ?_⟩
  generalize x c (L.left w) = o at ends ⊢
  generalize y c (L.right w) = o' at ends ⊢
  cases ends with
  | value reached post => exact .value reached ⟨post, rfl⟩
  | abrupt reached post => exact .abrupt reached post
  | exhausted depth => exact .exhausted depth

theorem weaken {x y : Action α} {Q : L.World → α → Prop} (hx : L.Obeys c w x y Q) : L.Obeys c w x y L.any :=
  hx.mono fun _ _ _ _ => trivial

/-- What is known of the result may rest on its being reached. -/
theorem pure {a : α} {Q : L.World → α → Prop} (h : Q w a) : L.Obeys c w (pure a) (pure a) Q :=
  fun _ => ⟨w, .done (.refl w), .value (.refl w) h⟩

theorem bind {x y : Action α} {f g : α → Action β} {Q : L.World → α → Prop} {R : L.World → β → Prop}
    (hx : L.Obeys c w x y Q) (hf : ∀ a u, L.Reached w u → Q u a → L.Obeys c u (f a) (g a) R) :
    L.Obeys c w (x >>= f) (y >>= g) R := by
  intro allowed
  obtain ⟨first, next⟩ : L.Allows (x.sizes c (L.left w)) ∧
      L.Allows ((x c (L.left w)).pathAfter fun a s => (f a).sizes c s) := allows_append.1 allowed
  obtain ⟨v, trail, ends⟩ := hx first
  show ∃ u, L.Trail _ w (x.path c (L.left w) ++ (x c (L.left w)).pathAfter _) u ∧
    L.Ends _ w R u ((x c (L.left w)).bind _) ((y c (L.right w)).bind _)
  generalize x c (L.left w) = o at ends next ⊢
  generalize y c (L.right w) = o' at ends ⊢
  cases ends with
  | value reached post =>
    rename_i a
    obtain ⟨u, rest, ends⟩ := hf a v reached post next
    rw [reached.limit c] at rest ends
    refine ⟨u, trail.append rest, ?_⟩
    exact ends.before reached
  | abrupt reached post => exact ⟨v, trail.append (.done (.refl v)), .abrupt reached post⟩
  | exhausted depth => exact ⟨v, trail.append (.done (.refl v)), .exhausted depth⟩

theorem map {x y : Action α} {f : α → β} {Q : L.World → α → Prop} {R : L.World → β → Prop}
    (hx : L.Obeys c w x y Q) (h : ∀ u a, L.Reached w u → Q u a → R u (f a)) :
    L.Obeys c w (f <$> x) (f <$> y) R :=
  hx.bind fun a u reached post => .pure (h u a reached post)

/-- A reading that goes on with what it read stays in its world. -/
theorem read_bind {r : Store → α} {f g : α → Action β} {R : L.World → β → Prop}
    (blind : Blind r) (h : L.Obeys c w (f (r (L.left w))) (g (r (L.left w))) R) :
    L.Obeys c w (Action.read r >>= f) (Action.read r >>= g) R := by
  have same : r (L.right w) = r (L.left w) := by rw [L.agree]; exact blind _ _
  rw [← same] at h
  intro allowed
  have next : L.Allows ((f (r (L.left w))).sizes c (L.left w)) := allowed
  rw [← same] at next
  obtain ⟨u, trail, ends⟩ := h next
  refine ⟨u, ?_, ?_⟩
  · show L.Trail _ w ((f (r (L.left w))).path c (L.left w)) u
    rw [← same]
    exact trail
  · show L.Ends _ w R u (f (r (L.left w)) c (L.left w)) (g (r (L.right w)) c (L.right w))
    rw [← same]
    exact ends

theorem read {r : Store → α} {Q : L.World → α → Prop} (blind : Blind r) (h : Q w (r (L.left w))) :
    L.Obeys c w (Action.read r) (Action.read r) Q := by
  have same : r (L.right w) = r (L.left w) := by rw [L.agree]; exact blind _ _
  refine fun _ => ⟨w, .done (.refl w), ?_⟩
  show L.Ends _ w Q w (.value (r (L.left w)) (L.left w)) (.value (r (L.right w)) (L.right w))
  rw [same]
  exact .value (.refl w) h

theorem map_read {r : Store → α} {f : α → β} {Q : L.World → β → Prop} (blind : Blind r)
    (h : Q w (f (r (L.left w)))) : L.Obeys c w (f <$> Action.read r) (f <$> Action.read r) Q :=
  (read (Q := fun u a => Q u (f a)) blind h).map fun _ _ _ post => post

theorem config_bind {f g : Config → Action β} {R : L.World → β → Prop} (h : L.Obeys c w (f c) (g c) R) :
    L.Obeys c w (Action.config >>= f) (Action.config >>= g) R := h

theorem fail {f : Fault} {Q : L.World → α → Prop} (h : L.permits f) :
    L.Obeys c w (Action.fail f) (Action.fail f) Q :=
  fun _ => ⟨w, .raised h (.done (.refl w)), .abrupt (.refl w) h⟩

theorem throwValue {v : Value} {Q : L.World → α → Prop} (h : L.value w v) :
    L.Obeys c w (Action.throwValue v) (Action.throwValue v) Q :=
  fun _ => ⟨w, .done (.refl w), .abrupt (.refl w) h⟩

theorem rethrow {e : Abrupt} {Q : L.World → α → Prop} (h : L.abrupt w e) :
    L.Obeys c w (Action.rethrow e) (Action.rethrow e) Q := by
  cases e with
  | fault f => exact fail h
  | thrown v => exact throwValue h

theorem exhaust {y : Action α} {Q : L.World → α → Prop} : L.Obeys c w Action.exhaust y Q :=
  fun _ => ⟨w, .done (.refl w), .exhausted (depth_le_limit c w)⟩

/-- Whatever is done at once leads to the world that has the store it leaves. -/
theorem of_does {x y : Action α} {a : α} {u : L.World} {Q : L.World → α → Prop}
    (onward : L.Onward w u) (contexts : (L.left u).contexts = (L.left w).contexts)
    (left : x.Does c (L.left w) a (L.left u)) (right : y.Does c (L.right w) a (L.right u)) (post : Q u a) :
    L.Obeys c w x y Q := by
  refine fun _ => ⟨u, ?_, ?_⟩
  · rw [left.path]
    exact .done onward
  · rw [left.run, right.run]
    exact .value (onward.reached contexts) post

/-- Code says that it does something lawful. -/
theorem note_bind {e : Event} {f g : Unit → Action β} {R : L.World → β → Prop} (lawful : L.lawful w e)
    (next : L.Obeys c w (f ()) (g ()) R) : L.Obeys c w (Action.note e >>= f) (Action.note e >>= g) R := by
  intro allowed
  obtain ⟨u, trail, ends⟩ := next allowed
  exact ⟨u, .noted (.refl w) lawful trail, ends⟩

/-- What follows once it is known that a length is allowed. -/
theorem sizing_bind {o : ObjectRef} {v : Value} {f g : Unit → Action β} {R : L.World → β → Prop}
    (h : L.allows o v → L.Obeys c w (f ()) (g ()) R) :
    L.Obeys c w (Action.sizing o v >>= f) (Action.sizing o v >>= g) R := fun allowed =>
  h (allowed o v (List.mem_cons_self ..)) fun o' v' mem => allowed o' v' (List.mem_cons_of_mem _ mem)

theorem ofExcept {r : Except Abrupt α} {Q : L.World → α → Prop} (h : L.except Q w r) :
    L.Obeys c w (Action.ofExcept r) (Action.ofExcept r) Q := by
  cases r with
  | ok a => exact pure h
  | error e => exact rethrow h

theorem reject {throw : Bool} {f : Fault} (h : L.permits f) :
    L.Obeys c w (Action.reject throw f) (Action.reject throw f) L.any := by
  cases throw with
  | true => exact fail h
  | false => exact pure trivial

theorem ite {p : Prop} [Decidable p] {x y x' y' : Action α} {Q : L.World → α → Prop} (pos : p → L.Obeys c w x y Q)
    (neg : ¬p → L.Obeys c w x' y' Q) : L.Obeys c w (if p then x else x') (if p then y else y') Q := by
  split
  case isTrue h => exact pos h
  case isFalse h => exact neg h

theorem attempt {x y : Action α} {Q : L.World → α → Prop} (hx : L.Obeys c w x y Q) :
    L.Obeys c w x.attempt y.attempt (L.except Q) := by
  intro allowed
  obtain ⟨u, trail, ends⟩ := hx allowed
  refine ⟨u, trail, ?_⟩
  show L.Ends _ w _ u (x c (L.left w)).attempted (y c (L.right w)).attempted
  generalize x c (L.left w) = o at ends ⊢
  generalize y c (L.right w) = o' at ends ⊢
  cases ends with
  | value reached post => exact .value reached post
  | abrupt reached post => exact .value reached post
  | exhausted depth => exact .exhausted depth

theorem watched {x y : Action α} {Q : L.World → α → Prop} (hx : L.Obeys c w x y Q) :
    L.Obeys c w x.watched y.watched Q := by
  intro allowed
  obtain ⟨u, trail, ends⟩ := hx allowed
  refine ⟨u, .reached (.refl w) (depth_le_limit c w) (trail.append ?_), ends⟩
  rw [ends.store]
  exact .reached (.refl u) ends.depth (.done (.refl u))

end Law.Obeys

namespace Law

/-- Two actions obey a law from a world on, and where they end the contexts and the generators that run are as they were
in another one. -/
def Returns (L : Law) {α : Type} (c : Config) (w v : L.World) (x y : Action α) (Q : L.World → α → Prop) : Prop :=
  L.Allows (x.sizes c (L.left v)) → ∃ u, L.Trail (L.limit c w) v (x.path c (L.left v)) u ∧
    L.Ends (L.limit c w) w Q u (x c (L.left v)) (y c (L.right v))

namespace Returns

variable {L : Law} {α β : Type} {c : Config} {w v : L.World}

theorem of_obeys {x y : Action α} {Q : L.World → α → Prop} (reached : L.Reached w v) (hx : L.Obeys c v x y Q) :
    L.Returns c w v x y Q := by
  intro allowed
  obtain ⟨u, trail, ends⟩ := hx allowed
  rw [reached.limit c] at trail ends
  exact ⟨u, trail, ends.before reached⟩

/-- What follows a turn in the life of a generator. -/
theorem turn {u : L.World} {g : GeneratorRef} {f : Generator → Generator} {e : Event} {x y : Action α}
    {Q : L.World → α → Prop} (left : L.left u = (L.left v).modifyGenerator g f)
    (right : L.right u = (L.right v).modifyGenerator g f) (le : L.le v u)
    (turns : (L.left v).Turns e ((L.left v).modifyGenerator g f)) (next : L.Returns c w u x y Q) :
    L.Returns c w v (do Action.modify (·.modifyGenerator g f); Action.note e; x)
      (do Action.modify (·.modifyGenerator g f); Action.note e; y) Q := by
  intro allowed
  have sizes : L.Allows (x.sizes c ((L.left v).modifyGenerator g f)) := allowed
  rw [← left] at turns sizes
  obtain ⟨t, trail, ends⟩ := next sizes
  refine ⟨t, ?_, ?_⟩
  · show L.Trail _ v (.noted e ((L.left v).modifyGenerator g f) :: x.path c ((L.left v).modifyGenerator g f)) t
    rw [← left]
    exact .turned (.refl v) turns le trail
  · show L.Ends _ w Q t (x c ((L.left v).modifyGenerator g f)) (y c ((L.right v).modifyGenerator g f))
    rw [← left, ← right]
    exact ends

/-- What follows an action, however that ends. -/
theorem attempt_bind {x y : Action α} {f g : Except Abrupt α → Action β} {Q : L.World → α → Prop}
    {R : L.World → β → Prop} (inner : L.limit c v = L.limit c w) (hx : L.Obeys c v x y Q)
    (after : ∀ r u, L.Reached v u → L.except Q u r → L.Returns c w u (f r) (g r) R) :
    L.Returns c w v (x.attempt >>= f) (y.attempt >>= g) R := by
  intro allowed
  obtain ⟨first, next⟩ : L.Allows (x.sizes c (L.left v)) ∧
      L.Allows ((x c (L.left v)).attempted.pathAfter fun r s => (f r).sizes c s) := allows_append.1 allowed
  obtain ⟨u, trail, ends⟩ := hx first
  rw [inner] at trail ends
  show ∃ t, L.Trail _ v (x.path c (L.left v) ++ (x c (L.left v)).attempted.pathAfter _) t ∧
    L.Ends _ w R t ((x c (L.left v)).attempted.bind _) ((y c (L.right v)).attempted.bind _)
  generalize x c (L.left v) = o at ends next ⊢
  generalize y c (L.right v) = o' at ends ⊢
  cases ends with
  | value reached post =>
    obtain ⟨t, rest, ends⟩ := after (.ok _) u reached post next
    exact ⟨t, trail.append rest, ends⟩
  | abrupt reached post =>
    obtain ⟨t, rest, ends⟩ := after (.error _) u reached post next
    exact ⟨t, trail.append rest, ends⟩
  | exhausted depth => exact ⟨u, trail.append (.done (.refl u)), .exhausted depth⟩

end Returns

end Law

end Ecma
