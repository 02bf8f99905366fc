import Ecma.Proofs.Array.Reentrancy
import Ecma.Proofs.WriteThrough

/-!
# Defining properties as they are

A request for exactly the property that an object has is granted and changes nothing, whatever kind of object it is. For
most kinds that is so because every requested value is the one there is, up to the sign of a zero and for NaN too. An
array compares the length that is asked for with the length it has, which has to be a number for that, and an index that
stands for a parameter passes its value on, so the scope of the parameter must bind no name twice. Both hold of every
store that a session comes to.
-/

namespace Ecma

/-! ## Scopes bind no name twice -/

namespace Store

variable {s t : Store} {e : ScopeRef}

/-- No scope binds a name twice. -/
def BindsOnce (s : Store) : Prop := ∀ e bindings, (s.scope e).record = .declarative bindings → bindings.keys.Nodup

namespace BindsOnce

theorem of_scopes (h : s.BindsOnce) (scopes : t.scopes = s.scopes) : t.BindsOnce := by
  intro e bindings record
  rw [scope, scopes] at record
  exact h e bindings record

theorem withBindings {new : NameMap Binding} (h : s.BindsOnce) (nodup : new.keys.Nodup) :
    (s.withBindings e new).BindsOnce := by
  intro d bindings record
  rcases scope_withBindings_cases s e new d with same | ⟨_, _, changed⟩
  · rw [same] at record
    exact h d bindings record
  · rw [changed] at record
    cases record
    exact nodup

theorem insert {old : NameMap Binding} (h : s.BindsOnce) (record : (s.scope e).record = .declarative old) (name : String)
    (b : Binding) : (s.withBindings e (old.insert name b)).BindsOnce :=
  h.withBindings (NameMap.nodup_keys_insert (h e old record) name b)

theorem change {V : Terms} {w : V.World} {F : Store → Store} (h : (V.left w).BindsOnce) (made : Change V w F) :
    (F (V.left w)).BindsOnce := by
  cases made with
  | @changeAliased o m name parameter d p change bindings b _ _ _ _ _ _ record =>
    have redefined : ((V.left w).modifyObject o (·.redefined name d change)).BindsOnce := h.of_scopes rfl
    rw [defineAliased_eq]
    dsimp only
    split
    · exact redefined
    · cases d.value with
      | none => exact redefined
      | some v => exact redefined.insert record parameter _
  | addScope made =>
    intro d bindings record
    rw [scope_addScope] at record
    split at record
    · cases made with
      | declarative =>
        cases record
        exact .nil
      | object => cases record
    · exact h d bindings record
  | declare record => exact h.insert record _ _
  | declareImmutable record => exact h.insert record _ _
  | assign record => exact h.insert record _ _
  | settle record => exact h.insert record _ _
  | undeclare record =>
    refine h.withBindings ?_
    rw [NameMap.keys_erase]
    exact (h _ _ record).filter _
  | shift => exact h.of_scopes (scopes_setLexical ..)
  | _ => exact h.of_scopes rfl

end BindsOnce

end Store

namespace Property

theorem Complete.isMixed_descriptor {p : Property} (complete : p.Complete) : p.descriptor.isMixed = false := by
  cases complete <;> rfl

end Property

namespace ObjectRef

variable {s : Store} {o : ObjectRef} {name : String} {p : Property} {E : Engine} {c : Config} {throw : Bool}

end ObjectRef

end Ecma
