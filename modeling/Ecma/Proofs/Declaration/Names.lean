import Ecma.Proofs.Declaration.Objects

/-!
# Names that are taken

A function that code declares is given to a name of the scope that has its variables, and that name may be taken. Global
code replaces what the global object has under the name, or gives a fault. All other code assigns to what is there, as
if by an assignment: then there may be a setter, and what cannot be set stays without a fault unless the code is strict.
`Store.Obstructs` lists the ways in which a declared function does not get its name although there is no fault.
-/

namespace Ecma

/-- Global code does not assign to what the global object has under a name but replaces it, unless that is plain data
for good. -/
def CodeKind.Replaces (kind : CodeKind) (e : ScopeRef) (p : Property) : Prop :=
  kind = .global ∧ e = .global ∧ ¬(p.configurable = false ∧ p.isData = true ∧ p.writable = true ∧ p.enumerable = true)

/-- What a declared function cannot take the place of, and the setter that gets it instead, if there is one. -/
inductive Store.Obstructs (s : Store) (kind : CodeKind) (ctx : Context) (name : String) : Option ObjectRef → Prop where
  | constant {bindings : NameMap Binding} {b : Binding} (record : (s.scope ctx.vars).record = .declarative bindings)
      (found : bindings.get? name = some b) (fixed : b.mutable = false) (lenient : ctx.strict = false) :
    Obstructs s kind ctx name none
  | unwritable {o : ObjectRef} {provideThis : Bool} {p : Property}
      (record : (s.scope ctx.vars).record = .object o provideThis) (found : s.getProperty? o name = some p)
      (assigned : ¬kind.Replaces ctx.vars p) (no : s.canPut o name = false) (lenient : ctx.strict = false) :
    Obstructs s kind ctx name none
  | setter {o : ObjectRef} {provideThis : Bool} {p : Property} {f : ObjectRef}
      (record : (s.scope ctx.vars).record = .object o provideThis) (found : s.getProperty? o name = some p)
      (assigned : ¬kind.Replaces ctx.vars p) (can : s.canPut o name = true) (setter : p.setter? = some f) :
    Obstructs s kind ctx name (some f)

/-- Sees to it that a name can be set to a declared function. -/
def makeRoom (E : Engine) (kind : CodeKind) (ctx : Context) (name : String) : Action Unit := do
  if ← .read (·.hasBinding ctx.vars name) then
    if kind = .global ∧ ctx.vars = .global then replaceGlobal E name
  else ctx.vars.createMutable E name kind.deletable

/-- Gives a name to a value, as a declaration does it. -/
def setName (E : Engine) (kind : CodeKind) (ctx : Context) (name : String) (v : Value) : Action Unit := do
  makeRoom E kind ctx name
  ctx.vars.setMutable E name v ctx.strict

/-- A function is made, and then the name is given to it. -/
theorem bindFunction_eq (E : Engine) (kind : CodeKind) (ctx : Context) (code : FunctionCode) (name : String) :
    bindFunction E kind ctx code name = (do
      let f ← .newFunction code ctx.vars ctx.strict
      setName E kind ctx name (.object f)) := by
  unfold bindFunction setName makeRoom
  simp only [bind_assoc]
  congr
  funext f
  congr
  funext bound
  cases bound with
  | false => rfl
  | true =>
    rw [if_pos rfl, if_pos rfl]
    split
    · rfl
    · exact (pure_bind _ _).symm

section Object

variable {s : Store} {o : ObjectRef} {provideThis : Bool} {kind : CodeKind} {ctx : Context} {name : String}
  {p : Property}

theorem hasBinding_of_object {e : ScopeRef} (record : (s.scope e).record = .object o provideThis) (name : String) :
    s.hasBinding e name = (s.getProperty? o name).isSome := by
  rw [Store.hasBinding, record]
  rfl

/-- What can be configured becomes plain data. -/
theorem replaceGlobal_configurable {t : Store} {E : Engine} {c : Config}
    (found : s.getProperty? Intrinsic.global.ref name = some p) (configurable : p.configurable = true)
    (does : (Intrinsic.global.ref.define E name
      (Property.data .undefined true true false).descriptor true).Does c s true t) :
    (replaceGlobal E name).Does c s () t := by
  refine .read_bind ?_
  rw [found]
  dsimp only
  rw [if_pos configurable]
  exact .bind does .pure

theorem replaceGlobal_raises {E : Engine} {c : Config} (found : s.getProperty? Intrinsic.global.ref name = some p)
    (configurable : p.configurable = true)
    (raises : (Intrinsic.global.ref.define E name
      (Property.data .undefined true true false).descriptor true).RaisesTypeError c s) :
    (replaceGlobal E name).RaisesTypeError c s := by
  refine .read_bind ?_
  rw [found]
  dsimp only
  rw [if_pos configurable]
  exact raises.before _

/-- What cannot be configured must be plain data already. -/
theorem replaceGlobal_kept (found : s.getProperty? Intrinsic.global.ref name = some p) (fixed : p.configurable = false)
    (unset : p.isAccessor = false) (writable : p.writable = true) (enumerable : p.enumerable = true)
    (E : Engine) (c : Config) :
    (replaceGlobal E name).ActsAs (pure ()) c s := by
  refine .read_bind ?_
  rw [found]
  simp only [fixed, unset, writable, enumerable, Bool.false_eq_true, if_false, Bool.not_true, Bool.and_self, Bool.or_self]
  exact .refl ..

theorem replaceGlobal_refused (found : s.getProperty? Intrinsic.global.ref name = some p)
    (fixed : p.configurable = false)
    (other : ¬(p.isAccessor = false ∧ p.writable = true ∧ p.enumerable = true)) (E : Engine) (c : Config) :
    (replaceGlobal E name).Fails c s (.redeclaredGlobal name) := by
  refine .read_bind ?_
  rw [found]
  have refuses : (p.isAccessor || !(p.writable && p.enumerable)) = true := by
    cases unset : p.isAccessor <;> cases writable : p.writable <;> cases enumerable : p.enumerable <;> simp_all
  dsimp only
  rw [fixed, if_neg Bool.false_ne_true, refuses, if_pos rfl]
  exact .fail

/-- A name that the object has is left as it is, where it is not replaced. -/
theorem makeRoom_assigned (orderly : s.Orderly) (record : (s.scope ctx.vars).record = .object o provideThis)
    (global : ctx.vars = .global → o = Intrinsic.global.ref) (found : s.getProperty? o name = some p)
    (assigned : ¬kind.Replaces ctx.vars p) (E : Engine) (c : Config) :
    (makeRoom E kind ctx name).ActsAs (pure ()) c s := by
  refine .read_bind ?_
  rw [hasBinding_of_object record, found, Option.isSome_some, if_pos rfl]
  split
  next both =>
    obtain ⟨fixed, data, writable, enumerable⟩ := Classical.not_not.1 fun other => assigned ⟨both.1, both.2, other⟩
    have unset : p.isAccessor = false := by simpa [data] using (orderly.complete found).isData_eq
    rw [global both.2] at found
    exact replaceGlobal_kept found fixed unset writable enumerable E c
  · exact .refl ..

/-- Room is made by defining plain data, unless the name is to be assigned to as it is. -/
theorem makeRoom_object (orderly : s.Orderly) (plain : s.Plain o)
    (record : (s.scope ctx.vars).record = .object o provideThis)
    (global : ctx.vars = .global → o = Intrinsic.global.ref)
    (unassigned : ∀ p, s.getProperty? o name = some p → kind.Replaces ctx.vars p) :
    (∃ t deletable, s.Touches t o name ∧ t.getOwn? o name = some (.data .undefined true true deletable) ∧
      ∀ E c, (makeRoom E kind ctx name).Does c s () t) ∨
    ∀ E c, (makeRoom E kind ctx name).RaisesTypeError c s := by
  have binding := hasBinding_of_object record name
  cases found : s.getProperty? o name with
  | none =>
    rw [found] at binding
    rcases ObjectRef.define_plain orderly plain name kind.deletable with ⟨t, touches, own, does⟩ | raises
    · refine .inl ⟨t, _, touches, own, fun E c => .read_bind ?_⟩
      rw [binding]
      refine .read_bind ?_
      rw [record]
      exact .bind (does E c) .pure
    · refine .inr fun E c => .read_bind ?_
      rw [binding]
      refine .read_bind ?_
      rw [record]
      exact (raises E c).before _
  | some p =>
    rw [found] at binding
    obtain ⟨ofGlobal, here, notPlain⟩ := unassigned p found
    have room (E : Engine) : (if kind = .global ∧ ctx.vars = .global then replaceGlobal E name else pure ()) =
      replaceGlobal E name := if_pos ⟨ofGlobal, here⟩
    rw [global here] at found plain
    cases configurable : p.configurable with
    | true =>
      rcases ObjectRef.define_plain orderly plain name false with ⟨t, touches, own, does⟩ | raises
      · refine .inl ⟨t, false, global here ▸ touches, global here ▸ own, fun E c => .read_bind ?_⟩
        rw [binding, Option.isSome_some, if_pos rfl, room]
        exact replaceGlobal_configurable found configurable (does E c)
      · refine .inr fun E c => .read_bind ?_
        rw [binding, Option.isSome_some, if_pos rfl, room]
        exact replaceGlobal_raises found configurable (raises E c)
    | false =>
      refine .inr fun E c => .read_bind ?_
      rw [binding, Option.isSome_some, if_pos rfl, room]
      have refused : ¬(p.isAccessor = false ∧ p.writable = true ∧ p.enumerable = true) := by
        rintro ⟨unset, plain⟩
        exact notPlain ⟨configurable, by simp [(orderly.complete found).isData_eq, unset], plain⟩
      exact (replaceGlobal_refused found configurable refused E c).raisesTypeError rfl

/-- A name of an object that nothing obstructs is set, or there is a type error. -/
theorem setName_object (orderly : s.Orderly) (plain : s.Plain o)
    (record : (s.scope ctx.vars).record = .object o provideThis)
    (global : ctx.vars = .global → o = Intrinsic.global.ref)
    (free : ∀ r, ¬s.Obstructs kind ctx name r) (v : Value) :
    (∃ t, s.Touches t o name ∧ (∃ e c, t.getOwn? o name = some (.data v true e c)) ∧
      ∀ E c, (setName E kind ctx name v).Does c s () t) ∨
    ∀ E c, (setName E kind ctx name v).RaisesTypeError c s := by
  by_cases assigned : ∃ p, s.getProperty? o name = some p ∧ ¬kind.Replaces ctx.vars p
  · obtain ⟨p, found, assigned⟩ := assigned
    have room (E : Engine) (c : Config) : (makeRoom E kind ctx name).Does c s () s :=
      (makeRoom_assigned orderly record global found assigned E c).does .pure
    cases can : s.canPut o name with
    | false =>
      cases strict : ctx.strict with
      | false => exact absurd (.unwritable record found assigned can strict) (free none)
      | true =>
        refine .inr fun E c => .after (room E c) (.read_bind ?_)
        rw [record, strict]
        exact (ObjectRef.put_of_not_canPut can E v c).2.raisesTypeError rfl
    | true =>
      have unset (q : Property) (same : s.getProperty? o name = some q) : q.isAccessor = false := by
        cases found.symm.trans same
        by_contra accessor
        obtain ⟨f, setter⟩ := Store.setter_of_canPut orderly.ends can found (Bool.not_eq_false _ ▸ accessor)
        exact free _ (.setter record found assigned can setter)
      obtain ⟨t, touches, own, does⟩ := ObjectRef.put_plain orderly plain can unset v
      refine .inl ⟨t, touches, own, fun E c => .bind (room E c) (.read_bind ?_)⟩
      rw [record]
      exact does E c ctx.strict
  · have unassigned (p : Property) (found : s.getProperty? o name = some p) : kind.Replaces ctx.vars p :=
      Classical.not_not.1 fun other => assigned ⟨p, found, other⟩
    rcases makeRoom_object orderly plain record global unassigned with ⟨t, deletable, touches, own, room⟩ | raises
    · have can : t.canPut o name = true := by rw [Store.canPut, own]; rfl
      have unset (q : Property) (found : t.getProperty? o name = some q) : q.isAccessor = false := by
        cases (Store.getProperty?_of_own own).symm.trans found
        rfl
      obtain ⟨u, later, own', does⟩ := ObjectRef.put_plain touches.orderly touches.plain can unset v
      refine .inl ⟨u, touches.trans later, own', fun E c => .bind (room E c) (.read_bind ?_)⟩
      rw [Store.scope, touches.scopes, ← Store.scope, record]
      exact does E c ctx.strict
    · exact .inr fun E c => (raises E c).before _

end Object

section Declarative

variable {s : Store} {kind : CodeKind} {ctx : Context} {name : String} {e : ScopeRef}
  {bindings bindings' : NameMap Binding}

theorem Store.Orderly.withBindings (h : s.Orderly) (inside : e.index < s.scopes.size)
    (record : (s.scope e).record = .declarative bindings)
    (keeps : ∀ name b, bindings.get? name = some b → b.Aliasable → ∃ b', bindings'.get? name = some b' ∧ b'.Aliasable) :
    (s.withBindings e bindings').Orderly := by
  refine ⟨h.intrinsics, h.older, fun o => ⟨(h.backed o).complete, fun m name parameter kind aliased => ?_⟩⟩
  obtain ⟨stored, found⟩ := (h.backed o).aliases m name parameter kind aliased
  refine ⟨stored, ?_⟩
  obtain ⟨old, b, old_record, found, aliasable⟩ := found
  have fills : s.Fills (s.withBindings e bindings') e bindings' := .withBindings inside
  by_cases here : m.scope = e
  · rw [here] at old_record ⊢
    cases record.symm.trans old_record
    obtain ⟨b', found', aliasable'⟩ := keeps parameter b found aliasable
    exact ⟨bindings', b', fills.record, found', aliasable'⟩
  · exact ⟨old, b, by rw [fills.others _ here]; exact old_record, found, aliasable⟩

/-- A name that is bound gets another value. -/
theorem setMutable_declarative {b : Binding} (record : (s.scope e).record = .declarative bindings)
    (found : bindings.get? name = some b) (settable : b.mutable = true) (E : Engine) (c : Config) (v : Value)
    (strict : Bool) :
    (e.setMutable E name v strict).Does c s () (s.withBindings e (bindings.insert name { b with value := v })) := by
  refine .read_bind ?_
  rw [record]
  dsimp only [ScopeRef.setDeclarative]
  rw [found]
  dsimp only
  rw [if_pos settable]
  exact .modify

/-- Room is made by binding a name that is not bound yet. -/
theorem makeRoom_declarative (orderly : s.Orderly) (inside : ctx.vars.index < s.scopes.size) (own : ctx.vars ≠ .global)
    (record : (s.scope ctx.vars).record = .declarative bindings) (kind : CodeKind) (name : String) :
    ∃ t bound, ∃ b : Binding, t.Orderly ∧ s.Fills t ctx.vars bound ∧ bound.get? name = some b ∧
      (∀ b', bound.insert name b' = bindings.insert name b') ∧
      (bindings.get? name = some b ∨ b = .mutableOf kind.deletable) ∧
      ∀ E c, (makeRoom E kind ctx name).Does c s () t := by
  cases found : bindings.get? name with
  | some b =>
    have present : bindings.contains name = true := by rw [NameMap.contains, found]; rfl
    refine ⟨s, bindings, b, orderly, .refl record, found, fun _ => rfl, .inl rfl, fun E c => .read_bind ?_⟩
    rw [hasBinding_of_record record, present, if_pos rfl, if_neg fun both => own both.2]
    exact .pure
  | none =>
    have absent : bindings.contains name = false := by rw [NameMap.contains, found]; rfl
    refine ⟨s.withBindings ctx.vars (bindings.insert name (.mutableOf kind.deletable)), _, _,
      orderly.withBindings inside record ?_, .withBindings inside, by rw [NameMap.get?_insert, if_pos rfl],
      bindings.insert_insert name _, .inr rfl, fun E c => .read_bind ?_⟩
    · intro other b there aliasable
      refine ⟨b, ?_, aliasable⟩
      rw [NameMap.get?_insert, if_neg, there]
      rintro rfl
      cases found.symm.trans there
    · rw [hasBinding_of_record record, absent, if_neg Bool.false_ne_true]
      refine .read_bind ?_
      rw [record]
      dsimp only
      rw [absent]
      exact .modify

/-- A name of a scope with bindings of its own that nothing obstructs is set, or there is a type error. -/
theorem setName_declarative (orderly : s.Orderly) (inside : ctx.vars.index < s.scopes.size) (own : ctx.vars ≠ .global)
    (record : (s.scope ctx.vars).record = .declarative bindings)
    (initialized : ∀ name b, bindings.get? name = some b → b.mutable = true → b.initialized = true)
    (free : ∀ r, ¬s.Obstructs kind ctx name r) (v : Value) :
    (∃ t b, t.Orderly ∧ s.Fills t ctx.vars (bindings.insert name b) ∧ b.value = v ∧ b.mutable = true ∧
      b.initialized = true ∧ ∀ E c, (setName E kind ctx name v).Does c s () t) ∨
    ∀ E c, (setName E kind ctx name v).RaisesTypeError c s := by
  obtain ⟨t, bound, b, orderly', fills, found, same, origin, room⟩ :=
    makeRoom_declarative orderly inside own record kind name
  cases settable : b.mutable with
  | true =>
    have inside' : ctx.vars.index < t.scopes.size := fills.scopes ▸ inside
    have later : t.Fills (t.withBindings ctx.vars (bound.insert name { b with value := v })) ctx.vars
      (bound.insert name { b with value := v }) := .withBindings inside'
    have whole := fills.trans later
    rw [same] at whole
    have valued : b.initialized = true := by
      rcases origin with there | rfl
      · exact initialized name b there settable
      · rfl
    refine .inl ⟨_, _, orderly'.withBindings inside' fills.record ?_, whole, rfl, settable, valued, fun E c =>
      .bind (room E c) ?_⟩
    · intro other b' there aliasable
      rw [← same, NameMap.get?_insert]
      split
      next here =>
        cases (here ▸ there).symm.trans found
        exact ⟨_, rfl, aliasable.mutable, aliasable.fixed, aliasable.initialized⟩
      · exact ⟨b', there, aliasable⟩
    · rw [← same]
      exact setMutable_declarative fills.record found settable E c v ctx.strict
  | false =>
    have there : bindings.get? name = some b := by
      rcases origin with there | rfl
      · exact there
      · cases settable
    cases strict : ctx.strict with
    | false => exact absurd (.constant record there settable strict) (free none)
    | true =>
      have fails (E : Engine) (c : Config) :
          (ctx.vars.setMutable E name v ctx.strict).Fails c t (.constantBinding name) := by
        refine .read_bind ?_
        rw [fills.record]
        dsimp only [ScopeRef.setDeclarative]
        rw [found]
        dsimp only
        rw [settable, strict]
        exact .fail
      exact .inr fun E c => .after (room E c) ((fails E c).raisesTypeError rfl)

end Declarative

end Ecma
