import Ecma.Proofs.Declaration.Scopes

/-!
# Functions that code declares

The functions that a body declares are bound before it runs, in the scope that has its variables, the later of two with
one name in the place of the earlier. Each of them gets its name, or there is a type error, except where
`Store.Obstructs` says otherwise: there the function is dropped or goes to a setter.
-/

namespace Ecma

section Functions

variable {s : Store} {kind : CodeKind} {ctx : Context} {name : String}

/-- A name that nothing obstructs is set to a value, or there is a type error. -/
theorem setName_decides (orderly : s.Orderly) (takes : s.TakesDeclarations ctx.vars)
    (free : ∀ r, ¬s.Obstructs kind ctx name r) (v : Value) :
    (∃ t, s.SetsNames t ctx.vars [name] ∧ t.BoundTo ctx.vars name v ∧
      ∀ E c, (setName E kind ctx name v).Does c s () t) ∨
    ∀ E c, (setName E kind ctx name v).RaisesTypeError c s := by
  cases takes with
  | @declarative bindings inside own record initialized =>
    rcases setName_declarative orderly inside own record initialized free v with
      ⟨t, b, orderly', fills, value, settable, valued, does⟩ | raises
    · refine .inl ⟨t, ⟨orderly', ?_, fun key absent => ?_, ?_, fun x inside _ => fills.objects x inside,
        fills.size⟩, ?_, does⟩
      · refine .declarative (fills.scopes ▸ inside) own fills.record fun key b' found => ?_
        rw [NameMap.get?_insert] at found
        split at found
        · cases found
          exact fun _ => valued
        · exact initialized key b' found
      · refine .declarative record fills.record ?_
        rw [NameMap.get?_insert, if_neg (mt List.mem_singleton.2 absent)]
      · rw [record, fills.record]
        rfl
      · exact .binding fills.record (by rw [NameMap.get?_insert, if_pos rfl]) value settable valued
    · exact .inr raises
  | @object o provideThis record plain global =>
    rcases setName_object orderly plain record global free v with ⟨t, touches, ⟨_, _, own⟩, does⟩ | raises
    · have record' : (t.scope ctx.vars).record = .object o provideThis := by
        rw [Store.scope, touches.scopes, ← Store.scope, record]
      refine .inl ⟨t, ⟨touches.orderly, .object record' touches.plain global, fun key absent => ?_, ?_,
        fun x _ other => ?_, Nat.le_of_eq touches.size.symm⟩, .property record' own, does⟩
      · exact .object record record' (touches.names key (mt List.mem_singleton.2 absent))
      · rw [record, record']
      · refine touches.others x ?_
        rintro rfl
        rw [record] at other
        exact other rfl
    · exact .inr raises

/-- A declared function is bound under a name that nothing obstructs, or there is a type error. -/
theorem bindFunction_decides (orderly : s.Orderly) (takes : s.TakesDeclarations ctx.vars)
    (free : ∀ r, ¬s.Obstructs kind ctx name r) (code : FunctionCode) :
    (∃ t, s.SetsNames t ctx.vars [name] ∧ t.BoundTo ctx.vars name (.object s.nextObject) ∧
      t.IsClosure s.nextObject code ctx.vars ctx.strict ∧ ∀ E c, (bindFunction E kind ctx code name).Does c s () t) ∨
    ∀ E c, (bindFunction E kind ctx code name).RaisesTypeError c s := by
  have made (c : Config) : (Action.newFunction code ctx.vars ctx.strict).Does c s s.nextObject
    (s.addFunction code ctx.vars (ctx.strict || code.strict)) := ⟨rfl, rfl⟩
  have grown := takes.addFunction orderly code (ctx.strict || code.strict)
  have free' (r : Option ObjectRef) :
      ¬(s.addFunction code ctx.vars (ctx.strict || code.strict)).Obstructs kind ctx name r :=
    fun obstructs => free r ((grown.same name List.not_mem_nil).obstructs obstructs)
  have closure := s.isClosure_addFunction code ctx.vars ctx.strict
  rcases setName_decides grown.orderly grown.takes free' (.object s.nextObject) with ⟨t, sets, bound, does⟩ | raises
  · refine .inl ⟨t, grown.trans sets, bound, sets.isClosure closure takes.keeper_inside, fun E c => ?_⟩
    rw [bindFunction_eq]
    exact .bind (made c) (does E c)
  · refine .inr fun E c => ?_
    rw [bindFunction_eq]
    exact .after (made c) (raises E c)

/-- A value that is obstructed, but by no setter, is dropped. -/
theorem setName_dropped (takes : s.TakesDeclarations ctx.vars) (orderly : s.Orderly)
    (obstructs : s.Obstructs kind ctx name none) (v : Value) (E : Engine) (c : Config) :
    (setName E kind ctx name v).Does c s () s := by
  cases obstructs with
  | constant record found fixed lenient =>
    cases takes with
    | object record' => cases record.symm.trans record'
    | declarative _ own =>
      have room : (makeRoom E kind ctx name).Does c s () s := by
        refine .read_bind ?_
        rw [hasBinding_of_record record, NameMap.contains, found, Option.isSome_some, if_pos rfl,
          if_neg fun both => own both.2]
        exact .pure
      refine .bind room (.read_bind ?_)
      rw [record, lenient]
      dsimp only [ScopeRef.setDeclarative]
      rw [found]
      dsimp only
      rw [fixed]
      exact .pure
  | unwritable record found assigned no lenient =>
    cases takes with
    | declarative _ _ record' => cases record.symm.trans record'
    | object record' _ global =>
      cases record.symm.trans record'
      refine .bind ((makeRoom_assigned orderly record global found assigned E c).does .pure) (.read_bind ?_)
      rw [record, lenient]
      exact (ObjectRef.put_of_not_canPut no E v c).1

/-- A value that a setter is in the way of goes to that setter. -/
theorem setName_setter {f o : ObjectRef} (takes : s.TakesDeclarations ctx.vars) (orderly : s.Orderly)
    (obstructs : s.Obstructs kind ctx name (some f)) (keeper : (s.scope ctx.vars).record.object? = some o) (v : Value)
    (E : Engine) (c : Config) :
    (setName E kind ctx name v).ActsAs (do let _ ← E.call (.object f) (.object o) [v]) c s := by
  cases obstructs with
  | setter record found assigned can setter =>
    cases takes with
    | declarative _ _ record' => cases record.symm.trans record'
    | object record' _ global =>
      cases record.symm.trans record'
      rw [record] at keeper
      cases keeper
      have calls : (ctx.vars.setMutable E name v ctx.strict).ActsAs
          (do let _ ← E.call (.object f) (.object o) [v]) c s := by
        refine .read_bind ?_
        rw [record]
        exact ObjectRef.put_of_setter can found setter
          (Store.not_own_data_of_setter found (orderly.complete found) setter) E v ctx.strict c
      have whole : (setName E kind ctx name v).ActsAs
          (pure () >>= fun _ => do let _ ← E.call (.object f) (.object o) [v]) c s := by
        refine (makeRoom_assigned orderly record global found assigned E c).bind fun _ t run => ?_
        cases run
        exact calls
      rwa [pure_bind] at whole

/-- A declared function that is obstructed is made all the same. It is dropped where no setter is in the way. -/
theorem bindFunction_dropped (takes : s.TakesDeclarations ctx.vars) (orderly : s.Orderly)
    (obstructs : s.Obstructs kind ctx name none) (code : FunctionCode) (E : Engine) (c : Config) :
    (bindFunction E kind ctx code name).Does c s () (s.addFunction code ctx.vars (ctx.strict || code.strict)) := by
  have grown := takes.addFunction orderly code (ctx.strict || code.strict)
  have still := (grown.same name List.not_mem_nil).symm.obstructs obstructs
  have made : (Action.newFunction code ctx.vars ctx.strict).Does c s s.nextObject _ := ⟨rfl, rfl⟩
  rw [bindFunction_eq]
  exact made.bind (setName_dropped grown.takes grown.orderly still _ E c)

/-- A declared function goes to the setter that is in the way. -/
theorem bindFunction_setter {f o : ObjectRef} (takes : s.TakesDeclarations ctx.vars) (orderly : s.Orderly)
    (obstructs : s.Obstructs kind ctx name (some f)) (keeper : (s.scope ctx.vars).record.object? = some o)
    (code : FunctionCode) (E : Engine) (c : Config) :
    (bindFunction E kind ctx code name).ActsAs (do
      let g ← .newFunction code ctx.vars ctx.strict
      let _ ← E.call (.object f) (.object o) [.object g]) c s := by
  have grown := takes.addFunction orderly code (ctx.strict || code.strict)
  have still := (grown.same name List.not_mem_nil).symm.obstructs obstructs
  rw [bindFunction_eq]
  refine .bind (.refl ..) fun g t run => ?_
  cases run
  exact setName_setter grown.takes grown.orderly still (grown.keeper.trans keeper) _ E c

end Functions

/-- What is left when functions were declared in order, none of which went to a setter. The last one of a name has it,
but a name that was obstructed is as it was. -/
structure Store.Declares (s t : Store) (kind : CodeKind) (ctx : Context) (codes : List FunctionCode) : Prop
    extends s.SetsNames t ctx.vars (codes.filterMap (·.name)) where
  dropped : ∀ name, s.Obstructs kind ctx name none → s.SameBinding t ctx.vars name
  bound : ∀ i code name, codes[i]? = some code → LastAt (codes.map (·.name)) i (some name) →
    ¬s.Obstructs kind ctx name none → ∃ f : ObjectRef, s.objects.size ≤ f.index ∧
      t.IsClosure f code ctx.vars ctx.strict ∧ t.BoundTo ctx.vars name (.object f)

namespace Store.Declares

variable {s t u : Store} {kind : CodeKind} {ctx : Context} {code : FunctionCode} {codes : List FunctionCode}
  {name : String}

theorem nil (orderly : s.Orderly) (takes : s.TakesDeclarations ctx.vars) : s.Declares s kind ctx [] where
  toSetsNames := .refl orderly takes
  dropped name _ := (SetsNames.refl orderly takes).same name List.not_mem_nil
  bound _ _ _ found := by simp at found

/-- A function without a name is passed over. -/
theorem unnamed (named : code.name = none) (rest : s.Declares t kind ctx codes) :
    s.Declares t kind ctx (code :: codes) where
  toSetsNames := by simpa [named] using rest.toSetsNames
  dropped := rest.dropped
  bound i code' name found last free := by
    cases i with
    | zero =>
      obtain ⟨same, _⟩ := LastAt.zero_iff.1 last
      cases named.symm.trans same
    | succ i => exact rest.bound i code' name found (LastAt.succ_iff.1 last) free

/-- A function that is dropped leaves all names as they were. -/
theorem drop (named : code.name = some name) (obstructed : s.Obstructs kind ctx name none)
    (first : s.SetsNames u ctx.vars []) (rest : u.Declares t kind ctx codes) :
    s.Declares t kind ctx (code :: codes) where
  toSetsNames := by
    refine (first.trans rest.toSetsNames).mono fun key mem => ?_
    rw [List.filterMap_cons_some named]
    exact List.mem_cons_of_mem _ mem
  dropped name' obstructed' :=
    have same := first.same name' List.not_mem_nil
    same.trans (rest.dropped name' (same.symm.obstructs obstructed'))
  bound i code' name' found last free := by
    cases i with
    | zero =>
      obtain ⟨same, _⟩ := LastAt.zero_iff.1 last
      cases named.symm.trans same
      exact absurd obstructed free
    | succ i =>
      have free' : ¬u.Obstructs kind ctx name' none := fun obstructs =>
        free ((first.same name' List.not_mem_nil).obstructs obstructs)
      obtain ⟨f, new, closure, bound⟩ := rest.bound i code' name' found (LastAt.succ_iff.1 last) free'
      exact ⟨f, Nat.le_trans first.size new, closure, bound⟩

/-- A function that is bound keeps its name, unless a later one takes it. -/
theorem cons {f : ObjectRef} (named : code.name = some name) (free : ¬s.Obstructs kind ctx name none)
    (takes : s.TakesDeclarations ctx.vars) (first : s.SetsNames u ctx.vars [name]) (new : s.objects.size ≤ f.index)
    (closure : u.IsClosure f code ctx.vars ctx.strict) (bound : u.BoundTo ctx.vars name (.object f))
    (rest : u.Declares t kind ctx codes) : s.Declares t kind ctx (code :: codes) where
  toSetsNames := by simpa [named] using first.trans rest.toSetsNames
  dropped name' obstructed := by
    have other : name' ∉ [name] := by
      rw [List.mem_singleton]
      rintro rfl
      exact free obstructed
    have same := first.same name' other
    exact same.trans (rest.dropped name' (same.symm.obstructs obstructed))
  bound i code' name' found last free' := by
    cases i with
    | zero =>
      cases found
      obtain ⟨same, absent⟩ := LastAt.zero_iff.1 last
      cases named.symm.trans same
      have unnamed : name ∉ codes.filterMap (·.name) := by
        intro mem
        obtain ⟨other, there, called⟩ := List.mem_filterMap.1 mem
        exact absent (List.mem_map.2 ⟨other, there, called⟩)
      refine ⟨f, new, rest.isClosure closure fun o keeper => ?_, (rest.same name unnamed).boundTo bound⟩
      exact Nat.lt_of_lt_of_le (takes.keeper_inside o (first.keeper ▸ keeper)) new
    | succ i =>
      have still : ¬u.Obstructs kind ctx name' none := by
        by_cases same : name' = name
        · rw [same]
          exact bound.not_obstructs kind none
        · exact fun obstructs => free' ((first.same name' (mt List.mem_singleton.1 same)).obstructs obstructs)
      obtain ⟨g, new', closure', bound'⟩ := rest.bound i code' name' found (LastAt.succ_iff.1 last) still
      exact ⟨g, Nat.le_trans first.size new', closure', bound'⟩

end Store.Declares

section Bodies

variable {s : Store} {kind : CodeKind} {ctx : Context}

/-- Functions none of which goes to a setter are declared in order, or there is a type error. -/
theorem bindFunctionList_decides (codes : List FunctionCode) (orderly : s.Orderly)
    (takes : s.TakesDeclarations ctx.vars)
    (unset : ∀ code ∈ codes, ∀ name, code.name = some name → ∀ f, ¬s.Obstructs kind ctx name (some f)) :
    (∃ t, s.Declares t kind ctx codes ∧ ∀ E c, (bindFunctionList E kind ctx codes).Does c s () t) ∨
    ∀ E c, (bindFunctionList E kind ctx codes).RaisesTypeError c s := by
  induction codes generalizing s with
  | nil => exact .inl ⟨s, .nil orderly takes, fun _ _ => .pure⟩
  | cons code codes ih =>
    have later (code' : FunctionCode) (mem : code' ∈ codes) := unset code' (List.mem_cons_of_mem _ mem)
    cases named : code.name with
    | none =>
      rcases ih orderly takes later with ⟨t, declares, does⟩ | raises
      · refine .inl ⟨t, .unnamed named declares, fun E c => ?_⟩
        rw [bindFunctionList, named]
        exact does E c
      · refine .inr fun E c => ?_
        rw [bindFunctionList, named]
        exact raises E c
    | some name =>
      -- What follows is the same for a function that is dropped and for one that is bound.
      have onward {u : Store} (orderly' : u.Orderly) (takes' : u.TakesDeclarations ctx.vars)
          (unset' : ∀ name' f, u.Obstructs kind ctx name' (some f) → s.Obstructs kind ctx name' (some f))
          (does : ∀ E c, (bindFunction E kind ctx code name).Does c s () u)
          (declares : ∀ t, u.Declares t kind ctx codes → s.Declares t kind ctx (code :: codes)) :
          (∃ t, s.Declares t kind ctx (code :: codes) ∧
            ∀ E c, (bindFunctionList E kind ctx (code :: codes)).Does c s () t) ∨
          ∀ E c, (bindFunctionList E kind ctx (code :: codes)).RaisesTypeError c s := by
        rcases ih orderly' takes' fun code' mem name' named' f obstructs =>
          later code' mem name' named' f (unset' name' f obstructs) with ⟨t, rest, runs⟩ | raises
        · refine .inl ⟨t, declares t rest, fun E c => ?_⟩
          rw [bindFunctionList, named]
          exact .bind (does E c) (runs E c)
        · refine .inr fun E c => ?_
          rw [bindFunctionList, named]
          exact .after (does E c) (raises E c)
      by_cases obstructed : s.Obstructs kind ctx name none
      · have first := takes.addFunction orderly code (ctx.strict || code.strict)
        exact onward first.orderly first.takes (fun name' f => (first.same name' List.not_mem_nil).obstructs)
          (bindFunction_dropped takes orderly obstructed code) fun t => .drop named obstructed first
      · have free (r : Option ObjectRef) : ¬s.Obstructs kind ctx name r := by
          cases r with
          | none => exact obstructed
          | some f => exact unset code List.mem_cons_self name named f
        rcases bindFunction_decides orderly takes free code with ⟨u, first, bound, closure, does⟩ | raises
        · refine onward first.orderly first.takes (fun name' f obstructs => ?_) does fun t =>
            .cons named obstructed takes first (Nat.le_refl _) closure bound
          by_cases same : name' = name
          · rw [same] at obstructs
            exact absurd obstructs (bound.not_obstructs kind _)
          · exact (first.same name' (mt List.mem_singleton.1 same)).obstructs obstructs
        · refine .inr fun E c => ?_
          rw [bindFunctionList, named]
          exact (raises E c).before _

/-- Nothing obstructs what global code declares, if it is strict or new properties can be added to the global object. -/
theorem Store.not_obstructs_global (orderly : s.Orderly) (takes : s.TakesDeclarations ctx.vars)
    (here : ctx.vars = .global)
    (possible : ctx.strict = true ∨ (s.object Intrinsic.global.ref).extensible = true) (name : String)
    (r : Option ObjectRef) : ¬s.Obstructs .global ctx name r := by
  intro obstructs
  cases takes with
  | declarative _ own => exact own here
  | object record _ global =>
    cases global here
    cases obstructs with
    | constant record' => cases record.symm.trans record'
    | @unwritable _ _ p record' found assigned no lenient =>
      cases record.symm.trans record'
      obtain ⟨_, data, writable, _⟩ := Classical.not_not.1 fun other => assigned ⟨rfl, here, other⟩
      have extensible := possible.resolve_left (by simp [lenient])
      have plain : p.isAccessor = false := by simpa [data] using (orderly.complete found).isData_eq
      unfold canPut at no
      cases own : s.getOwn? Intrinsic.global.ref name with
      | some q =>
        cases (getProperty?_of_own own).symm.trans found
        simp [own, plain, writable] at no
      | none =>
        rw [getProperty?_of_inherited orderly.ends own] at found
        simp [own, found, plain, writable, extensible] at no
    | @setter _ _ p _ record' found assigned _ setter =>
      cases record.symm.trans record'
      obtain ⟨_, data, _⟩ := Classical.not_not.1 fun other => assigned ⟨rfl, here, other⟩
      cases orderly.complete found with
      | data => cases setter
      | accessor => cases data

/-- Nothing obstructs what is declared in a scope with bindings of its own, if the code is strict or all can be set. -/
theorem Store.not_obstructs_declarative {bindings : NameMap Binding}
    (record : (s.scope ctx.vars).record = .declarative bindings)
    (possible : ctx.strict = true ∨ ∀ name b, bindings.get? name = some b → b.mutable = true) (name : String)
    (r : Option ObjectRef) : ¬s.Obstructs kind ctx name r := by
  intro obstructs
  cases obstructs with
  | constant record' found fixed lenient =>
    cases record.symm.trans record'
    rcases possible with strict | settable
    · cases strict.symm.trans lenient
    · cases (settable name _ found).symm.trans fixed
  | unwritable record' => cases record.symm.trans record'
  | setter record' => cases record.symm.trans record'

theorem runningContext_does (running : s.context? = some ctx) (c : Config) : Action.runningContext.Does c s ctx s := by
  refine ⟨runningContext_run c running rfl, ?_⟩
  simp only [Action.runningContext, Action.once, running]
  rfl

/-- What becomes of the functions that a body declares. Unless one is to go to a setter, there is a type error, or the
last function of each name is what code finds under that name, with the exception of names that are obstructed, which
are left as they were. A function that goes to a setter goes there by one call. Nothing is obstructed where bindings can
be set, nor in global code that is strict or can add properties to the global object. -/
theorem declared_functions_bound (orderly : s.Orderly) (running : s.context? = some ctx)
    (takes : s.TakesDeclarations ctx.vars) (kind : CodeKind) (body : List Stmt) :
    ((∀ code ∈ functionDeclarations body, ∀ name, code.name = some name → ∀ f, ¬s.Obstructs kind ctx name (some f)) →
      (∃ t, (∀ E c, (bindFunctions E kind body).Does c s () t) ∧
        (∀ name, s.Obstructs kind ctx name none → s.SameBinding t ctx.vars name) ∧
        ∀ i code name, (functionDeclarations body)[i]? = some code →
          LastAt ((functionDeclarations body).map (·.name)) i (some name) → ¬s.Obstructs kind ctx name none →
            ∃ f : ObjectRef, s.objects.size ≤ f.index ∧ t.IsClosure f code ctx.vars ctx.strict ∧
              ∀ E c strict, (ctx.vars.getBinding E name strict).Does c t (.object f) t) ∨
      ∀ E c, (bindFunctions E kind body).RaisesTypeError c s) ∧
    (∀ code name f, s.Obstructs kind ctx name (some f) → ∃ o, (s.scope ctx.vars).record.object? = some o ∧
      ∀ E c, (bindFunction E kind ctx code name).ActsAs (do
        let g ← .newFunction code ctx.vars ctx.strict
        let _ ← E.call (.object f) (.object o) [.object g]) c s) ∧
    (kind = .global → ctx.vars = .global → ctx.strict = true ∨ (s.object Intrinsic.global.ref).extensible = true →
      ∀ name r, ¬s.Obstructs kind ctx name r) ∧
    ∀ bindings, (s.scope ctx.vars).record = .declarative bindings →
      ctx.strict = true ∨ (∀ name b, bindings.get? name = some b → b.mutable = true) →
        ∀ name r, ¬s.Obstructs kind ctx name r := by
  have context := runningContext_does running
  refine ⟨fun unset => ?_, fun code name f obstructs => ?_, ?_,
    fun bindings record => s.not_obstructs_declarative record⟩
  · rcases bindFunctionList_decides (functionDeclarations body) orderly takes unset with ⟨t, declares, does⟩ | raises
    · refine .inl ⟨t, fun E c => .bind (context c) (does E c), declares.dropped, fun i code name found last free => ?_⟩
      obtain ⟨f, new, closure, bound⟩ := declares.bound i code name found last free
      exact ⟨f, new, closure, bound.getBinding⟩
    · exact .inr fun E c => .after (context c) (raises E c)
  · have keeper : ∃ o, (s.scope ctx.vars).record.object? = some o := by
      cases obstructs with
      | @setter o _ _ _ record => exact ⟨o, by rw [record]; rfl⟩
    obtain ⟨o, keeper⟩ := keeper
    exact ⟨o, keeper, bindFunction_setter takes orderly obstructs keeper code⟩
  · rintro rfl here possible
    exact Store.not_obstructs_global orderly takes here possible

end Bodies

/-- The store of a new machine, with a context of sloppy code that has its variables in the global scope. -/
def Store.inGlobal : Store := initial.pushContext (.global false)

theorem Store.inGlobal_orderly : inGlobal.Orderly :=
  have orderly := closed_initial.orderly wellFormed_initial
  ⟨orderly.intrinsics, orderly.older, fun o => ⟨(orderly.backed o).complete, (orderly.backed o).aliases⟩⟩

theorem Store.inGlobal_takesDeclarations : inGlobal.TakesDeclarations .global := by
  have kind : (inGlobal.object Intrinsic.global.ref).kind = .ordinary := rfl
  refine .object rfl ⟨by decide +kernel, ?_, fun name m mapped => ?_⟩ fun _ => rfl
  · rw [kind]
    nofun
  · cases kind.symm.trans mapped

/-- Eval code that declares a function twice gets the second one. -/
theorem declared_functions_bound_repeated :
    ∃ s ∈ (Machine.new .standard).states [(2, .eval ⟨[.expr .null], false⟩)],
      ∃ t, (bindFunctions (.ofBudget 0) .eval [.function ⟨some "f", [], [], false, false⟩,
          .function ⟨some "f", ["a"], [], false, false⟩]).Does .standard s () t ∧
        ∃ f : ObjectRef, t.IsClosure f ⟨some "f", ["a"], [], false, false⟩ .global false ∧
          (ScopeRef.global.getBinding (.ofBudget 0) "f" false).Does .standard t (.object f) t := by
  have entered : ((Machine.new .standard).states [(2, .eval ⟨[.expr .null], false⟩)]).any (fun s =>
      s.context?.any (fun ctx => decide (ctx.vars = .global) && !ctx.strict) &&
        (s.getProperty? Intrinsic.global.ref "f").isNone &&
          decide (((bindFunctions (.ofBudget 0) .eval [.function ⟨some "f", [], [], false, false⟩,
            .function ⟨some "f", ["a"], [], false, false⟩]).path .standard s).length = 0)) = true := by
    decide +kernel
  obtain ⟨s, mem, entered⟩ := List.any_eq_true.1 entered
  obtain ⟨entered, silent⟩ := Bool.and_eq_true_iff.1 entered
  obtain ⟨entered, absent⟩ := Bool.and_eq_true_iff.1 entered
  obtain ⟨ctx, running, sloppy⟩ := (Option.any_eq_true ..).1 entered
  obtain ⟨here, sloppy⟩ := Bool.and_eq_true_iff.1 sloppy
  have here := of_decide_eq_true here
  rw [Bool.not_eq_true'] at sloppy
  obtain ⟨orderly, takes⟩ := Machine.takesDeclarations mem
  have takes := takes ctx (List.mem_of_head? running)
  have free (r : Option ObjectRef) : ¬s.Obstructs .eval ctx "f" r := by
    intro obstructs
    cases takes with
    | declarative _ own => exact own here
    | object record _ global =>
      cases global here
      cases obstructs with
      | constant record' => cases record.symm.trans record'
      | unwritable record' found =>
        cases record.symm.trans record'
        simp [found] at absent
      | setter record' found =>
        cases record.symm.trans record'
        simp [found] at absent
  have known := declared_functions_bound orderly running takes .eval
    [.function ⟨some "f", [], [], false, false⟩, .function ⟨some "f", ["a"], [], false, false⟩]
  have declared : functionDeclarations [.function ⟨some "f", [], [], false, false⟩,
    .function ⟨some "f", ["a"], [], false, false⟩] =
      [⟨some "f", [], [], false, false⟩, ⟨some "f", ["a"], [], false, false⟩] := rfl
  rw [declared, here, sloppy] at known
  have last : LastAt [some "f", some "f"] 1 (some "f") := LastAt.succ_iff.2 (LastAt.zero_iff.2 ⟨rfl, by simp⟩)
  rcases known.1 (by simp [free]) with ⟨t, does, _, bound⟩ | raises
  · obtain ⟨f, _, closure, gives⟩ := bound 1 _ "f" rfl last (free none)
    exact ⟨s, mem, t, does _ _, f, closure, gives _ _ _⟩
  · obtain ⟨f, _, _, _, path⟩ := raises (.ofBudget 0) .standard
    rw [path] at silent
    cases silent

/-- Eval code that declares a function under the name of a global constant: the function is dropped without a fault. -/
theorem eval_declaration_dropped :
    ∃ t, (∀ E c, (bindFunctions E .eval [.function ⟨some "NaN", [], [], false, false⟩]).Does c Store.inGlobal () t) ∧
      ∀ E c strict, (ScopeRef.global.getBinding E "NaN" strict).Does c t (.number Number.nan) t := by
  have own : Store.inGlobal.getOwn? Intrinsic.global.ref "NaN" = some (.frozen (.number Number.nan)) := by rfl
  have obstructs : Store.inGlobal.Obstructs .eval (.global false) "NaN" none :=
    .unwritable rfl (Store.getProperty?_of_own own) (fun replaces => by cases replaces.1) (by decide +kernel) rfl
  have orderly := Store.inGlobal_orderly
  have takes := Store.inGlobal_takesDeclarations
  have after := (orderly.sameName_addFunction (orderly.intrinsics .global) ⟨some "NaN", [], [], false, false⟩
    .global false "NaN").own.trans own
  refine ⟨_, fun E c => ?_, Store.getBinding_of_own rfl after⟩
  exact .bind (runningContext_does rfl c) (.bind (bindFunction_dropped takes orderly obstructs _ E c) .pure)

end Ecma
