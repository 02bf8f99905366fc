import Ecma.Proofs.Law.Obeys

/-!
# The primitives of actions

Changes of the store, and the two ways of running code elsewhere: in a context of its own, and with another scope to look
names up in. Both put the contexts back as they were, unless the budget ran out under way.
-/

namespace Ecma

namespace Action

variable {α : Type} {c : Config} {s : Store} {ctx : Context}

theorem inContext_run_deep (x : Action α) (deep : c.maxCallDepth ≤ s.depth) :
    (x.inContext ctx) c s = .abrupt (.fault .stackOverflow) s := by
  show Outcome.bind (if s.depth ≥ c.maxCallDepth then _ else _) _ = _
  rw [if_pos deep]
  rfl

theorem inContext_path_deep (x : Action α) (deep : c.maxCallDepth ≤ s.depth) :
    (x.inContext ctx).path c s = [.reached s, .raised .stackOverflow, .reached s] := by
  show (.reached s :: Outcome.raised (if s.depth ≥ c.maxCallDepth then _ else _) ++
    [.reached (Outcome.store (if s.depth ≥ c.maxCallDepth then _ else _))]) ++
      Outcome.pathAfter (if s.depth ≥ c.maxCallDepth then _ else _) _ = _
  rw [if_pos deep]
  rfl

theorem inContext_run (x : Action α) (room : s.depth < c.maxCallDepth) :
    (x.inContext ctx) c s = (x c (s.pushContext ctx)).cleaned Store.popContext := by
  show Outcome.bind (if s.depth ≥ c.maxCallDepth then _ else _) _ = _
  rw [if_neg (Nat.not_le.2 room)]
  rfl

theorem inContext_path (x : Action α) (room : s.depth < c.maxCallDepth) :
    (x.inContext ctx).path c s = .reached s :: .reached (s.pushContext ctx) :: (x.path c (s.pushContext ctx) ++
      [.reached ((x c (s.pushContext ctx)).cleaned Store.popContext).store]) := by
  show (.reached s :: Outcome.raised (if s.depth ≥ c.maxCallDepth then _ else _) ++
    [.reached (Outcome.store (if s.depth ≥ c.maxCallDepth then _ else _))]) ++
      Outcome.pathAfter (if s.depth ≥ c.maxCallDepth then _ else _) _ = _
  rw [if_neg (Nat.not_le.2 room)]
  rfl

theorem inContext_sizes (x : Action α) (room : s.depth < c.maxCallDepth) :
    (x.inContext ctx).sizes c s = x.sizes c (s.pushContext ctx) := by
  show Outcome.pathAfter (if s.depth ≥ c.maxCallDepth then _ else _) _ = _
  rw [if_neg (Nat.not_le.2 room)]
  rfl

theorem inScope_run (x : Action α) (e : ScopeRef) (running : s.context? = some ctx) :
    (x.inScope e) c s = (x c (s.setLexical e)).cleaned (·.setLexical ctx.lexical) := by
  simp only [inScope, enterScope]
  show Outcome.bind (Action.run (watched (once _)) c s) _ = _
  simp only [watched, once, running]
  rfl

theorem inScope_path (x : Action α) (e : ScopeRef) (running : s.context? = some ctx) :
    (x.inScope e).path c s = .reached s :: .reached (s.setLexical e) :: (x.path c (s.setLexical e) ++
      [.reached ((x c (s.setLexical e)).cleaned (·.setLexical ctx.lexical)).store]) := by
  simp only [inScope, enterScope]
  show Action.path (watched (once _)) c s ++ Outcome.pathAfter (Action.run (watched (once _)) c s) _ = _
  simp only [watched, once, running]
  rfl

theorem inScope_sizes (x : Action α) (e : ScopeRef) (running : s.context? = some ctx) :
    (x.inScope e).sizes c s = x.sizes c (s.setLexical e) := by
  simp only [inScope, enterScope]
  show Outcome.pathAfter (Action.run (watched (once _)) c s) _ = _
  simp only [watched, once, running]
  rfl

theorem inScope_run_idle (x : Action α) (e : ScopeRef) (idle : s.context? = none) :
    (x.inScope e) c s = .abrupt (.fault .noContext) s := by
  simp only [inScope, enterScope]
  show Outcome.bind (Action.run (watched (once _)) c s) _ = _
  simp only [watched, once, idle]
  rfl

theorem inScope_path_idle (x : Action α) (e : ScopeRef) (idle : s.context? = none) :
    (x.inScope e).path c s = [.reached s, .raised .noContext, .reached s] := by
  simp only [inScope, enterScope]
  show Action.path (watched (once _)) c s ++ Outcome.pathAfter (Action.run (watched (once _)) c s) _ = _
  simp only [watched, once, idle]
  rfl

end Action

theorem Store.generators_setLexical (s : Store) (e : ScopeRef) : (s.setLexical e).generators = s.generators := by
  unfold setLexical
  split <;> rfl

namespace Law

variable {L : Law} {w : L.World}

theorem right_depth : (L.right w).depth = (L.left w).depth := by rw [L.agree]; rfl

theorem right_context? : (L.right w).context? = (L.left w).context? := by rw [L.agree]; rfl

theorem right_nextObject : (L.right w).nextObject = (L.left w).nextObject := by rw [L.agree]; rfl

theorem right_scopes : (L.right w).scopes = (L.left w).scopes := by rw [L.agree]; rfl

theorem right_contexts : (L.right w).contexts = (L.left w).contexts := by rw [L.agree]; rfl

/-- The scope that names are looked up in is one for the code that is running. -/
theorem scope_lexical {strict : Bool} (h : L.mode w strict) :
    L.scope w (L.left w).lexicalScope strict := by
  unfold Store.lexicalScope
  cases running : (L.left w).context? with
  | none => exact L.global w strict
  | some ctx =>
    rw [h ctx running]
    exact (L.contexts (List.mem_of_head? running)).1

theorem value_this : L.value w (L.left w).thisBinding := by
  unfold Store.thisBinding
  cases running : (L.left w).context? with
  | none => exact L.intrinsic w .global
  | some ctx => exact (L.contexts (List.mem_of_head? running)).2.2.1

/-- The scope that names are looked up in lies in the one where the running code has its variables. -/
theorem within_lexical {ctx : Context} (running : (L.left w).context? = some ctx) :
    L.within w (L.left w).lexicalScope ctx.vars := by
  rw [Store.lexicalScope, running]
  exact (L.contexts (List.mem_of_head? running)).2.2.2.1

namespace Obeys

variable {α β : Type} {c : Config}

/-- A change of the store that leaves the contexts and the generators alone. -/
theorem modify {F : Store → Store} (h : Change L.toTerms w F) (contexts : (F (L.left w)).contexts = (L.left w).contexts)
    (generators : (F (L.left w)).generators = (L.left w).generators) :
    L.Obeys c w (Action.modify F) (Action.modify F) fun u _ => L.left u = F (L.left w) := by
  obtain ⟨u, left, right, le⟩ := L.change h
  have onward : L.Onward w u := .of_generators le (left ▸ generators)
  exact fun _ => ⟨u, .done onward, .value_of (onward.reached (left ▸ contexts)) left left right⟩

/-- An object that leads to another world when it is added. -/
theorem alloc_of {obj : Object} {u : L.World} (left : L.left u = (L.left w).addObject obj)
    (right : L.right u = (L.right w).addObject obj) (le : L.le w u) :
    L.Obeys c w (Action.alloc obj) (Action.alloc obj) fun u o =>
      L.object u o ∧ L.left u = (L.left w).addObject obj := by
  have onward : L.Onward w u := .of_generators le (by rw [left]; rfl)
  refine fun _ => ⟨u, .done onward, ?_⟩
  show L.Ends _ w _ u (.value (L.left w).nextObject _) (.value (L.right w).nextObject _)
  rw [right_nextObject]
  refine .value_of (onward.reached (by rw [left]; rfl)) ⟨L.present ?_, left⟩ left right
  simp [left, Store.addObject, Store.nextObject]

/-- What a new object is, besides being there. -/
theorem alloc_exact {obj : Object} (h : Makes L.toTerms w obj) :
    L.Obeys c w (Action.alloc obj) (Action.alloc obj) fun u o =>
      L.object u o ∧ L.left u = (L.left w).addObject obj := by
  obtain ⟨u, left, right, le⟩ := L.change (.addObject h)
  exact alloc_of left right le

theorem alloc {obj : Object} (h : Makes L.toTerms w obj) :
    L.Obeys c w (Action.alloc obj) (Action.alloc obj) L.object :=
  (alloc_exact h).mono fun _ _ _ post => post.1

theorem newFunction_exact {code : FunctionCode} {e : ScopeRef} {strict : Bool} (h : L.scope w e strict) :
    L.Obeys c w (Action.newFunction code e strict) (Action.newFunction code e strict) fun u f =>
      L.object u f ∧ L.left u = (L.left w).addFunction code e (strict || code.strict) := by
  have known : L.scope w e (strict || code.strict) := by
    cases code.strict with
    | false => rwa [Bool.or_false]
    | true => rw [Bool.or_true]; exact L.strict_scope h
  obtain ⟨u, left, right, le⟩ := L.change (.addFunction known)
  have onward : L.Onward w u := .of_generators le (by rw [left]; rfl)
  refine fun _ => ⟨u, .done onward, ?_⟩
  show L.Ends _ w _ u (.value (L.left w).nextObject _) (.value (L.right w).nextObject _)
  rw [right_nextObject]
  refine .value_of (onward.reached (by rw [left]; rfl)) ⟨L.present ?_, left⟩ left right
  simp only [left, Store.addFunction, Store.addObject, Store.nextObject, Array.size_push]
  omega

theorem newFunction {code : FunctionCode} {e : ScopeRef} {strict : Bool} (h : L.scope w e strict) :
    L.Obeys c w (Action.newFunction code e strict) (Action.newFunction code e strict) L.object :=
  (newFunction_exact h).mono fun _ _ _ post => post.1

/-- A scope that leads to another world when it is added. -/
theorem allocScope_of {scope : Scope} {u : L.World} {Q : L.World → ScopeRef → Prop}
    (left : L.left u = (L.left w).addScope scope) (right : L.right u = (L.right w).addScope scope) (le : L.le w u)
    (post : Q u ⟨(L.left w).scopes.size⟩) : L.Obeys c w (Action.allocScope scope) (Action.allocScope scope) Q := by
  have onward : L.Onward w u := .of_generators le (by rw [left]; rfl)
  refine fun _ => ⟨u, .done onward, ?_⟩
  show L.Ends _ w _ u (.value (ScopeRef.mk (L.left w).scopes.size) _)
    (.value (ScopeRef.mk (L.right w).scopes.size) _)
  rw [right_scopes]
  exact .value_of (onward.reached (by rw [left]; rfl)) post left right

/-- Strict code may declare names that can be deleted in a scope of its own, since it can delete none. -/
theorem allocScope {scope : Scope} {strict : Bool} (h : Encloses L.toTerms w strict scope) :
    L.Obeys c w (Action.allocScope scope) (Action.allocScope scope) fun u e =>
      L.scope u e strict ∧ L.declares u e strict ∧ (L.left u).scope e = scope ∧
        ∀ outer d, scope.outer = some outer → L.within w outer d → L.within u e d := by
  obtain ⟨u, left, right, le, known, declares, within⟩ := L.enclose h
  refine allocScope_of left right le ⟨known, declares, ?_, within⟩
  simp [left, Store.addScope, Store.scope]

theorem declarativeScope {e : ScopeRef} {strict : Bool} (h : L.scope w e strict) :
    L.Obeys c w (Action.declarativeScope (some e)) (Action.declarativeScope (some e)) fun u d =>
      L.scope u d strict ∧ ((L.left u).scope d).record = .declarative .empty ∧
        ∀ outer, L.within w e outer → L.within u d outer :=
  (allocScope (.declarative h)).mono fun _ _ _ post =>
    ⟨post.1, by rw [post.2.2.1], fun outer => post.2.2.2 e outer rfl⟩

theorem evalScope {e : ScopeRef} {strict : Bool} (h : L.scope w e strict) :
    L.Obeys c w (Action.declarativeScope (some e)) (Action.declarativeScope (some e)) fun u d =>
      L.scope u d strict ∧ L.declares u d strict ∧ L.declarative u d :=
  (allocScope (.declarative h)).mono fun _ _ _ post =>
    ⟨post.1, post.2.1, L.declarative_of post.1 (by rw [post.2.2.1])⟩

theorem objectScope {e : ScopeRef} {o : ObjectRef} {provideThis strict : Bool} (known : L.object w o)
    (h : L.scope w e strict) :
    L.Obeys c w (Action.objectScope o provideThis (some e)) (Action.objectScope o provideThis (some e)) fun u d =>
      L.scope u d strict ∧ ∀ outer, L.within w e outer → L.within u d outer :=
  (allocScope (.object provideThis known h)).mono fun _ _ _ post => ⟨post.1, fun outer => post.2.2.2 e outer rfl⟩

theorem allocGenerator {gen : Generator} (h : L.generator w gen) (fresh : gen.status = .suspendedStart) :
    L.Obeys c w (Action.allocGenerator gen) (Action.allocGenerator gen) L.any := by
  obtain ⟨u, left, right, le⟩ := L.change (.addGenerator h)
  have onward : L.Onward w u := ⟨le, left ▸ .addGenerator fresh⟩
  refine fun _ => ⟨u, .done onward, ?_⟩
  show L.Ends _ w _ u (.value (GeneratorRef.mk (L.left w).generators.size) _)
    (.value (GeneratorRef.mk (L.right w).generators.size) _)
  rw [L.agree_size]
  exact .value_of (onward.reached (by rw [left]; rfl)) trivial left right

theorem isStrict_bind {f g : Bool → Action β} {R : L.World → β → Prop}
    (h : ∀ strict, L.mode w strict → L.Obeys c w (f strict) (g strict) R) :
    L.Obeys c w (Action.isStrict >>= f) (Action.isStrict >>= g) R := by
  have known := h (((L.left w).context?.map (·.strict)).getD c.strictGlobal) fun ctx running => by rw [running]; rfl
  intro allowed
  obtain ⟨u, trail, ends⟩ := known allowed
  refine ⟨u, trail, ?_⟩
  rw [← right_context?] at ends
  show L.Ends _ w R u (f _ c (L.left w)) (g (((L.right w).context?.map (·.strict)).getD c.strictGlobal) c (L.right w))
  rw [← right_context?]
  exact ends

theorem runningContext_bind {f g : Context → Action β} {R : L.World → β → Prop} (running : L.running w)
    (h : ∀ ctx rest, (L.left w).contexts = ctx :: rest → L.Obeys c w (f ctx) (g ctx) R) :
    L.Obeys c w (Action.runningContext >>= f) (Action.runningContext >>= g) R := by
  cases found : (L.left w).contexts with
  | nil =>
    have permitted := L.no_context running found
    have left : Action.runningContext c (L.left w) = .abrupt (.fault .noContext) (L.left w) := by
      simp [Action.runningContext, Action.once, Store.context?, found]
    have right : Action.runningContext c (L.right w) = .abrupt (.fault .noContext) (L.right w) := by
      simp [Action.runningContext, Action.once, Store.context?, right_contexts, found]
    refine fun _ => ⟨w, ?_, ?_⟩
    · show L.Trail _ w (Outcome.raised (Action.runningContext c (L.left w)) ++
        (Action.runningContext c (L.left w)).pathAfter _) w
      rw [left]
      exact .raised permitted (.done (.refl w))
    · show L.Ends _ w R w ((Action.runningContext c (L.left w)).bind _) ((Action.runningContext c (L.right w)).bind _)
      rw [left, right]
      exact .abrupt (.refl w) permitted
  | cons ctx rest =>
    have left : Action.runningContext c (L.left w) = .value ctx (L.left w) := by
      simp [Action.runningContext, Action.once, Store.context?, found]
    have right : Action.runningContext c (L.right w) = .value ctx (L.right w) := by
      simp [Action.runningContext, Action.once, Store.context?, right_contexts, found]
    intro allowed
    have next : L.Allows ((Action.runningContext c (L.left w)).pathAfter fun ctx s => (f ctx).sizes c s) := allowed
    rw [left] at next
    obtain ⟨u, trail, ends⟩ := h ctx rest found next
    refine ⟨u, ?_, ?_⟩
    · show L.Trail _ w (Outcome.raised (Action.runningContext c (L.left w)) ++
        (Action.runningContext c (L.left w)).pathAfter _) u
      rw [left]
      exact trail
    · show L.Ends _ w R u ((Action.runningContext c (L.left w)).bind _) ((Action.runningContext c (L.right w)).bind _)
      rw [left, right]
      exact ends

/-- Code that runs on a changed store, which is changed back after it. -/
theorem excursion {F G : Store → Store} {x y : Action α} {Q : L.World → α → Prop} {v : L.World}
    (left : L.left v = F (L.left w)) (right : L.right v = F (L.right w)) (out : L.Onward w v)
    (inner : L.limit c v = L.limit c w) (lasts : L.Lasts Q) (hx : L.Obeys c v x y Q)
    (back : ∀ u, L.Reached v u → ∃ t, L.left t = G (L.left u) ∧ L.right t = G (L.right u) ∧ L.Onward u t ∧
      (L.left t).contexts = (L.left w).contexts) :
    L.Allows (x.sizes c (F (L.left w))) → ∃ t, L.Trail (L.limit c w) w (.reached (L.left w) :: .reached (F (L.left w)) ::
        (x.path c (F (L.left w)) ++ [.reached ((x c (F (L.left w))).cleaned G).store])) t ∧
      L.Ends (L.limit c w) w Q t ((x c (F (L.left w))).cleaned G) ((y c (F (L.right w))).cleaned G) := by
  intro allowed
  obtain ⟨u, trail, ends⟩ := hx (left ▸ allowed)
  rw [inner, left] at trail
  rw [inner, left, right] at ends
  have start (last : List Moment) (t : L.World) (rest : L.Trail (L.limit c w) u last t) :
      L.Trail (L.limit c w) w (.reached (L.left w) :: .reached (F (L.left w)) :: (x.path c (F (L.left w)) ++ last)) t := by
    refine .reached (.refl w) (depth_le_limit c w) ?_
    rw [← left] at trail ⊢
    exact .reached out (inner ▸ depth_le_limit c v) (trail.append rest)
  have home (reached : L.Reached v u) : ∃ t, L.left t = G (L.left u) ∧ L.right t = G (L.right u) ∧ L.le u t ∧
      L.Reached w t ∧ L.Trail (L.limit c w) u [.reached (G (L.left u))] t := by
    obtain ⟨t, leftT, rightT, onward, contexts⟩ := back u reached
    have later : L.Reached w t := ⟨L.trans out.le (L.trans reached.le onward.le), contexts,
      out.rests.sameRuns.trans (reached.runs.trans onward.rests.sameRuns)⟩
    refine ⟨t, leftT, rightT, onward.le, later, ?_⟩
    rw [← leftT]
    exact .reached onward (later.depth ▸ depth_le_limit c w) (.done (.refl t))
  generalize x c (F (L.left w)) = o at ends ⊢
  generalize y c (F (L.right w)) = o' at ends ⊢
  cases ends with
  | value reached post =>
    obtain ⟨t, leftT, rightT, leT, later, last⟩ := home reached
    exact ⟨t, start _ t last, .value_of later (lasts leT post) leftT rightT⟩
  | abrupt reached post =>
    obtain ⟨t, leftT, rightT, leT, later, last⟩ := home reached
    exact ⟨t, start _ t last, .abrupt_of later (Lasts.abrupt leT post) leftT rightT⟩
  | exhausted depth =>
    exact ⟨u, start _ u (.reached (.refl u) depth (.done (.refl u))), .exhausted depth⟩

/-- Code that runs in a context of its own. -/
theorem inContext {ctx : Context} {x y : Action α} {Q : L.World → α → Prop} (known : L.context w ctx)
    (lasts : L.Lasts Q)
    (hx : ∀ u, L.le w u → L.left u = (L.left w).pushContext ctx → L.Obeys c u x y Q) :
    L.Obeys c w (x.inContext ctx) (y.inContext ctx) Q := by
  rcases Nat.lt_or_ge (L.left w).depth c.maxCallDepth with room | deep
  · obtain ⟨v, left, right, le⟩ := L.change (.enter known)
    have depth : (L.left v).depth = (L.left w).depth + 1 := by rw [left]; rfl
    have inner : L.limit c v = L.limit c w := by simp only [limit, depth]; omega
    rw [Obeys, Action.inContext_sizes x room, Action.inContext_path x room, Action.inContext_run x room,
      Action.inContext_run y (right_depth ▸ room)]
    have out : L.Onward w v := .of_generators le (by rw [left]; rfl)
    refine excursion (F := (·.pushContext ctx)) left right out inner lasts (hx v le left) fun u reached => ?_
    obtain ⟨t, leftT, rightT, leT⟩ := L.change (w := u) .leave
    refine ⟨t, leftT, rightT, .of_generators leT (by rw [leftT]; rfl), ?_⟩
    simp only [leftT, Store.popContext, reached.contexts, left, Store.pushContext, List.tail_cons]
  · have permitted : L.permits .stackOverflow := L.permits_kind (by decide)
    rw [Obeys, Action.inContext_path_deep x deep, Action.inContext_run_deep x deep,
      Action.inContext_run_deep y (right_depth ▸ deep)]
    exact fun _ => ⟨w, .reached (.refl w) (depth_le_limit c w) (.raised permitted (.reached (.refl w) (depth_le_limit c w)
      (.done (.refl w)))), .abrupt (.refl w) permitted⟩

/-- Code that looks names up in another scope. -/
theorem inScope {e : ScopeRef} {x y : Action α} {Q : L.World → α → Prop} (running : L.running w)
    (known : ∀ ctx, (L.left w).context? = some ctx → L.scope w e ctx.strict ∧ L.within w e ctx.vars)
    (lasts : L.Lasts Q)
    (hx : ∀ u, L.le w u → L.left u = (L.left w).setLexical e → L.Obeys c u x y Q) :
    L.Obeys c w (x.inScope e) (y.inScope e) Q := by
  cases found : (L.left w).contexts with
  | nil =>
    have idle : (L.left w).context? = none := by rw [Store.context?, found]; rfl
    have permitted := L.no_context running found
    rw [Obeys, Action.inScope_path_idle x e idle, Action.inScope_run_idle x e idle,
      Action.inScope_run_idle y e (right_context?.trans idle)]
    exact fun _ => ⟨w, .reached (.refl w) (depth_le_limit c w) (.raised permitted (.reached (.refl w) (depth_le_limit c w)
      (.done (.refl w)))), .abrupt (.refl w) permitted⟩
  | cons ctx rest =>
    have busy : (L.left w).context? = some ctx := by rw [Store.context?, found]; rfl
    obtain ⟨v, left, right, le⟩ := L.change (.shift known)
    have contexts : (L.left v).contexts = { ctx with lexical := e } :: rest := by
      rw [left, Store.setLexical, found]
    have depth : (L.left v).depth = (L.left w).depth := by
      rw [Store.depth, Store.depth, contexts, found]
      rfl
    rw [Obeys, Action.inScope_sizes x e busy, Action.inScope_path x e busy, Action.inScope_run x e busy,
      Action.inScope_run y e (right_context?.trans busy)]
    have out : L.Onward w v := .of_generators le (by rw [left, Store.generators_setLexical])
    refine excursion (F := (·.setLexical e)) left right out (by simp only [limit, depth]) lasts (hx v le left)
      fun u reached => ?_
    have old := L.contexts (List.mem_of_head? busy)
    obtain ⟨t, leftT, rightT, leT⟩ := L.change (w := u) (.shift (e := ctx.lexical) fun top at_top => by
      rw [Store.context?, reached.contexts, contexts] at at_top
      cases at_top
      have later := L.trans le reached.le
      exact ⟨L.scope_mono later old.1, L.within_mono later old.2.2.2.1⟩)
    refine ⟨t, leftT, rightT, .of_generators leT (by rw [leftT, Store.generators_setLexical]), ?_⟩
    rw [leftT, Store.setLexical, reached.contexts, contexts, found]

/-- Changes what a generator has yet to do. -/
theorem steer {g : GeneratorRef} {f : Generator → Generator} (drives : L.drives g)
    (known : ∀ gen, (L.left w).generator? g = some gen → L.generator w (f gen))
    (started : ∀ gen, (L.left w).generator? g = some gen → (f gen).status ≠ .suspendedStart)
    (aimed : L.watches w g → ∀ gen, (L.left w).generator? g = some gen → GeneratorStep.aimed (f gen).steps = true)
    (rests : (L.left w).Rests ((L.left w).modifyGenerator g f)) :
    L.Obeys c w (Action.modify (·.modifyGenerator g f)) (Action.modify (·.modifyGenerator g f)) fun u _ =>
      L.left u = (L.left w).modifyGenerator g f := by
  obtain ⟨u, left, right, le⟩ := L.change (.steer drives known started aimed)
  have onward : L.Onward w u := ⟨le, left ▸ rests⟩
  exact fun _ => ⟨u, .done onward, .value_of (onward.reached (by rw [left]; rfl)) left left right⟩

/-- A reading of a generator that may be driven. -/
theorem read_generator_bind {g : GeneratorRef} {r : Option Generator → α} {f h : α → Action β}
    {R : L.World → β → Prop} (drives : L.drives g)
    (next : L.Obeys c w (f (r ((L.left w).generator? g))) (h (r ((L.left w).generator? g))) R) :
    L.Obeys c w (Action.read (fun s => r (s.generator? g)) >>= f) (Action.read (fun s => r (s.generator? g)) >>= h) R := by
  intro allowed
  obtain ⟨u, trail, ends⟩ := next allowed
  refine ⟨u, trail, ?_⟩
  rw [← L.agree_drives drives] at ends
  show L.Ends _ w R u (f (r ((L.left w).generator? g)) c (L.left w)) (h (r ((L.right w).generator? g)) c (L.right w))
  rw [← L.agree_drives drives]
  exact ends

/-- A reading of a generator that may be the one whose steps differ. -/
theorem read_head_bind {g : GeneratorRef} {f h : Option Generator → Action β} {R : L.World → β → Prop}
    (next : ∀ other, other.map (fun gen => (gen.status, gen.context)) =
        ((L.left w).generator? g).map (fun gen => (gen.status, gen.context)) →
      L.Obeys c w (f ((L.left w).generator? g)) (h other) R) :
    L.Obeys c w (Action.read (·.generator? g) >>= f) (Action.read (·.generator? g) >>= h) R :=
  next _ (L.agree_head w g)

end Obeys

end Law

end Ecma
