import Ecma.Proofs.Law.Builtin
import Ecma.Proofs.Silent

/-!
# Expressions obey every law

One level of evaluation, given that the engine below obeys.
-/

namespace Ecma

namespace ScopeRef

variable {e : ScopeRef} {name : String} {c : Config} {s : Store} {bindings : NameMap Binding}
  (record : (s.scope e).record = .declarative bindings)
include record

theorem createImmutable_does (absent : bindings.contains name = false) :
    (e.createImmutable name).Does c s () (s.withBindings e (bindings.insert name .uninitialized)) := by
  refine .read_bind ?_
  simp only [record, absent]
  exact .modify

theorem initializeImmutable_does {v : Value} (found : bindings.get? name = some .uninitialized) :
    (e.initializeImmutable name v).Does c s () (s.withBindings e (bindings.insert name (.constant v))) := by
  refine .read_bind ?_
  simp only [record, found]
  exact .modify

end ScopeRef

/-- A function that is made from an expression which names it closes over a scope in which that name is bound to it. -/
theorem Expr.namedFunction_does (code : FunctionCode) (name : String) (scope : ScopeRef) (strict : Bool) (c : Config)
    (s : Store) : ∃ e f t, (namedFunction code name scope strict).Does c s (e, f) t ∧
      t.binding? e name = some (.constant (.object f)) ∧
        (t.object f).kind = .function (.script code e (strict || code.strict)) := by
  let e : ScopeRef := ⟨s.scopes.size⟩
  let made := s.addScope ⟨.declarative .empty, some scope⟩
  have first : (made.scope e).record = .declarative .empty := by simp [made, e, Store.addScope, Store.scope]
  have inside : e.index < made.scopes.size := by simp [made, e, Store.addScope]
  let bindings : NameMap Binding := NameMap.empty.insert name .uninitialized
  let waiting := made.withBindings e bindings
  have second : (waiting.scope e).record = .declarative bindings := Store.record_withBindings _ inside
  have still : e.index < waiting.scopes.size := by
    simpa [waiting, Store.withBindings, Store.modifyScope] using inside
  let f := waiting.nextObject
  let closed := waiting.addFunction code e (strict || code.strict)
  have allocated : (Action.declarativeScope (some scope)).Does c s e made := ⟨rfl, rfl⟩
  have function : (Action.newFunction code e strict).Does c waiting f closed := ⟨rfl, rfl⟩
  refine ⟨e, f, closed.withBindings e (bindings.insert name (.constant (.object f))), ?_, ?_, ?_⟩
  · refine allocated.bind ((ScopeRef.createImmutable_does first rfl).bind (function.bind ?_))
    refine .bind (ScopeRef.initializeImmutable_does (s := closed) second ?_) .pure
    rw [NameMap.get?_insert, if_pos rfl]
  · have third : ((closed.withBindings e (bindings.insert name (.constant (.object f)))).scope e).record =
        .declarative (bindings.insert name (.constant (.object f))) := Store.record_withBindings _ still
    rw [Store.binding?, third]
    exact (NameMap.get?_insert ..).trans (if_pos rfl)
  · -- the object for the instances is added after the function, which stays where it is
    have added (obj : Object) : f.index < (waiting.addObject obj).objects.size := by
      simp [f, Store.addObject, Store.nextObject]
    show (closed.object f).kind = _
    simp only [closed, f, Store.addFunction]
    rw [Store.object_addObject_old _ _ (added _), Store.object_addObject_next]
    rfl

namespace Law

variable {L : Law} {E E' : Engine} {c : Config} {w : L.World}

/-- A function expression binds its own name before the function is made, and nothing can run in between. -/
theorem namedFunction_obeys {code : FunctionCode} {name : String} {scope : ScopeRef} {strict : Bool}
    (known : L.scope w scope strict) :
    L.Obeys c w (Expr.namedFunction code name scope strict) (Expr.namedFunction code name scope strict) fun u made =>
      L.object u made.2 := by
  refine .bind (.declarativeScope known) fun own u first made => ?_
  have room : (∀ f, L.permits f) ∨ ∃ bindings, ((L.left u).scope own).record = .declarative bindings ∧
      bindings.contains name = false := .inr ⟨_, made.2.1, rfl⟩
  refine .bind (createImmutable_obeys made.1 room) fun _ t second pending => ?_
  refine .bind (.newFunction_exact (second.scope made.1)) fun f v third post => ?_
  have pending : L.pending v own name := pending_congr (by rw [post.2]; rfl) pending
  exact .bind (initializeImmutable_obeys post.1 pending) fun _ _ fourth _ => .pure (fourth.object post.1)

theorem closure_obeys {code : FunctionCode} : L.Obeys c w (Expr.closure code) (Expr.closure code) L.value := by
  refine .read_bind (fun _ _ => by simp) (.isStrict_bind fun strict running => ?_)
  have known := scope_lexical running
  cases code.name with
  | none => exact .map (.newFunction known) fun _ _ _ post => post
  | some name =>
    refine .bind (namedFunction_obeys known).outcome fun made u _ post => ?_
    obtain ⟨own, f⟩ := made
    obtain ⟨object, run⟩ := post
    refine .note_bind ?_ (.pure object)
    obtain ⟨e, g, t, does, bound, _⟩ :=
      Expr.namedFunction_does code name (L.left w).lexicalScope strict c (L.left w)
    have same := run.symm.trans does.run
    cases same
    exact bound

section Engine

variable (H : L.Engines E E')
include H

theorem construct_obeys {f : Value} {args : List Value} (known : L.value w f) (values : L.values w args) :
    L.Obeys c w (Ecma.construct E f args) (Ecma.construct E' f args) L.value := by
  cases f with
  | object callee =>
    refine .read_bind (fun _ _ => by simp) ?_
    dsimp only
    split
    · split
      · refine .bind (get_obeys H known) fun v u first held => ?_
        refine .bind (.alloc (.ordinary fun p h => ?_)) fun o t second object => ?_
        · cases h
          exact object_getD held
        have both := first.trans second
        refine .bind (H.call (both.value known) object (both.values values)) fun result _ third post => ?_
        cases result with
        | object r => exact .pure post
        | _ => exact .pure (third.object object)
      · exact H.call known (L.primitive rfl) values
    · exact .read_bind (fun _ _ => by simp) (.fail (L.permits_kind nofun))
  | _ => exact .read_bind (fun _ _ => by simp) (.fail (L.permits_kind nofun))

theorem reference_obeys {e : Expr} : L.Obeys c w (e.reference E) (e.reference E') L.reference := by
  cases e with
  | ident name => exact resolveName_obeys
  | member base name =>
    exact .bind H.expr fun _ _ _ held => .bind checkCoercible_obeys fun _ _ reached _ =>
      .isStrict_bind fun _ _ => .pure (reached.value held)
  | index base key =>
    refine .bind H.expr fun v u _ held => .bind H.expr fun k t second other => ?_
    refine .bind checkCoercible_obeys fun _ _ third _ => ?_
    refine .bind (toName_obeys H (third.value other)) fun name _ fourth _ => .isStrict_bind fun _ _ => .pure ?_
    exact fourth.value (third.value (second.value held))
  | _ => exact .fail (L.permits_kind nofun)

theorem evaluateList_obeys (es : List Expr) :
    L.Obeys c w (Expr.evaluateList E es) (Expr.evaluateList E' es) L.values := by
  induction es generalizing w with
  | nil => exact .pure values_nil
  | cons e rest ih =>
    exact .bind H.expr fun _ _ _ held => .bind ih fun _ _ reached others =>
      .pure (values_cons (reached.value held) others)

theorem callee_obeys {e : Expr} :
    L.Obeys c w (e.callee E) (e.callee E') fun u p => L.value u p.1 ∧ L.value u p.2 := by
  unfold Expr.callee
  split
  · refine .bind (reference_obeys H) fun r u first known => .bind (getValue_obeys H known) fun f t second held => ?_
    exact .read_bind (fun _ _ => by simp) (.pure ⟨held, value_thisValue (second.reference known)⟩)
  · exact .bind H.expr fun _ _ _ held => .pure ⟨held, L.primitive rfl⟩

theorem literal_defineAll_obeys {o : ObjectRef} {e : ScopeRef} {strict : Bool} (object : L.object w o)
    (known : L.scope w e strict) (properties : List PropertyDef) :
    L.Obeys c w (Expr.defineAll E o e strict properties) (Expr.defineAll E' o e strict properties) L.any := by
  induction properties generalizing w with
  | nil => exact .pure trivial
  | cons property rest ih =>
    cases property with
    | value key e =>
      refine .bind H.expr fun v u first held => ?_
      refine .bind (define_obeys H (first.object object) (property_data held))
        fun _ t second _ => ?_
      exact ih ((first.trans second).object object) ((first.trans second).scope known)
    | getter key code =>
      refine .bind (.newFunction known) fun f u first held => ?_
      refine .bind (define_obeys H (first.object object) ⟨option_none, option_some held, option_none⟩)
        fun _ t second _ => ?_
      exact ih ((first.trans second).object object) ((first.trans second).scope known)
    | setter key code =>
      refine .bind (.newFunction known) fun f u first held => ?_
      refine .bind (define_obeys H (first.object object) ⟨option_none, option_none, option_some held⟩)
        fun _ t second _ => ?_
      exact ih ((first.trans second).object object) ((first.trans second).scope known)

theorem defineElements_obeys {o : ObjectRef} (object : L.object w o) (i : Nat) (elements : List Element) :
    L.Obeys c w (Expr.defineElements E o i elements) (Expr.defineElements E' o i elements) L.any := by
  induction elements generalizing w i with
  | nil => exact .pure trivial
  | cons element rest ih =>
    cases element with
    | hole => exact ih object (i + 1)
    | item e =>
      refine .bind H.expr fun v u first held => ?_
      refine .bind (define_obeys H (first.object object) (property_data held))
        fun _ t second _ => ?_
      exact ih ((first.trans second).object object) (i + 1)

theorem evaluateUnary_obeys {op : UnaryOp} {operand : Expr} :
    L.Obeys c w (Expr.evaluateUnary E op operand) (Expr.evaluateUnary E' op operand) L.value := by
  cases op with
  | delete =>
    unfold Expr.evaluateUnary
    dsimp only
    split
    · exact .bind (reference_obeys H) fun _ _ _ known => .bind (reference_delete_obeys known) fun _ _ _ _ =>
        .pure (L.primitive rfl)
    · exact .bind H.expr fun _ _ _ _ => .pure (L.primitive rfl)
  | typeOf =>
    unfold Expr.evaluateUnary
    dsimp only
    split
    · refine .bind (reference_obeys H) fun r u _ known => ?_
      split
      · exact .pure (L.primitive rfl)
      · exact .bind (getValue_obeys H known) fun _ _ _ _ => .read (fun _ _ => by simp) (L.primitive rfl)
    · exact .bind H.expr fun _ _ _ _ => .read (fun _ _ => by simp) (L.primitive rfl)
  | void => exact .bind H.expr fun _ _ _ _ => .pure (L.primitive rfl)
  | neg => exact .bind H.expr fun _ _ _ held => .bind (toNumber_obeys H held) fun _ _ _ _ => .pure (L.primitive rfl)
  | plus => exact .bind H.expr fun _ _ _ held => .bind (toNumber_obeys H held) fun _ _ _ _ => .pure (L.primitive rfl)
  | not => exact .bind H.expr fun _ _ _ _ => .pure (L.primitive rfl)
  | bitNot => exact .bind H.expr fun _ _ _ held => .bind (toWord_obeys H held) fun _ _ _ _ => .pure (L.primitive rfl)

theorem evaluate_obeys {e : Expr} : L.Obeys c w (e.evaluate E) (e.evaluate E') L.value := by
  cases e with
  | number x => exact .pure (L.primitive rfl)
  | text t => exact .pure (L.primitive rfl)
  | boolean b => exact .pure (L.primitive rfl)
  | null => exact .pure (L.primitive rfl)
  | thisValue => exact .read (fun _ _ => by simp) value_this
  | ident name => exact .bind resolveName_obeys fun _ _ _ known => getValue_obeys H known
  | member base name => exact .bind (reference_obeys H) fun _ _ _ known => getValue_obeys H known
  | index base key => exact .bind (reference_obeys H) fun _ _ _ known => getValue_obeys H known
  | call callee args =>
    refine .bind (callee_obeys H) fun p u _ held => .bind (evaluateList_obeys H args) fun values t reached known => ?_
    refine .read_bind (fun _ _ => by simp) (.ite (fun _ => ?_) fun _ => .fail (L.permits_kind nofun))
    exact H.call (reached.value held.1) (reached.value held.2) known
  | construct callee args =>
    refine .bind H.expr fun f u _ held => .bind (evaluateList_obeys H args) fun values t reached known => ?_
    refine .read_bind (fun _ _ => by simp) (.ite (fun _ => ?_) fun _ => .fail (L.permits_kind nofun))
    exact construct_obeys H (reached.value held) known
  | function code => exact closure_obeys
  | object properties =>
    refine .bind newObject_obeys fun o u _ object =>
      .read_bind (fun _ _ => by simp) (.isStrict_bind fun strict running => ?_)
    exact .bind (literal_defineAll_obeys H object (scope_lexical running) properties) fun _ _ reached _ =>
      .pure (reached.object object)
  | array elements =>
    refine .bind (newArray_obeys values_nil) fun o u _ object => ?_
    refine .bind (defineElements_obeys H object 0 elements) fun _ t first _ => ?_
    exact .bind (put_obeys H (first.object object) (L.primitive rfl)) fun _ _ second _ =>
      .pure ((first.trans second).object object)
  | unary op operand => exact evaluateUnary_obeys H
  | update op before target =>
    refine .bind (reference_obeys H) fun r u _ known => .bind checkTarget_obeys fun _ t first checked => ?_
    have known := first.reference known
    refine .bind (getValue_obeys H known) fun v t' second held => .bind (toNumber_obeys H held) fun old _ third _ => ?_
    exact .bind (putValue_obeys H ((second.trans third).reference known) checked (L.primitive rfl)) fun _ _ _ _ =>
      .pure (L.primitive rfl)
  | binary op left right =>
    exact .bind H.expr fun _ _ _ held => .bind H.expr fun _ _ reached other =>
      apply_obeys H (reached.value held) other
  | logical op left right =>
    refine .bind H.expr fun v u _ held => ?_
    split
    · exact .pure held
    · exact .pure held
    · exact H.expr
  | conditional test consequent alternate =>
    exact .bind H.expr fun _ _ _ _ => .ite (fun _ => H.expr) fun _ => H.expr
  | assign target value =>
    refine .bind (reference_obeys H) fun r u _ known => .bind checkTarget_obeys fun _ t first checked => ?_
    refine .bind H.expr fun v t' second held => ?_
    exact .bind (putValue_obeys H ((first.trans second).reference known) checked held) fun _ _ third _ =>
      .pure (third.value held)
  | compound op target value =>
    refine .bind (reference_obeys H) fun r u _ known => .bind checkTarget_obeys fun _ t first checked => ?_
    have known := first.reference known
    refine .bind (getValue_obeys H known) fun v _ second held => .bind H.expr fun other _ third held' => ?_
    refine .bind (apply_obeys H (third.value held) held') fun result _ fourth post => ?_
    exact .bind (putValue_obeys H (((second.trans third).trans fourth).reference known) checked post) fun _ _ fifth _ =>
      .pure (fifth.value post)
  | comma left right => exact .bind H.expr fun _ _ _ _ => H.expr

end Engine

end Law

end Ecma
