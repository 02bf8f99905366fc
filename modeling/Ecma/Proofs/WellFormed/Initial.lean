import Ecma.Proofs.WellFormed.Law

/-!
# Histories of fresh machines

The intrinsic objects and native functions refer only to each other, so a fresh machine starts from a well-formed store.
Every store that it ever comes to is then well formed, and no internal fault is ever raised, not even one that a program
could catch.
-/

namespace Ecma

namespace Store

theorem size_initial : initial.objects.size = 57 := by
  have intrinsics : Intrinsic.all.length = 16 := by decide
  have natives : Native.installed.length = 41 := by decide
  simp only [initial, List.size_toArray, List.length_append, List.length_map, intrinsics, natives]

theorem intrinsic_initial (i : Intrinsic) : i.ref.index < initial.objects.size := by
  rw [size_initial]
  cases i with
  | errorPrototype kind => cases kind <;> decide
  | _ => decide

theorem native_initial (n : Native) : n.ref.index < initial.objects.size := by
  rw [size_initial]
  cases n with
  | error kind => cases kind <;> decide
  | _ => decide

/-- No scope is reserved before code runs. -/
def unreserved (_ : ScopeRef) : Prop := False

theorem keepsProperty_method (n : Native) : initial.KeepsProperty n.method.2 := .data (holds_object (native_initial n))

theorem keepsProperty_methods (ns : List Native) : ∀ entry ∈ ns.map Native.method, initial.KeepsProperty entry.2 := by
  intro entry mem
  obtain ⟨n, _, rfl⟩ := List.mem_map.1 mem
  exact keepsProperty_method n

theorem keepsProperty_errorProperties (kind : ErrorKind) :
    ∀ entry ∈ Intrinsic.errorProperties kind, initial.KeepsProperty entry.2 := by
  simp only [Intrinsic.errorProperties, List.forall_mem_cons]
  exact ⟨keepsProperty_method (.error kind), .data (holds_of_isPrimitive rfl), .data (holds_of_isPrimitive rfl),
    List.forall_mem_nil _⟩

theorem keepsProperty_globals : ∀ entry ∈ Intrinsic.globals, initial.KeepsProperty entry.2 := by
  refine List.forall_mem_append.2 ⟨?_, fun entry mem => ?_⟩
  · have primitive {v : Value} (h : v.isPrimitive = true) : initial.KeepsProperty (.frozen v) :=
      .data (holds_of_isPrimitive h)
    simp only [List.forall_mem_cons]
    exact ⟨primitive rfl, primitive rfl, primitive rfl, keepsProperty_method .object, List.forall_mem_nil _⟩
  · obtain ⟨kind, _, rfl⟩ := List.mem_map.1 mem
    exact keepsProperty_method (.error kind)

/-- A number that stands before the methods of an object. -/
theorem keepsProperty_length {w e c : Bool} {x : Float} (ns : List Native) :
    ∀ entry ∈ ("length", .data (.number x) w e c) :: ns.map Native.method, initial.KeepsProperty entry.2 :=
  List.forall_mem_cons.2 ⟨.data (holds_of_isPrimitive rfl), keepsProperty_methods ns⟩

theorem objectOk_intrinsic (i : Intrinsic) : initial.ObjectOk unreserved i.toObject := by
  have parent := intrinsic_parent intrinsic_initial
  have derived {className : ClassName} {kind : ObjectKind} {entries : List (String × Property)}
      (values : ∀ entry ∈ entries, initial.KeepsProperty entry.2)
      (noCode : ∀ code e strict, kind ≠ .function (.script code e strict)) (noAlias : ∀ m, kind ≠ .arguments (some m)) :
      initial.ObjectOk unreserved (Intrinsic.derived className kind entries) :=
    objectOk_fresh (parent .objectPrototype) values noCode noAlias
  cases i with
  | objectPrototype =>
    exact objectOk_fresh nofun (List.forall_mem_cons.2 ⟨keepsProperty_method .object, keepsProperty_methods _⟩) nofun nofun
  | functionPrototype => exact derived (keepsProperty_length _) nofun nofun
  | arrayPrototype => exact derived (keepsProperty_length _) nofun nofun
  | booleanPrototype => exact derived (keepsProperty_methods _) nofun nofun
  | numberPrototype => exact derived (keepsProperty_methods _) nofun nofun
  | stringPrototype => exact derived (keepsProperty_length _) nofun nofun
  | errorPrototype kind =>
    cases kind with
    | error =>
      exact derived (List.forall_mem_cons.2 ⟨keepsProperty_method _, keepsProperty_errorProperties _⟩) nofun nofun
    | _ => exact objectOk_fresh (parent (.errorPrototype .error)) (keepsProperty_errorProperties _) nofun nofun
  | generatorPrototype => exact derived (keepsProperty_methods _) nofun nofun
  | throwTypeError =>
    have native : initial.ObjectOk unreserved (Native.throwTypeError.toObject []) :=
      objectOk_fresh (parent .functionPrototype) (keepsProperty_length []) nofun nofun
    exact native.closed
  | global => exact derived keepsProperty_globals nofun nofun

theorem keepsProperty_statics (n : Native) : ∀ entry ∈ n.statics, initial.KeepsProperty entry.2 := by
  cases n with
  | object =>
    exact List.forall_mem_cons.2 ⟨.data (holds_object (intrinsic_initial .objectPrototype)), keepsProperty_methods _⟩
  | error kind =>
    exact List.forall_mem_cons.2 ⟨.data (holds_object (intrinsic_initial (.errorPrototype kind))), List.forall_mem_nil _⟩
  | _ => exact List.forall_mem_nil _

theorem objectOk_native (n : Native) : initial.ObjectOk unreserved (n.toObject n.statics) :=
  objectOk_fresh (intrinsic_parent intrinsic_initial .functionPrototype)
    (List.forall_mem_cons.2 ⟨.data (holds_of_isPrimitive rfl), keepsProperty_statics n⟩) nofun nofun

theorem objectOk_initial (o : ObjectRef) : initial.ObjectOk unreserved (initial.object o) := by
  cases found : initial.objects[o.index]? with
  | none =>
    rw [object, found]
    refine objectOk_fresh ?_ (List.forall_mem_nil _) ?_ ?_
    · intro _ parent
      cases parent
    · intro _ _ _ function
      cases function
    · intro _ arguments
      cases arguments
  | some obj =>
    rw [object, found, Option.getD_some]
    have mem : obj ∈ Intrinsic.all.map Intrinsic.toObject ++ Native.installed.map fun n => n.toObject n.statics :=
      List.mem_of_getElem? (List.getElem?_toArray .. ▸ found)
    rcases List.mem_append.1 mem with mem | mem
    · obtain ⟨i, _, rfl⟩ := List.mem_map.1 mem
      exact objectOk_intrinsic i
    · obtain ⟨n, _, rfl⟩ := List.mem_map.1 mem
      exact objectOk_native n

theorem wellFormed_initial : initial.WellFormed unreserved where
  intrinsics := intrinsic_initial
  objects := objectOk_initial
  scopes e := by
    rw [scope]
    cases found : initial.scopes[e.index]? with
    | none =>
      refine ⟨fun _ outer => ?_, fun _ _ _ declarative found => ?_, fun _ _ object => ?_⟩
      · cases outer
      · cases declarative
        cases found
      · cases object
    | some scope =>
      obtain rfl := List.mem_singleton.1 (Array.mem_toList_iff.2 (Array.mem_of_getElem? found))
      refine ⟨fun _ outer => ?_, fun _ _ _ declarative => ?_, fun _ _ object => ?_⟩
      · cases outer
      · cases declarative
      · cases object
        exact intrinsic_initial .global
  global := ⟨by decide, id⟩
  globalRecord := ⟨Intrinsic.global.ref, false, rfl⟩
  bounded _ := False.elim
  contexts := List.forall_mem_nil _
  generators g gen found := by
    rw [generator?, initial] at found
    cases found

end Store

/-- The world that a fresh machine starts in. -/
def World.initial : World := ⟨.initial, Store.unreserved, Store.wellFormed_initial⟩

namespace Machine

variable (config : Config) (units : List (Nat × CodeUnit))

theorem governed : Law.wellFormed.Governs World.initial (new config) units :=
  Law.governs World.exotics (fun _ _ => trivial) rfl units

/-- Whatever is run on a fresh machine, no internal fault is raised on the way and none is reported. -/
theorem no_internal_fault :
    (∀ f, .raised f ∈ (new config).moments units → f.kind ≠ .internal) ∧
      ∀ message site, some (.error (.internal message site)) ∉ (new config).answers units := by
  have history := governed config units
  refine ⟨history.faults, fun message site mem => ?_⟩
  obtain ⟨f, permitted, internal⟩ := history.answers message site mem
  exact permitted internal

/-- A fault that is raised by a name that is not defined, and is not internal. -/
theorem no_internal_fault_undefined :
    ∃ f, .raised f ∈ (new .standard).moments [(3, .global ⟨[.expr (.ident "x")], false⟩)] ∧ f.kind ≠ .internal := by
  have raised : ((new .standard).moments [(3, .global ⟨[.expr (.ident "x")], false⟩)]).any
      (fun | .raised f => f = .notDefined "x" | _ => false) = true := by decide +kernel
  obtain ⟨moment, mem, undefined⟩ := List.any_eq_true.1 raised
  cases moment with
  | raised f => exact ⟨f, mem, (no_internal_fault .standard _).1 f mem⟩
  | reached | noted => cases undefined

end Machine

end Ecma
