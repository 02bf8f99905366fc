import Ecma.Proofs.Law.Program

/-!
# Runs from stores that agree

The law of two runs whose stores differ at most in the steps of one generator, which is running in both. Code cannot
tell such stores apart: a running generator refuses to be resumed, and nothing else reads its steps. The second run may
also have a larger budget. With no generator set apart, the law says what a run does from any store whatever.
-/

namespace Ecma

/-- A change of the store has to do with generators, or it neither reads nor changes them. -/
theorem Change.blind {V : Terms} {w : V.World} {F : Store → Store} (made : Change V w F) :
    ((∀ s gs, F (Store.withGenerators s gs) = (F s).withGenerators gs) ∧ ∀ s, (F s).generators = s.generators) ∨
      (∃ gen, F = (·.addGenerator gen)) ∨ ∃ g f, V.drives g ∧
        (∀ gen, (V.left w).generator? g = some gen → (f gen).status ≠ .suspendedStart) ∧
        (V.watches w g → ∀ gen, (V.left w).generator? g = some gen → GeneratorStep.aimed (f gen).steps = true) ∧
        F = (·.modifyGenerator g f) := by
  cases made with
  | addGenerator known => exact .inr (.inl ⟨_, rfl⟩)
  | steer driven _ started aimed => exact .inr (.inr ⟨_, _, driven, started, aimed, rfl⟩)
  | @changeAliased _ _ _ _ d _ change =>
    refine .inl ⟨fun s gs => ?_, fun s => ?_⟩ <;> unfold Store.defineAliased <;> cases change <;> cases d.value <;>
      split <;> first | rfl | split <;> rfl
  | shift =>
    refine .inl ⟨fun s gs => ?_, fun s => ?_⟩
    · obtain ⟨_, _, _, contexts⟩ := s
      cases contexts <;> rfl
    · obtain ⟨_, _, _, contexts⟩ := s
      cases contexts <;> rfl
  | _ => exact .inl ⟨fun _ _ => rfl, fun _ => rfl⟩

namespace Store

/-- A change leaves the generators that it does not drive. -/
theorem generator?_of_change {V : Terms} {w : V.World} {F : Store → Store} {own : GeneratorRef} {s : Store}
    {gen : Generator} (made : Change V w F) (apart : ∀ other, V.drives other → other ≠ own)
    (found : s.generator? own = some gen) : (F s).generator? own = some gen := by
  rcases made.blind with ⟨_, keeps⟩ | ⟨new, rfl⟩ | ⟨other, f, driven, _, _, rfl⟩
  · rw [generator?, keeps]
    exact found
  · have inside : own.index < s.generators.size := by
      rw [generator?] at found
      exact (Array.getElem?_eq_some_iff.1 found).1
    show (s.addGenerator new).generator? own = some gen
    rw [generator?_addGenerator, if_neg (Nat.ne_of_lt inside)]
    exact found
  · show (s.modifyGenerator other f).generator? own = some gen
    rw [generator?_modifyGenerator, if_neg (apart other driven)]
    exact found

/-- Two stores that differ at most in the steps of a generator that is running in both. -/
structure AgreeBut (g : Option GeneratorRef) (s t : Store) : Prop where
  same : t = s.withGenerators t.generators
  size : t.generators.size = s.generators.size
  apart : ∀ other, g ≠ some other → t.generator? other = s.generator? other
  running : ∀ own, g = some own → ∃ gen gen', s.generator? own = some gen ∧ t.generator? own = some gen' ∧
    gen.status = .running ∧ gen'.status = .running ∧ gen'.context = gen.context

namespace AgreeBut

variable {g : Option GeneratorRef} {s t : Store}

theorem refl (s : Store) : AgreeBut none s s := ⟨rfl, rfl, fun _ _ => rfl, nofun⟩

theorem symm (h : AgreeBut g s t) : AgreeBut g t s where
  same := by
    rw [h.same]
    rfl
  size := h.size.symm
  apart other away := (h.apart other away).symm
  running own set := by
    obtain ⟨gen, gen', found, found', status, status', context⟩ := h.running own set
    exact ⟨gen', gen, found', found, status', status, context.symm⟩

theorem contexts (h : AgreeBut g s t) : t.contexts = s.contexts := by
  rw [h.same]
  rfl

theorem head (h : AgreeBut g s t) (other : GeneratorRef) :
    (t.generator? other).map (fun gen => (gen.status, gen.context)) =
      (s.generator? other).map fun gen => (gen.status, gen.context) := by
  by_cases set : g = some other
  · obtain ⟨gen, gen', found, found', status, status', context⟩ := h.running other set
    rw [found, found', Option.map_some, Option.map_some, status, status', context]
  · rw [h.apart other set]

/-- A change that has nothing to do with generators. -/
theorem change (h : AgreeBut g s t) {F : Store → Store} (blind : ∀ s gs, F (s.withGenerators gs) = (F s).withGenerators gs)
    (keeps : ∀ s, (F s).generators = s.generators) : AgreeBut g (F s) (F t) := by
  have found (u : Store) (other : GeneratorRef) : (F u).generator? other = u.generator? other := by
    rw [generator?, keeps]
    rfl
  refine ⟨?_, by rw [keeps, keeps, h.size], fun other apart => ?_, fun own set => ?_⟩
  · rw [keeps, ← blind, ← h.same]
  · rw [found, found, h.apart other apart]
  · rw [found, found]
    exact h.running own set

theorem addGenerator (h : AgreeBut g s t) (gen : Generator) : AgreeBut g (s.addGenerator gen) (t.addGenerator gen) := by
  refine ⟨?_, ?_, fun other apart => ?_, fun own set => ?_⟩
  · have same := h.same
    rw [Store.addGenerator, Store.addGenerator, same]
    rfl
  · simp [Store.addGenerator, h.size]
  · rw [generator?_addGenerator, generator?_addGenerator, h.size, h.apart other apart]
  · obtain ⟨old, new, there, there', rest⟩ := h.running own set
    have inside : own.index < s.generators.size := by
      rw [generator?] at there
      exact (Array.getElem?_eq_some_iff.1 there).1
    rw [generator?_addGenerator, generator?_addGenerator, if_neg (by omega), if_neg (by rw [h.size]; omega)]
    exact ⟨old, new, there, there', rest⟩

theorem modifyGenerator (h : AgreeBut g s t) {other : GeneratorRef} (apart : g ≠ some other) (f : Generator → Generator) :
    AgreeBut g (s.modifyGenerator other f) (t.modifyGenerator other f) := by
  refine ⟨?_, by simp [Store.modifyGenerator, h.size], fun any away => ?_, fun own set => ?_⟩
  · have same := h.same
    rw [Store.modifyGenerator, Store.modifyGenerator, same]
    rfl
  · rw [generator?_modifyGenerator, generator?_modifyGenerator, h.apart any away]
  · have different : other ≠ own := fun same => apart (set.trans (congrArg some same.symm))
    rw [generator?_modifyGenerator, generator?_modifyGenerator, if_neg different, if_neg different]
    exact h.running own set

/-- No change that a run makes tells the two stores apart. -/
theorem of_change {V : Terms} {w : V.World} {F : Store → Store} (h : AgreeBut g s t) (made : Change V w F)
    (drives : ∀ other, V.drives other → g ≠ some other) : AgreeBut g (F s) (F t) := by
  rcases made.blind with ⟨blind, keeps⟩ | ⟨gen, rfl⟩ | ⟨other, f, driven, _, _, rfl⟩
  · exact h.change blind keeps
  · exact h.addGenerator gen
  · exact h.modifyGenerator (drives other driven) f

end AgreeBut

end Store

/-- Nothing has become of the generators that are set apart. -/
def Agreement.Leaves (g : Option GeneratorRef) (s t : Store) : Prop :=
  ∀ own, g = some own → ∀ gen, s.generator? own = some gen → t.generator? own = some gen

/-- Two stores that agree but for a generator, which both of them leave. -/
def Agreement.frame (g : Option GeneratorRef) :
    Frame (.lenient (fun w : { p : Store × Store // p.1.AgreeBut g p.2 } => w.1.1) (fun _ _ _ => True) (g ≠ some ·)
      fun _ _ => False) where
  right w := w.1.2
  le w u := Agreement.Leaves g w.1.1 u.1.1 ∧ Agreement.Leaves g w.1.2 u.1.2
  allows _ _ := True
  refl _ := ⟨fun _ _ _ => id, fun _ _ _ => id⟩
  trans first second := ⟨fun own set gen => second.1 own set gen ∘ first.1 own set gen,
    fun own set gen => second.2 own set gen ∘ first.2 own set gen⟩
  agree w := w.2.same
  agree_size w := w.2.size
  agree_drives {w other} apart := w.2.apart other apart
  agree_head w other := w.2.head other
  drives_idle {w other} idle set := by
    obtain ⟨gen, _, found, _, status, _⟩ := w.2.running other set
    exact idle gen found status
  change {w F} made :=
    have leaves (s : Store) : Agreement.Leaves g s (F s) := fun _ set _ =>
      Store.generator?_of_change made fun _ driven same => driven (same ▸ set)
    ⟨⟨(F w.1.1, F w.1.2), w.2.of_change made fun _ driven => driven⟩, rfl, rfl, leaves _, leaves _⟩
  enclose {w strict scope} made :=
    ⟨⟨(w.1.1.addScope scope, w.1.2.addScope scope), w.2.change (F := (·.addScope scope)) (fun _ _ => rfl) fun _ => rfl⟩,
      rfl, rfl, ⟨fun _ _ _ => id, fun _ _ _ => id⟩, trivial, trivial, fun _ _ _ _ => trivial⟩

/-- The law of runs that cannot tell two stores apart, and leave the generator in which they differ. -/
def Law.agreement (g : Option GeneratorRef) : Law :=
  .ofFrame (Agreement.frame g) (fun _ _ => trivial) (fun _ _ => trivial) (fun _ _ => .rfl) nofun

namespace Agreement

variable {g : Option GeneratorRef} {c : Config} {w : (Law.agreement g).World}

/-- A change that has nothing to do with generators or contexts. -/
theorem modify_obeys {F : Store → Store} (blind : ∀ s gs, F (Store.withGenerators s gs) = (F s).withGenerators gs)
    (keeps : ∀ s, (F s).generators = s.generators) (contexts : ∀ s, (F s).contexts = s.contexts) :
    (Law.agreement g).Obeys c w (Action.modify F) (Action.modify F) (Law.agreement g).any :=
  have leaves (s : Store) : Leaves g s (F s) := fun own _ gen found => by
    rw [Store.generator?, keeps]
    exact found
  have onward : (Law.agreement g).Onward w ⟨(F w.1.1, F w.1.2), w.2.change blind keeps⟩ :=
    .of_generators ⟨leaves _, leaves _⟩ (keeps w.1.1)
  fun _ => ⟨_, .done onward, .value_of (onward.reached (contexts w.1.1)) trivial rfl rfl⟩

/-- Nothing is asked of what statements declare. -/
theorem ready {names : List String} : (Law.agreement g).Ready w names := ⟨trivial, fun _ _ _ _ => trivial⟩

theorem aliases (g : Option GeneratorRef) : (Law.agreement g).Aliases :=
  .of_free (fun _ => trivial) (fun _ _ => trivial) fun _ =>
    modify_obeys (fun _ _ => rfl) (fun _ => rfl) fun _ => rfl

theorem engines {n m : Nat} (le : n ≤ m) : (Law.agreement g).Engines (.ofBudget n) (.ofBudget m) :=
  Law.engines_ofBudget (.of_aliases (aliases g) (fun _ _ _ => trivial) nofun) le

end Agreement

end Ecma
