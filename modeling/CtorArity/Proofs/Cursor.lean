import CtorArity.Proofs.Lowering

/-!
# The cursor

What a step declares takes room behind the cursor, so the cursor moves on as long
as there are offsets left. Then there are no more declarations than offsets before
it (`roomy_run`), and what is declared later starts further on
(`typeStarts_run`, `creationStarts_run`).
-/

namespace CtorArity

def Step.adds : Step → Bool
  | .declare _ | .addConstructor .. | .create .. => true
  | .withScope _ | .setBase .. => false

namespace Outline

def size (o : Outline) : Nat := o.types.length + o.ctors.length + o.creations.length

theorem size_apply (o : Outline) (step : Step) :
    (o.apply step).size = o.size + if step.adds then 1 else 0 := by
  cases step with
  | withScope | setBase => simp [apply, size, Step.adds]
  | declare | addConstructor | create =>
    simp only [apply, size, Step.adds, List.length_append, List.length_singleton, if_true]
    omega

end Outline

namespace Draft

variable {d : Draft} {step : Step}

theorem cursor_le_run (d : Draft) (steps : List Step) : d.cursor ≤ (d.run steps).cursor := by
  induction steps generalizing d with
  | nil => exact UInt32.le_refl _
  | cons step rest ih => exact UInt32.le_trans (starts_apply d step).1 (ih _)

-- ---------------------------------------------------------------------------
-- Declarations take room
-- ---------------------------------------------------------------------------

theorem lt_cursor_apply (hs : d.unknown? step = none) (hadds : step.adds = true)
    (hcursor : (d.apply step).1.cursor ≠ 0xFFFFFFFF) : d.cursor < (d.apply step).1.cursor := by
  cases step with
  | withScope | setBase => cases hadds
  | declare spec =>
    obtain ⟨cursor, t, heq, -, -, -, -, hwrites, -⟩ :=
      declare_eq ((unknown?_declare d spec).mp hs)
    obtain ⟨-, -, hmoved⟩ := starts_addType t { d with cursor }
    simp only [apply, heq, hmoved] at hcursor ⊢
    exact hwrites.lt hcursor
  | addConstructor owner spec =>
    obtain ⟨cursor, c, heq, -, hwrites, -⟩ :=
      addConstructor_eq spec ((unknown?_addConstructor d owner spec).mp hs)
    obtain ⟨-, -, hmoved⟩ := starts_addCtor c { d with cursor }
    simp only [apply, heq, hmoved] at hcursor ⊢
    exact hwrites.lt hcursor
  | create enclosing target argCount =>
    obtain ⟨cursor, c, heq, -, hwrites⟩ := create_eq argCount
      ((unknown?_create d enclosing target argCount).symm.trans hs)
    obtain ⟨-, -, hmoved⟩ := starts_addCreation c { d with cursor }
    simp only [apply, heq, hmoved] at hcursor ⊢
    exact hwrites.lt hcursor

/-- There are no more declarations than offsets before the cursor. -/
def Roomy (d : Draft) : Prop :=
  d.cursor ≠ 0xFFFFFFFF → d.unit.outline.size ≤ d.cursor.toNat

theorem roomy_apply (h : d.Roomy) : (d.apply step).1.Roomy := by
  intro hcursor
  have hle := (starts_apply d step).1
  have hsize := h (ne_last_of_le hle hcursor)
  rw [UInt32.le_iff_toNat_le] at hle
  cases hs : d.unknown? step with
  | some id =>
    rw [apply_of_unknown hs]
    exact hsize
  | none =>
    rw [(apply_of_known hs).1, Outline.size_apply]
    split
    · next hadds =>
      have hlt := UInt32.lt_iff_toNat_lt.mp (lt_cursor_apply hs hadds hcursor)
      omega
    · omega

theorem roomy_run (h : d.Roomy) (steps : List Step) : (d.run steps).Roomy :=
  run_of_apply (fun _ _ => roomy_apply) h steps

theorem roomy_start (file : String) : (start file).Roomy := fun _ => Nat.le_refl 0

theorem Roomy.addressable (h : d.Roomy) (hcursor : d.cursor ≠ 0xFFFFFFFF) :
    d.unit.Addressable := by
  have hsize := h hcursor
  have hlt : d.cursor.toNat < 0xFFFFFFFF := by
    have hne : d.cursor.toNat ≠ 0xFFFFFFFF := fun he => hcursor (UInt32.toNat_inj.mp he)
    have := d.cursor.toNat_lt
    omega
  simp only [Outline.size, CompilationUnit.length_outline_types,
    CompilationUnit.length_outline_ctors, CompilationUnit.length_outline_creations] at hsize
  exact ⟨by omega, by omega, by omega⟩

def StartsBehind (d : Draft) : Prop :=
  d.cursor ≠ 0xFFFFFFFF → ∀ s ∈ d.typeStarts, s < d.cursor

theorem startsBehind_apply (h : d.StartsBehind) : (d.apply step).1.StartsBehind := by
  intro hcursor s hs
  obtain ⟨hle, htypes, -⟩ := starts_apply d step
  have hold : s ∈ d.typeStarts → s < (d.apply step).1.cursor := fun hs =>
    UInt32.lt_of_lt_of_le (h (ne_last_of_le hle hcursor) s hs) hle
  cases hunknown : d.unknown? step with
  | some id =>
    rw [apply_of_unknown hunknown] at hs ⊢
    exact h (by rwa [apply_of_unknown hunknown] at hcursor) s hs
  | none =>
    rcases htypes with htypes | ⟨hdeclares, htypes⟩
    · exact hold (htypes ▸ hs)
    · rcases Array.mem_push.mp (htypes ▸ hs) with hs | rfl
      · exact hold hs
      · refine lt_cursor_apply hunknown ?_ hcursor
        cases step <;> simp [Step.declares, Step.adds] at hdeclares ⊢

theorem startsBehind_run (h : d.StartsBehind) (steps : List Step) : (d.run steps).StartsBehind :=
  run_of_apply (fun _ _ => startsBehind_apply) h steps

theorem startsBehind_start (file : String) : (start file).StartsBehind := by
  intro _ s hs
  simp [typeStarts, start] at hs

theorem creations_closeOwner (id : TypeId) (d : Draft) :
    (d.closeOwner id).unit.creations = d.unit.creations := by
  rw [closeOwner_eq]

theorem creations_apply (d : Draft) (step : Step) :
    (d.apply step).1.unit.creations = d.unit.creations ∨
      ∃ c argCount, (d.apply step).1.unit.creations = d.unit.creations.push c ∧
        c.span = Span.ofLength d.cursor (callLength argCount) ∧
        (d.apply step).1.cursor = Saturating.add c.span.stop 1 := by
  cases hs : d.unknown? step with
  | some id =>
    rw [apply_of_unknown hs]
    exact .inl rfl
  | none =>
    cases step with
    | withScope scope => exact .inl rfl
    | declare spec =>
      obtain ⟨cursor, t, heq, -⟩ := declare_eq ((unknown?_declare d spec).mp hs)
      simp only [apply, heq]
      cases ht : t.parent.isAbsent
      · rw [addType_nested ht]
        exact .inl (creations_closeOwner _ _)
      · rw [addType_top ht]
        exact .inl rfl
    | setBase id base =>
      obtain ⟨hbase, hid⟩ := (unknown?_setBase d id base).mp hs
      simp only [apply, setBase, hbase, hid, if_true]
      exact .inl rfl
    | addConstructor owner spec =>
      obtain ⟨cursor, c, heq, -⟩ :=
        addConstructor_eq spec ((unknown?_addConstructor d owner spec).mp hs)
      simp only [apply, heq, addCtor_eq]
      exact .inl (creations_closeOwner _ _)
    | create enclosing target argCount =>
      have hknown := (unknown?_create d enclosing target argCount).symm.trans hs
      let c : Creation := ⟨target, argCount, enclosing, .ofLength d.cursor (callLength argCount)⟩
      have heq : (d.apply (.create enclosing target argCount)).1 =
          ({ d with cursor := Saturating.add c.span.stop 1 }.addCreation c).1 := by
        simp only [apply, create, hknown]
        rfl
      refine .inr ⟨c, argCount, ?_, rfl, ?_⟩ <;> rw [heq] <;> cases hc : c.enclosing.isAbsent
      · rw [addCreation_enclosed hc]
        exact creations_closeOwner _ _
      · rw [addCreation_top hc]
      · rw [addCreation_enclosed hc, closeOwner_eq]
        rfl
      · rw [addCreation_top hc]

theorem start_lt_stop {cursor argCount : UInt32}
    (h : Saturating.add (Span.ofLength cursor (callLength argCount)).stop 1 ≠ 0xFFFFFFFF) :
    (Span.ofLength cursor (callLength argCount)).start <
      (Span.ofLength cursor (callLength argCount)).stop := by
  have hstop := UInt32.lt_iff_toNat_lt.mp (Saturating.lt_add_one h)
  have hlast : (0xFFFFFFFF : UInt32).toNat = 0xFFFFFFFF := rfl
  have hsix : (6 : UInt32).toNat = 6 := rfl
  rw [UInt32.lt_iff_toNat_lt]
  simp only [Span.ofLength, callLength, Saturating.toNat_add, hsix] at hstop ⊢
  omega

def CreationsTakeRoom (d : Draft) : Prop :=
  d.cursor ≠ 0xFFFFFFFF → ∀ c ∈ d.unit.creations, c.span.start < c.span.stop

theorem creationsTakeRoom_apply (h : d.CreationsTakeRoom) :
    (d.apply step).1.CreationsTakeRoom := by
  intro hcursor c hc
  have hold := h (ne_last_of_le (starts_apply d step).1 hcursor)
  rcases creations_apply d step with hsame | ⟨new, argCount, hpush, hspan, hmoved⟩
  · exact hold c (hsame ▸ hc)
  · rcases Array.mem_push.mp (hpush ▸ hc) with hc | rfl
    · exact hold c hc
    · rw [hmoved, hspan] at hcursor
      rw [hspan]
      exact start_lt_stop hcursor

theorem creationsTakeRoom_run (h : d.CreationsTakeRoom) (steps : List Step) :
    (d.run steps).CreationsTakeRoom :=
  run_of_apply (fun _ _ => creationsTakeRoom_apply) h steps

theorem creationsTakeRoom_start (file : String) : (start file).CreationsTakeRoom := by
  intro _ c hc
  simp [start] at hc

-- ---------------------------------------------------------------------------
-- What comes later starts further on
-- ---------------------------------------------------------------------------

theorem starts_run {starts : Draft → Array UInt32}
    (hstep : ∀ d step, starts (d.apply step).1 = starts d ∨
      starts (d.apply step).1 = (starts d).push d.cursor) (d : Draft) (steps : List Step) :
    ∃ later, starts (d.run steps) = starts d ++ later ∧ ∀ s ∈ later, d.cursor ≤ s := by
  induction steps generalizing d with
  | nil => exact ⟨#[], by simp [run], by simp⟩
  | cons step rest ih =>
    obtain ⟨later, hlater, hle⟩ := ih (d.apply step).1
    have hcursor := (starts_apply d step).1
    have hle' : ∀ s ∈ later, d.cursor ≤ s := fun s hs => UInt32.le_trans hcursor (hle s hs)
    rcases hstep d step with hsame | hpush
    · exact ⟨later, by rw [← hsame]; exact hlater, hle'⟩
    · refine ⟨#[d.cursor] ++ later, ?_, ?_⟩
      · rw [← Array.append_assoc, Array.append_singleton, ← hpush]
        exact hlater
      · intro s hs
        rcases Array.mem_append.mp hs with hs | hs
        · rw [Array.mem_singleton.mp hs]
          exact UInt32.le_refl _
        · exact hle' s hs

theorem typeStarts_run (d : Draft) (steps : List Step) :
    ∃ later, (d.run steps).typeStarts = d.typeStarts ++ later ∧ ∀ s ∈ later, d.cursor ≤ s :=
  starts_run (fun d step => (starts_apply d step).2.1.imp_right And.right) d steps

theorem typeStarts_run_binding {steps : List Step}
    (h : ∀ step ∈ steps, step.declares = false) (d : Draft) :
    (d.run steps).typeStarts = d.typeStarts := by
  induction steps generalizing d with
  | nil => rfl
  | cons step rest ih =>
    obtain ⟨hstep, hrest⟩ := List.forall_mem_cons.mp h
    refine (ih hrest _).trans ((starts_apply d step).2.1.resolve_right ?_)
    rw [hstep]
    exact fun hdeclares => Bool.false_ne_true hdeclares.1

theorem creationStarts_run (d : Draft) (steps : List Step) :
    ∃ later, (d.run steps).creationStarts = d.creationStarts ++ later ∧
      ∀ s ∈ later, d.cursor ≤ s :=
  starts_run (fun d step => (starts_apply d step).2.2.imp_right And.right) d steps

end Draft

namespace UnitDump

variable {d : UnitDump} {u : CompilationUnit}

/-- The draft after some first steps. -/
def draftAt (d : UnitDump) (first : List Step) : Draft := (Draft.start d.file).run first

def typed (d : UnitDump) : Draft := d.draftAt d.declaringSteps

theorem creationStarts_typed (d : UnitDump) : d.typed.creationStarts = #[] := by
  have hstart : (Draft.start d.file).TypesFirst :=
    ⟨by simp [Draft.typeStarts, Draft.start], by simp [Draft.typeStarts, Draft.start]⟩
  exact (hstart.run_declaring (by simp [Draft.creationStarts, Draft.start])
    d.creates_declaringSteps).2

theorem unit_eq_run_typed (h : d.lower = .ok u) : (d.typed.run d.bindingSteps).unit = u := by
  obtain ⟨-, -, -, hunit⟩ := Draft.finish_eq_ok.mp h
  rw [typed, draftAt, ← Draft.run_append, ← steps_eq]
  exact hunit

/-- No creation starts before the cursor of the draft in which all types are declared. -/
theorem cursor_typed_le (h : d.lower = .ok u) :
    ∀ c ∈ u.creations, d.typed.cursor ≤ c.span.start := by
  obtain ⟨later, hlater, hle⟩ := Draft.creationStarts_run d.typed d.bindingSteps
  rw [creationStarts_typed, Array.empty_append] at hlater
  intro c hc
  refine hle _ (hlater ▸ Array.mem_map_of_mem (f := fun c : Creation => c.span.start) ?_)
  rwa [unit_eq_run_typed h]

/-- If there are more types than handles, the creations of a lowered dump all start
at the last offset. -/
theorem start_eq_last (h : d.lower = .ok u) (hsize : 0xFFFFFFFF < u.types.size) :
    ∀ c ∈ u.creations, c.span.start = 0xFFFFFFFF := by
  have htypes : u.types.size = d.typed.unit.types.size := by
    have hstarts := Draft.typeStarts_run_binding d.declares_bindingSteps d.typed
    have hsizes := congrArg Array.size hstarts
    simpa [Draft.typeStarts, unit_eq_run_typed h] using hsizes
  have hcursor : d.typed.cursor = 0xFFFFFFFF := by
    by_contra hne
    have haddr := (Draft.roomy_run (Draft.roomy_start d.file) d.declaringSteps).addressable hne
    have hlt : d.typed.unit.types.size < 0xFFFFFFFF := haddr.types
    omega
  intro c hc
  by_contra hne
  exact ne_last_of_le (cursor_typed_le h c hc) hne hcursor

end UnitDump

end CtorArity
