import CtorArity.Proofs.Programs

/-!
# Late bases

The base of a type can be given at any time after the type and the base are
declared. No step reads a base, and what a step adds to a type or does to its
span it does whatever the base is, so giving a base and a step that gives none
can trade places (`apply_rebase`). A program whose handles are known therefore
comes to the same draft if all its bases are given at its end.
-/

namespace CtorArity

namespace Step

def binds : Step → Bool
  | .setBase .. => true
  | .withScope _ | .declare _ | .addConstructor .. | .create .. => false

/-- The steps that give bases moved behind all others; each of the two kinds
stays in its order. -/
def bindingLast (steps : List Step) : List Step :=
  steps.filter (!·.binds) ++ steps.filter (·.binds)

end Step

open Step

def TypeDecl.withBase (base : BaseBinding) (t : TypeDecl) : TypeDecl := { t with base := base }

-- ---------------------------------------------------------------------------
-- What a draft says once a type has another base
-- ---------------------------------------------------------------------------

namespace Draft

variable {id : TypeId} {base : BaseBinding} {d : Draft} {step : Step}

def rebase (id : TypeId) (base : BaseBinding) (d : Draft) : Draft :=
  d.modifyType id (·.withBase base)

theorem apply_setBase (h : d.unknown? (.setBase id base) = none) :
    (d.apply (.setBase id base)).1 = d.rebase id base := by
  obtain ⟨hbase, hid⟩ := (unknown?_setBase d id base).mp h
  simp only [apply, setBase, hbase, hid, if_true]
  rfl

theorem size_types_rebase : (d.rebase id base).unit.types.size = d.unit.types.size :=
  Array.size_modify

theorem map_type?_rebase {f : TypeDecl → β} (hbase : ∀ t, f (t.withBase base) = f t)
    (owner : TypeId) :
    ((d.rebase id base).unit.type? owner).map f = (d.unit.type? owner).map f := by
  have hentry := congrArg (·[owner.index]?) (map_modify hbase d.unit.types id.index)
  simp only [Array.getElem?_map] at hentry
  simp only [CompilationUnit.type?]
  split
  · rfl
  · exact hentry

theorem knows_rebase : (d.rebase id base).knows = d.knows := by
  funext owner
  have hentry : ((d.rebase id base).unit.type? owner).map (fun _ => ()) =
      (d.unit.type? owner).map fun _ => () := map_type?_rebase (fun _ => rfl) owner
  simpa [knows] using congrArg Option.isSome hentry

theorem ancestorsAndSelf_rebase (owner : TypeId) :
    (d.rebase id base).unit.ancestorsAndSelf owner = d.unit.ancestorsAndSelf owner := by
  rw [CompilationUnit.ancestorsAndSelf, size_types_rebase]
  exact CompilationUnit.ancestorsWithin_congr
    (map_type?_rebase (f := (·.parent)) fun _ => rfl) _ owner

-- ---------------------------------------------------------------------------
-- No step reads a base
-- ---------------------------------------------------------------------------

theorem modifyType_rebase {f : TypeDecl → TypeDecl}
    (hf : ∀ t, f (t.withBase base) = (f t).withBase base) (owner : TypeId) (d : Draft) :
    (d.rebase id base).modifyType owner f = (d.modifyType owner f).rebase id base := by
  have htypes := modify_comm (fun t => (hf t).symm) d.unit.types id.index owner.index
  simp only [rebase, modifyType, htypes]

theorem closeOwner_rebase (owner : TypeId) (d : Draft) :
    (d.rebase id base).closeOwner owner = (d.closeOwner owner).rebase id base := by
  rw [closeOwner, closeOwner, ancestorsAndSelf_rebase]
  generalize d.unit.ancestorsAndSelf owner = owners
  induction owners generalizing d with
  | nil => rfl
  | cons outer rest ih =>
    have houter : (d.rebase id base).modifyType outer (reach d.cursor) = _ :=
      modifyType_rebase (f := reach d.cursor) (fun _ => rfl) outer d
    exact (congrArg (rest.foldl _) houter).trans (ih _)

theorem owned_rebase {f : TypeDecl → TypeDecl}
    (hf : ∀ t, f (t.withBase base) = (f t).withBase base) {owner : TypeId} :
    ((d.rebase id base).modifyType owner f).closeOwner owner =
      ((d.modifyType owner f).closeOwner owner).rebase id base := by
  rw [modifyType_rebase hf, closeOwner_rebase]

theorem pushType_rebase (t : TypeDecl) (h : d.knows id = true) :
    (d.rebase id base).unit.types.push t =
      (d.unit.types.push t).modify id.index (·.withBase base) := by
  obtain ⟨-, hsize⟩ := names_iff_knows.mpr h
  rw [CompilationUnit.length_outline_types] at hsize
  exact modify_push d.unit.types t hsize

theorem addType_rebase (t : TypeDecl) (h : d.knows id = true) :
    (d.rebase id base).addType t = ((d.addType t).1.rebase id base, (d.addType t).2) := by
  cases ht : t.parent.isAbsent
  · rw [addType_nested ht, addType_nested ht, pushType_rebase t h, size_types_rebase]
    refine Prod.ext (owned_rebase
      (d := { d with unit := { d.unit with types := d.unit.types.push t } }) ?_) rfl
    exact fun _ => rfl
  · rw [addType_top ht, addType_top ht, pushType_rebase t h, size_types_rebase]
    rfl

theorem addCtor_rebase (c : Ctor) (d : Draft) :
    (d.rebase id base).addCtor c = ((d.addCtor c).1.rebase id base, (d.addCtor c).2) := by
  refine Prod.ext (owned_rebase
    (d := { d with unit := { d.unit with ctors := d.unit.ctors.push c } }) ?_) rfl
  exact fun _ => rfl

theorem addCreation_rebase (c : Creation) (d : Draft) :
    (d.rebase id base).addCreation c =
      ((d.addCreation c).1.rebase id base, (d.addCreation c).2) := by
  cases hc : c.enclosing.isAbsent
  · rw [addCreation_enclosed hc, addCreation_enclosed hc]
    refine Prod.ext (owned_rebase
      (d := { d with unit := { d.unit with creations := d.unit.creations.push c } }) ?_) rfl
    exact fun _ => rfl
  · rw [addCreation_top hc, addCreation_top hc]
    rfl

theorem declare_rebase (spec : TypeSpec) (h : d.knows id = true) :
    (d.rebase id base).declare spec =
      ((d.declare spec).1.rebase id base, (d.declare spec).2) := by
  simp only [declare, knows_rebase]
  split
  · exact addType_rebase (d := ((d.advance 5).2.advance (textLength spec.name)).2) _ h
  · rfl

theorem addConstructor_rebase (owner : TypeId) (spec : CtorSpec) (d : Draft) :
    (d.rebase id base).addConstructor owner spec =
      ((d.addConstructor owner spec).1.rebase id base, (d.addConstructor owner spec).2) := by
  have hname : ((d.rebase id base).unit.type? owner).map (·.name) =
      (d.unit.type? owner).map (·.name) := map_type?_rebase (fun _ => rfl) owner
  simp only [addConstructor]
  cases ht : d.unit.type? owner with
  | none =>
    rw [ht, Option.map_none, Option.map_eq_none_iff] at hname
    rw [hname]
    rfl
  | some t =>
    rw [ht, Option.map_some, Option.map_eq_some_iff] at hname
    obtain ⟨t', ht', hname⟩ := hname
    simp only [ht', hname, layInitializer]
    cases spec.initializer with
    | none => exact addCtor_rebase _ ((d.advance _).2.advance 2).2
    | some clause => exact addCtor_rebase _ (((d.advance _).2.advance _).2.advance 2).2

theorem create_rebase (enclosing : TypeId) (target : CreationTarget) (argCount : UInt32)
    (d : Draft) : (d.rebase id base).create enclosing target argCount =
      ((d.create enclosing target argCount).1.rebase id base,
        (d.create enclosing target argCount).2) := by
  simp only [create, unknownIn, knows_rebase]
  split
  · rfl
  · exact addCreation_rebase _ (d.advance (callLength argCount)).2

/-- Giving a base to a known type can wait until after a step that gives none. -/
theorem apply_rebase (hid : d.knows id = true) (hstep : step.binds = false) :
    (d.rebase id base).apply step = ((d.apply step).1.rebase id base, (d.apply step).2) := by
  cases step with
  | withScope scope => rfl
  | declare spec => simp only [apply, declare_rebase spec hid]
  | setBase owner other => cases hstep
  | addConstructor owner spec => simp only [apply, addConstructor_rebase]
  | create enclosing target argCount => simp only [apply, create_rebase]

-- ---------------------------------------------------------------------------
-- Runs
-- ---------------------------------------------------------------------------

theorem run_rebase {steps : List Step} (hid : d.knows id = true)
    (hsteps : ∀ step ∈ steps, step.binds = false) :
    (d.rebase id base).run steps = (d.run steps).rebase id base := by
  induction steps generalizing d with
  | nil => rfl
  | cons step rest ih =>
    obtain ⟨hstep, hrest⟩ := List.forall_mem_cons.mp hsteps
    calc (d.rebase id base).run (step :: rest)
        = ((d.apply step).1.rebase id base).run rest := by
          rw [run, List.foldl_cons, apply_rebase hid hstep]
          rfl
      _ = (d.run (step :: rest)).rebase id base := ih (knows_apply hid) hrest

theorem unknown?_run (h : d.unknown? step = none) (steps : List Step) :
    (d.run steps).unknown? step = none := by
  simp only [unknown?, List.find?_eq_none, Bool.not_eq_true', Bool.not_eq_false] at h ⊢
  exact fun used hused => run_of_apply (P := fun d => d.knows used = true)
    (fun _ _ => knows_apply) (h used hused) steps

theorem run_bindingLast {steps : List Step} (h : (d.run steps).faults = d.faults) :
    d.run (bindingLast steps) = d.run steps := by
  induction steps generalizing d with
  | nil => rfl
  | cons step rest ih =>
    obtain ⟨hknown, hrest⟩ := known_of_run h
    have hlast := ih hrest
    cases step with
    | setBase id base =>
      -- The base is given before the other steps, and `run_rebase` takes it behind them.
      have hplain : ∀ step ∈ rest.filter (!·.binds), step.binds = false := fun step hstep => by
        simpa using (List.mem_filter.mp hstep).2
      have hid := ((unknown?_setBase d id base).mp hknown).2
      calc d.run (bindingLast (.setBase id base :: rest))
          = ((d.run (rest.filter (!·.binds))).apply (.setBase id base)).1.run
              (rest.filter (·.binds)) := run_append _ _ _
        _ = ((d.rebase id base).run (rest.filter (!·.binds))).run (rest.filter (·.binds)) := by
            rw [apply_setBase (unknown?_run hknown _), run_rebase hid hplain]
        _ = (d.rebase id base).run (bindingLast rest) := (run_append _ _ _).symm
        _ = (d.rebase id base).run rest := by rw [← apply_setBase hknown, hlast]
        _ = d.run (.setBase id base :: rest) := by rw [← apply_setBase hknown]; rfl
    | withScope | declare | addConstructor | create => exact hlast

/-- A program that knows its handles comes to the same unit or the same error
if it gives all bases at its end. -/
theorem finish_bindingLast {steps : List Step} (file : String) (h : Sound steps) :
    (after file (bindingLast steps)).finish = (after file steps).finish :=
  congrArg finish (run_bindingLast ((sound_iff file).mp h))

def rebound : List Step :=
  [.topClass "A", .topClass "B", .extending ⟨1⟩ ⟨0⟩,
    .addConstructor ⟨1⟩ { params := [⟨"p", true, false⟩], initializer := some (.base, 1) },
    .extendingExternal ⟨1⟩, .nestedClass ⟨1⟩ "C", .extending ⟨2⟩ ⟨1⟩, .instantiating ⟨2⟩ ⟨0⟩ 3,
    .extending ⟨1⟩ ⟨0⟩, .addConstructor ⟨2⟩ {}]

theorem finish_bindingLast_rebound :
    Sound rebound ∧ bindingLast rebound ≠ rebound ∧
      (after "a.cs" rebound).finish = .ok (after "a.cs" rebound).unit ∧
      (after "a.cs" (bindingLast rebound)).finish = (after "a.cs" rebound).finish :=
  have hsound : Sound rebound := (sound_iff "a.cs").mpr (by decide)
  ⟨hsound, by decide, rfl, finish_bindingLast "a.cs" hsound⟩

-- A base that comes too early for its type is a fault, which it is not at the end.
example : (after "a.cs" [.topClass "A", .extending ⟨1⟩ ⟨0⟩, .topClass "B"]).faults ≠
    (after "a.cs" (bindingLast [.topClass "A", .extending ⟨1⟩ ⟨0⟩, .topClass "B"])).faults := by
  decide

end Draft

end CtorArity
