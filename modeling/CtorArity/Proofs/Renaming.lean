import CtorArity.Proofs.Admission
import Mathlib.Logic.Equiv.Basic

/-!
# Renamed dumps

A renaming that keeps names apart changes the names of a dump, and with them the
length of the text and every offset in it. The steps of the renamed dump are those
of the dump with other names for the types that they declare (`steps_rename`), so
both dumps have the same tables but for names (`exists_lower_rename`).
-/

namespace CtorArity

open TypeDump

/-- Different names stay different, and only those of the root class become such
names. -/
structure RenamesApart (r : String → String) : Prop where
  injective : Function.Injective r
  roots : ∀ name, r name ∈ rootNames ↔ name ∈ rootNames

theorem RenamesApart.comp {r s : String → String} (hr : RenamesApart r) (hs : RenamesApart s) :
    RenamesApart (r ∘ s) where
  injective := hr.injective.comp hs.injective
  roots name := (hr.roots (s name)).trans (hs.roots name)

theorem renamesApart_swap {a b : String} (h : a ∈ rootNames ↔ b ∈ rootNames) :
    RenamesApart (Equiv.swap a b) where
  injective := (Equiv.swap a b).injective
  roots name := by
    by_cases ha : name = a
    · rw [ha, Equiv.swap_apply_left]
      exact h.symm
    · by_cases hb : name = b
      · rw [hb, Equiv.swap_apply_right]
        exact h
      · rw [Equiv.swap_apply_of_ne_of_ne ha hb]

variable {r : String → String}

-- ---------------------------------------------------------------------------
-- Dumps and their steps
-- ---------------------------------------------------------------------------

def CreationDump.rename (r : String → String) (c : CreationDump) : CreationDump :=
  { c with target := r c.target }

namespace TypeDump

mutual

/-- The type with other names for it and for what is inside it, and for the bases
and targets there. -/
def rename (r : String → String) : TypeDump → TypeDump
  | ⟨name, kind, modifiers, base, scope, constructors, nested, creations⟩ =>
    ⟨r name, kind, modifiers, base.map r, scope, constructors, renameAll r nested,
      creations.map (·.rename r)⟩

def renameAll (r : String → String) : List TypeDump → List TypeDump
  | [] => []
  | t :: rest => rename r t :: renameAll r rest

end

theorem rename_eq (r : String → String) (t : TypeDump) : rename r t =
    { t with
      name := r t.name
      base := t.base.map r
      nested := renameAll r t.nested
      creations := t.creations.map (·.rename r) } := by
  cases t
  rfl

theorem preorderAll_renameAll (types : List TypeDump) :
    preorderAll (renameAll r types) = (preorderAll types).map (rename r) := by
  induction types using forest_induction with
  | nil => rfl
  | cons t rest ihnested ihrest =>
    have hnested : (rename r t).nested = renameAll r t.nested := by rw [rename_eq]
    rw [renameAll, preorderAll_cons, preorderAll_cons, hnested, ihnested, ihrest, List.map_cons,
      List.map_append]

theorem countAll_renameAll (types : List TypeDump) :
    countAll (renameAll r types) = countAll types := by
  rw [← length_preorderAll, preorderAll_renameAll, List.length_map, length_preorderAll]

theorem count_rename (t : TypeDump) : (rename r t).count = t.count := by
  rw [rename_eq, count_eq, count_eq, countAll_renameAll]

theorem ownedCreationsAll_renameAll (number : Nat) (types : List TypeDump) :
    ownedCreationsAll number (renameAll r types) =
      (ownedCreationsAll number types).map fun entry => (entry.1, entry.2.rename r) := by
  induction types using forest_induction generalizing number with
  | nil => rfl
  | cons t rest ihnested ihrest =>
    have hnested : (rename r t).nested = renameAll r t.nested := by rw [rename_eq]
    have hcreations : (rename r t).creations = t.creations.map (·.rename r) := by rw [rename_eq]
    simp [renameAll, ownedCreationsAll_cons, count_rename, hnested, hcreations, ihnested, ihrest]

theorem declared?_rename (hr : RenamesApart r) (types : List TypeDump) (name : String) :
    declared? (types.map (rename r)) (r name) = declared? types name := by
  have hname : ((fun t : TypeDump => t.name == r name) ∘ rename r) = fun t => t.name == name := by
    funext t
    rw [Function.comp_apply, rename_eq, Bool.eq_iff_iff, beq_iff_eq, beq_iff_eq]
    exact hr.injective.eq_iff
  rw [declared?, declared?, List.findIdx?_map, hname]

theorem bindBase_rename (hr : RenamesApart r) (types : List TypeDump) (name : String) :
    bindBase (types.map (rename r)) (r name) = bindBase types name := by
  have hroot : rootNames.contains (r name) = rootNames.contains name := by
    rw [Bool.eq_iff_iff, List.contains_iff_mem, List.contains_iff_mem]
    exact hr.roots name
  rw [bindBase, bindBase, declared?_rename hr, hroot]

theorem baseSteps_rename (hr : RenamesApart r) (types : List TypeDump) :
    baseSteps (types.map (rename r)) = baseSteps types := by
  have hbase : ∀ entry : TypeDump × Nat,
      ((rename r entry.1).base.map fun name =>
        Step.setBase (.ofIndex entry.2) (bindBase (types.map (rename r)) name)) =
      entry.1.base.map fun name => Step.setBase (.ofIndex entry.2) (bindBase types name) := by
    intro entry
    rw [rename_eq, Option.map_map]
    simp only [Function.comp_def, bindBase_rename hr]
  rw [baseSteps, List.zipIdx_map, List.filterMap_map]
  exact List.filterMap_congr fun entry _ => hbase entry

theorem creationStep_rename (hr : RenamesApart r) (types : List TypeDump) (owner : TypeId)
    (c : CreationDump) :
    creationStep (types.map (rename r)) owner (c.rename r) = creationStep types owner c := by
  rw [creationStep, creationStep, bindTarget, bindTarget, CreationDump.rename,
    declared?_rename hr]

end TypeDump

def Step.rename (r : String → String) : Step → Step
  | .declare spec => .declare { spec with name := r spec.name }
  | step => step

theorem TypeDump.declareStepsAll_renameAll (index : Nat) (parent : TypeId)
    (types : List TypeDump) : declareStepsAll index parent (renameAll r types) =
      (declareStepsAll index parent types).map (·.rename r) := by
  induction types using forest_induction generalizing index parent with
  | nil => rfl
  | cons t rest ihnested ihrest =>
    have hnested : (TypeDump.rename r t).nested = renameAll r t.nested := by rw [rename_eq]
    have hctors : (TypeDump.rename r t).constructors = t.constructors := by rw [rename_eq]
    have hspec : (TypeDump.rename r t).toSpec parent =
        { t.toSpec parent with name := r t.name } := by
      rw [rename_eq]
      rfl
    rw [renameAll, declareStepsAll_cons, declareStepsAll_cons, count_rename, hnested, hctors,
      hspec, ihnested, ihrest]
    simp [Step.rename, toSpec]

namespace UnitDump

def rename (r : String → String) (d : UnitDump) : UnitDump :=
  { d with types := renameAll r d.types, creations := d.creations.map (·.rename r) }

theorem allTypes_rename (d : UnitDump) :
    (d.rename r).allTypes = d.allTypes.map (TypeDump.rename r) :=
  preorderAll_renameAll d.types

theorem ownedCreations_rename (d : UnitDump) : (d.rename r).ownedCreations =
    d.ownedCreations.map fun entry => (entry.1, entry.2.rename r) := by
  simp [ownedCreations, rename, ownedCreationsAll_renameAll]

theorem bindingSteps_rename (hr : RenamesApart r) (d : UnitDump) :
    (d.rename r).bindingSteps = d.bindingSteps := by
  simp only [bindingSteps, allTypes_rename, baseSteps_rename hr, ownedCreations_rename,
    List.map_map, Function.comp_def, creationStep_rename hr]

/-- A renamed dump is written with the same steps, but for the names of types. -/
theorem steps_rename (hr : RenamesApart r) (d : UnitDump) :
    (d.rename r).steps = d.steps.map (·.rename r) := by
  have hbinding : ∀ step ∈ d.bindingSteps, step.rename r = step := by
    intro step hstep
    have hdeclares := d.declares_bindingSteps step hstep
    cases step with
    | declare => cases hdeclares
    | withScope | setBase | addConstructor | create => rfl
  have hdeclaring : (d.rename r).declaringSteps = d.declaringSteps.map (·.rename r) := by
    rw [declaringSteps, declaringSteps, rename, declareStepsAll_renameAll]
    cases d.scope <;> simp [Step.rename]
  rw [steps_eq, steps_eq, List.map_append, bindingSteps_rename hr, hdeclaring,
    List.map_congr_left hbinding, List.map_id']

end UnitDump

-- ---------------------------------------------------------------------------
-- Tables that differ in names only
-- ---------------------------------------------------------------------------

def TypeDecl.rename (r : String → String) (t : TypeDecl) : TypeDecl := { t with name := r t.name }

namespace Outline

variable {o : Outline}

def rename (r : String → String) (o : Outline) : Outline :=
  { o with types := o.types.map (·.rename r) }

theorem rename_apply (o : Outline) (step : Step) :
    (o.rename r).apply (step.rename r) = (o.apply step).rename r := by
  cases step with
  | declare spec => simp [rename, apply, Step.rename, TypeSpec.bare, TypeDecl.rename]
  | setBase id base =>
    have hmodify : (o.types.map (·.rename r)).modify id.index (fun t => { t with base := base }) =
        (o.types.modify id.index fun t => { t with base := base }).map (·.rename r) := by
      refine List.ext_getElem? fun i => ?_
      simp only [List.getElem?_modify, List.getElem?_map]
      cases o.types[i]? with
      | none => rfl
      | some t => by_cases hi : id.index = i <;> simp [hi, TypeDecl.rename]
    exact congrArg (fun types => { o with types }) hmodify
  | withScope | addConstructor | create => rfl

theorem names_rename {id : TypeId} : (o.rename r).Names id ↔ o.Names id := by
  rw [Names, Names, rename, List.length_map]

theorem contents_rename (o : Outline) (owner : TypeId) :
    (o.rename r).contents owner = o.contents owner := by
  simp only [contents, rename, handlesWhere_map]
  rfl

end Outline

theorem Step.handles_rename (step : Step) : (step.rename r).handles = step.handles := by
  cases step <;> rfl

namespace Draft

variable {d d' : Draft}

/-- The second draft has come as far as the first one, under other names. -/
structure Renamed (r : String → String) (d d' : Draft) : Prop where
  outline : d'.unit.outline = d.unit.outline.rename r
  faults : d'.faults = d.faults

theorem unknown?_rename (h : d.Renamed r d') (step : Step) :
    d'.unknown? (step.rename r) = d.unknown? step := by
  have hknows : ∀ id, d'.knows id = d.knows id := by
    intro id
    rw [Bool.eq_iff_iff, ← names_iff_knows, ← names_iff_knows, h.outline, Outline.names_rename]
  simp only [unknown?, Step.handles_rename, hknows]

theorem renamed_apply (h : d.Renamed r d') (step : Step) :
    (d.apply step).1.Renamed r (d'.apply (step.rename r)).1 where
  outline := by
    have hunknown := unknown?_rename h step
    cases hs : d.unknown? step with
    | some id =>
      rw [apply_of_unknown hs, apply_of_unknown (hunknown.trans hs)]
      exact h.outline
    | none =>
      rw [(apply_of_known hs).1, (apply_of_known (hunknown.trans hs)).1, h.outline,
        Outline.rename_apply]
  faults := by rw [faults_apply, faults_apply, unknown?_rename h, h.faults]

theorem renamed_run (h : d.Renamed r d') (steps : List Step) :
    (d.run steps).Renamed r (d'.run (steps.map (·.rename r))) := by
  induction steps generalizing d d' with
  | nil => exact h
  | cons step rest ih => exact ih (renamed_apply h step)

end Draft

namespace CompilationUnit

variable {u u' : CompilationUnit}

theorem faultless_of_renamed (houtline : u'.outline = u.outline.rename r)
    (hctor : u.ctorFault? = none) (hbase : u.baseFault? = none) :
    u'.ctorFault? = none ∧ u'.baseFault? = none := by
  rw [← Option.not_isSome_iff_eq_none, isSome_ctorFault?] at hctor ⊢
  rw [← Option.not_isSome_iff_eq_none, isSome_baseFault?] at hbase ⊢
  rw [houtline]
  refine ⟨hctor, ?_⟩
  rintro ⟨i, _, ht, hself⟩
  simp only [Outline.rename, List.getElem?_map, Option.map_eq_some_iff] at ht
  obtain ⟨t, ht, rfl⟩ := ht
  exact hbase ⟨i, t, ht, hself⟩

end CompilationUnit

theorem UnitDump.exists_lower_rename {d : UnitDump} {u : CompilationUnit} (hr : RenamesApart r)
    (h : d.lower = .ok u) :
    ∃ u', (d.rename r).lower = .ok u' ∧ u'.outline = u.outline.rename r := by
  obtain ⟨hfaults, hctor, hbase, rfl⟩ := Draft.finish_eq_ok.mp h
  have hstart : (Draft.start d.file).Renamed r (Draft.start d.file) := ⟨rfl, rfl⟩
  have hrun := Draft.renamed_run hstart d.steps
  rw [← steps_rename hr] at hrun
  obtain ⟨hctor', hbase'⟩ := CompilationUnit.faultless_of_renamed hrun.outline hctor hbase
  exact ⟨_, Draft.finish_eq_ok.mpr ⟨hrun.faults.trans hfaults, hctor', hbase', rfl⟩,
    hrun.outline⟩

end CtorArity
