import CtorArity.Proofs.Findings

/-!
# Lowered dumps

Lowering writes a dump as steps. `outline_lower`: the tables that the steps
build hold the places of the dump in document order, each with its base bound
by name, then the constructors place by place, then the creations.
`starts_lower`: all types are laid out before the first creation, so a body
lists its types before its creations.
-/

namespace CtorArity

open TypeDump

namespace Place

def id (p : Place) : TypeId := .ofIndex p.number

def parent (p : Place) : TypeId := p.around.head?.elim .absent .ofIndex

def ctors (p : Place) : List Ctor := p.type.constructors.map fun c => c.toSpec.bare p.id

end Place

namespace UnitDump

/-- The scope of the types that name none. -/
def ownScope (d : UnitDump) : ScopeId := ⟨d.scope.getD 0⟩

/-- The table entry of a type, its base bound by name. -/
def declOf (d : UnitDump) (p : Place) : TypeDecl :=
  { (p.type.toSpec p.parent).bare d.ownScope with
    base := p.type.base.elim .noBase (bindBase d.allTypes) }

def creationOf (d : UnitDump) (owner : TypeId) (c : CreationDump) : Creation :=
  ⟨bindTarget d.allTypes c.target, c.args, owner, .dummy⟩

/-- All creations with their owners, in the order in which they are declared. -/
def ownedCreations (d : UnitDump) : List (TypeId × CreationDump) :=
  ownedCreationsAll 0 d.types ++ d.creations.map (Handle.absent, ·)

def outline (d : UnitDump) : Outline where
  scope := d.ownScope
  types := d.places.map d.declOf
  ctors := d.places.flatMap (·.ctors)
  creations := d.ownedCreations.map fun entry => d.creationOf entry.1 entry.2

end UnitDump

-- ---------------------------------------------------------------------------
-- What the steps do to an outline
-- ---------------------------------------------------------------------------

namespace TypeDump

theorem foldl_addConstructor (owner : TypeId) (ctors : List CtorDump) (o : Outline) :
    (ctors.map fun c => Step.addConstructor owner c.toSpec).foldl Outline.apply o =
      { o with ctors := o.ctors ++ ctors.map fun c => c.toSpec.bare owner } := by
  induction ctors generalizing o with
  | nil => simp
  | cons c rest ih => simp [ih, Outline.apply]

theorem foldl_declareStepsAll (index : Nat) (around : List Nat) (types : List TypeDump)
    (o : Outline) :
    (declareStepsAll index (around.head?.elim .absent .ofIndex) types).foldl Outline.apply o =
      { o with
        types := o.types ++ (placesAll index around types).map fun p =>
          (p.type.toSpec p.parent).bare o.scope
        ctors := o.ctors ++ (placesAll index around types).flatMap (·.ctors) } := by
  induction types using forest_induction generalizing index around o with
  | nil => simp [declareStepsAll, placesAll]
  | cons t rest ihnested ihrest =>
    have hinside := ihnested (index + 1) (index :: around)
    simp only [List.head?_cons, Option.elim_some] at hinside
    simp [declareStepsAll_cons, placesAll_cons, foldl_addConstructor, hinside, ihrest,
      Outline.apply, Place.ctors, Place.id, Place.parent]

theorem modify_append_cons (l : List α) (a : α) (rest : List α) (f : α → α) :
    (l ++ a :: rest).modify l.length f = l ++ f a :: rest := by
  induction l with
  | nil => rfl
  | cons b l ih => exact congrArg (b :: ·) ih

theorem foldl_baseSteps (decl : α → TypeDecl) (dump : α → TypeDump) (named : List TypeDump)
    (hbase : ∀ a, (decl a).base = .noBase) (l : List α) (o : Outline) (done : List TypeDecl)
    (hsize : done.length + l.length ≤ 0xFFFFFFFF) :
    (((l.map dump).zipIdx done.length).filterMap fun (t, i) =>
        t.base.map fun name => Step.setBase (.ofIndex i) (bindBase named name)).foldl
          Outline.apply { o with types := done ++ l.map decl } =
      { o with types := done ++ l.map fun a =>
        { decl a with base := (dump a).base.elim .noBase (bindBase named) } } := by
  induction l generalizing done with
  | nil => rfl
  | cons a rest ih =>
    have hnext := fun t : TypeDecl => ih (done ++ [t]) (by simp at hsize ⊢; omega)
    simp only [List.length_append, List.length_singleton, List.append_assoc, List.cons_append,
      List.nil_append] at hnext
    cases hname : (dump a).base with
    | none =>
      have hdecl : { decl a with base := .noBase } = decl a := by rw [← hbase a]
      simp only [List.map_cons, List.zipIdx_cons, List.filterMap_cons, hname, Option.map_none,
        Option.elim_none, hdecl]
      exact hnext (decl a)
    | some name =>
      have hindex : (Handle.ofIndex done.length : TypeId).index = done.length :=
        Handle.index_ofIndex (by omega)
      simp only [List.map_cons, List.zipIdx_cons, List.filterMap_cons, hname, Option.map_some,
        Option.elim_some, List.foldl_cons, Outline.apply, hindex, modify_append_cons]
      exact hnext _

theorem foldl_create (named : List TypeDump) (entries : List (TypeId × CreationDump))
    (o : Outline) :
    (entries.map fun entry => creationStep named entry.1 entry.2).foldl Outline.apply o =
      { o with creations := o.creations ++ entries.map fun entry =>
        ⟨bindTarget named entry.2.target, entry.2.args, entry.1, .dummy⟩ } := by
  induction entries generalizing o with
  | nil => simp
  | cons entry rest ih =>
    rw [List.map_cons, List.foldl_cons, ih]
    simp [creationStep, Outline.apply]

end TypeDump

namespace UnitDump

variable {d : UnitDump} {u : CompilationUnit} {p : Place}

theorem map_type_places (d : UnitDump) : d.places.map (·.type) = d.allTypes :=
  map_type_placesAll 0 [] d.types

theorem length_places (d : UnitDump) : d.places.length = countAll d.types :=
  length_placesAll 0 [] d.types

def declared (d : UnitDump) : Outline where
  scope := d.ownScope
  types := d.places.map fun p => (p.type.toSpec p.parent).bare d.ownScope
  ctors := d.places.flatMap (·.ctors)
  creations := []

def bindingSteps (d : UnitDump) : List Step :=
  baseSteps d.allTypes ++ d.ownedCreations.map fun entry =>
    creationStep d.allTypes entry.1 entry.2

def declaringSteps (d : UnitDump) : List Step :=
  (d.scope.map fun scope => Step.withScope ⟨scope⟩).toList ++
    declareStepsAll 0 .absent d.types

theorem steps_eq (d : UnitDump) : d.steps = d.declaringSteps ++ d.bindingSteps := by
  simp [steps, declaringSteps, bindingSteps, ownedCreations]

theorem foldl_declaringSteps (d : UnitDump) :
    d.declaringSteps.foldl Outline.apply (Draft.start d.file).unit.outline = d.declared := by
  have hdeclare := foldl_declareStepsAll 0 [] d.types
  simp only [List.head?_nil, Option.elim_none] at hdeclare
  rw [declaringSteps, List.foldl_append, hdeclare]
  cases h : d.scope <;>
    simp [declared, ownScope, h, Draft.start, CompilationUnit.outline, Outline.apply, places,
      ScopeId.own]

theorem foldl_baseSteps_declared (h : countAll d.types ≤ 0xFFFFFFFF) :
    (baseSteps d.allTypes).foldl Outline.apply d.declared =
      { d.declared with types := d.places.map d.declOf } := by
  have hbase := foldl_baseSteps (fun p : Place => (p.type.toSpec p.parent).bare d.ownScope)
    (·.type) d.allTypes (fun _ => rfl) d.places d.declared [] (by simpa [length_places] using h)
  simp only [List.nil_append, List.length_nil, map_type_places] at hbase
  exact hbase

theorem foldl_bindingSteps (h : countAll d.types ≤ 0xFFFFFFFF) :
    d.bindingSteps.foldl Outline.apply d.declared = d.outline := by
  rw [bindingSteps, List.foldl_append, foldl_create, foldl_baseSteps_declared h]
  rfl

theorem length_types_foldl (steps : List Step) (o : Outline) :
    o.types.length ≤ (steps.foldl Outline.apply o).types.length := by
  induction steps generalizing o with
  | nil => exact Nat.le_refl _
  | cons step rest ih => exact Nat.le_trans (Outline.length_types_apply o step) (ih _)

/-- The tables of a lowered dump. -/
theorem outline_lower (h : d.lower = .ok u) (hu : u.types.size ≤ 0xFFFFFFFF) :
    u.outline = d.outline := by
  obtain ⟨hfaults, -, -, rfl⟩ := Draft.finish_eq_ok.mp h
  have houtline := Draft.outline_run hfaults
  rw [steps_eq, List.foldl_append, foldl_declaringSteps, ← steps_eq] at houtline
  have hsize := length_types_foldl d.bindingSteps d.declared
  rw [← houtline, CompilationUnit.length_outline_types, declared, List.length_map,
    length_places] at hsize
  rw [houtline, foldl_bindingSteps (Nat.le_trans hsize hu)]

end UnitDump

-- ---------------------------------------------------------------------------
-- Types are laid out before creations
-- ---------------------------------------------------------------------------

def Step.declares : Step → Bool
  | .declare _ => true
  | _ => false

def Step.creates : Step → Bool
  | .create .. => true
  | _ => false

namespace Draft

variable {d : Draft} {step : Step}

def typeStarts (d : Draft) : Array UInt32 := d.unit.types.map (·.span.start)

def creationStarts (d : Draft) : Array UInt32 := d.unit.creations.map (·.span.start)

theorem typeStarts_modifyType {f : TypeDecl → TypeDecl}
    (h : ∀ t, (f t).span.start = t.span.start) (id : TypeId) (d : Draft) :
    (d.modifyType id f).typeStarts = d.typeStarts :=
  map_modify (f := fun t : TypeDecl => t.span.start) h d.unit.types id.index

theorem typeStarts_closeOwner (id : TypeId) (d : Draft) :
    (d.closeOwner id).typeStarts = d.typeStarts := by
  rw [closeOwner_eq]
  exact map_reachAll (f := fun t : TypeDecl => t.span.start) (fun _ _ => rfl) d.cursor _ _

theorem starts_addType (t : TypeDecl) (d : Draft) :
    (d.addType t).1.typeStarts = d.typeStarts.push t.span.start ∧
      (d.addType t).1.creationStarts = d.creationStarts ∧ (d.addType t).1.cursor = d.cursor := by
  cases ht : t.parent.isAbsent
  · rw [addType_nested ht]
    refine ⟨?_, ?_, ?_⟩
    · rw [typeStarts_closeOwner, typeStarts_modifyType]
      · simp [typeStarts]
      · exact fun _ => rfl
    all_goals
      rw [closeOwner_eq]
      rfl
  · rw [addType_top ht]
    simp [typeStarts, creationStarts]

theorem starts_addCtor (c : Ctor) (d : Draft) :
    (d.addCtor c).1.typeStarts = d.typeStarts ∧
      (d.addCtor c).1.creationStarts = d.creationStarts ∧ (d.addCtor c).1.cursor = d.cursor := by
  rw [addCtor_eq]
  refine ⟨?_, ?_, ?_⟩
  · rw [typeStarts_closeOwner, typeStarts_modifyType]
    · rfl
    · exact fun _ => rfl
  all_goals
    rw [closeOwner_eq]
    rfl

theorem starts_addCreation (c : Creation) (d : Draft) :
    (d.addCreation c).1.typeStarts = d.typeStarts ∧
      (d.addCreation c).1.creationStarts = d.creationStarts.push c.span.start ∧
      (d.addCreation c).1.cursor = d.cursor := by
  cases hc : c.enclosing.isAbsent
  · rw [addCreation_enclosed hc]
    refine ⟨?_, ?_, ?_⟩
    · rw [typeStarts_closeOwner, typeStarts_modifyType]
      · rfl
      · exact fun _ => rfl
    · rw [closeOwner_eq]
      simp [creationStarts, modifyType]
    · rw [closeOwner_eq]
      rfl
  · rw [addCreation_top hc]
    simp [typeStarts, creationStarts]

/-- What a step lays out starts at the cursor, and nothing else moves. -/
theorem starts_apply (d : Draft) (step : Step) :
    d.cursor ≤ (d.apply step).1.cursor ∧
      ((d.apply step).1.typeStarts = d.typeStarts ∨
        step.declares = true ∧ (d.apply step).1.typeStarts = d.typeStarts.push d.cursor) ∧
      ((d.apply step).1.creationStarts = d.creationStarts ∨
        step.creates = true ∧
          (d.apply step).1.creationStarts = d.creationStarts.push d.cursor) := by
  cases hs : d.unknown? step with
  | some id =>
    rw [apply_of_unknown hs]
    exact ⟨UInt32.le_refl _, .inl rfl, .inl rfl⟩
  | none =>
    cases step with
    | withScope scope => exact ⟨UInt32.le_refl _, .inl rfl, .inl rfl⟩
    | declare spec =>
      obtain ⟨cursor, t, heq, -, -, -, -, hwrites, -⟩ :=
        declare_eq ((unknown?_declare d spec).mp hs)
      obtain ⟨htypes, hcreations, hcursor⟩ := starts_addType t { d with cursor }
      rw [hwrites.start] at htypes
      simp only [apply, heq]
      exact ⟨hcursor ▸ hwrites.le, .inr ⟨rfl, htypes⟩, .inl hcreations⟩
    | setBase id base =>
      simp only [apply, setBase]
      split
      · exact ⟨UInt32.le_refl _, .inl rfl, .inl rfl⟩
      · split
        · refine ⟨UInt32.le_refl _, .inl (typeStarts_modifyType ?_ id d), .inl rfl⟩
          exact fun _ => rfl
        · exact ⟨UInt32.le_refl _, .inl rfl, .inl rfl⟩
    | addConstructor owner spec =>
      obtain ⟨cursor, c, heq, -, hwrites, -⟩ :=
        addConstructor_eq spec ((unknown?_addConstructor d owner spec).mp hs)
      obtain ⟨htypes, hcreations, hcursor⟩ := starts_addCtor c { d with cursor }
      simp only [apply, heq]
      exact ⟨hcursor ▸ hwrites.le, .inl htypes, .inl hcreations⟩
    | create enclosing target argCount =>
      obtain ⟨cursor, c, heq, -, hwrites⟩ := create_eq argCount
        ((unknown?_create d enclosing target argCount).symm.trans hs)
      obtain ⟨htypes, hcreations, hcursor⟩ := starts_addCreation c { d with cursor }
      rw [hwrites.start] at hcreations
      simp only [apply, heq]
      exact ⟨hcursor ▸ hwrites.le, .inl htypes, .inr ⟨rfl, hcreations⟩⟩

/-- No type starts after the cursor, nor after a creation. -/
structure TypesFirst (d : Draft) : Prop where
  cursor : ∀ s ∈ d.typeStarts, s ≤ d.cursor
  creations : ∀ s ∈ d.typeStarts, ∀ c ∈ d.creationStarts, s ≤ c

theorem typeStarts_apply_le (h : ∀ s ∈ d.typeStarts, s ≤ d.cursor) :
    ∀ s ∈ (d.apply step).1.typeStarts, s ≤ d.cursor := by
  intro s hs
  rcases (starts_apply d step).2.1 with htypes | ⟨-, htypes⟩
  · exact h s (htypes ▸ hs)
  · rcases Array.mem_push.mp (htypes ▸ hs) with hs | rfl
    · exact h s hs
    · exact UInt32.le_refl _

theorem TypesFirst.apply (h : d.TypesFirst)
    (hstep : step.declares = true → d.creationStarts = #[]) : (d.apply step).1.TypesFirst := by
  obtain ⟨hle, htypes, hcreations⟩ := starts_apply d step
  have hcursor : ∀ s ∈ (d.apply step).1.typeStarts, s ≤ d.cursor := typeStarts_apply_le h.cursor
  refine ⟨fun s hs => UInt32.le_trans (hcursor s hs) hle, fun s hs c hc => ?_⟩
  have hnew : c = d.cursor → s ≤ c := fun hc => hc ▸ hcursor s hs
  have hold : c ∈ d.creationStarts → s ≤ c := by
    intro hc
    rcases htypes with htypes | ⟨hdeclares, -⟩
    · exact h.creations s (htypes ▸ hs) c hc
    · rw [hstep hdeclares] at hc
      simp at hc
  rcases hcreations with hcreations | ⟨-, hcreations⟩
  · exact hold (hcreations ▸ hc)
  · exact (Array.mem_push.mp (hcreations ▸ hc)).elim hold hnew

theorem TypesFirst.run_declaring {steps : List Step} (h : d.TypesFirst)
    (hempty : d.creationStarts = #[]) (hsteps : ∀ step ∈ steps, step.creates = false) :
    (d.run steps).TypesFirst ∧ (d.run steps).creationStarts = #[] := by
  induction steps generalizing d with
  | nil => exact ⟨h, hempty⟩
  | cons step rest ih =>
    obtain ⟨hstep, hrest⟩ := List.forall_mem_cons.mp hsteps
    refine ih (h.apply fun _ => hempty) ?_ hrest
    rcases (starts_apply d step).2.2 with hc | ⟨hcreates, -⟩
    · rw [hc, hempty]
    · rw [hstep] at hcreates
      cases hcreates

theorem TypesFirst.run_binding {steps : List Step} (h : d.TypesFirst)
    (hsteps : ∀ step ∈ steps, step.declares = false) : (d.run steps).TypesFirst := by
  induction steps generalizing d with
  | nil => exact h
  | cons step rest ih =>
    obtain ⟨hstep, hrest⟩ := List.forall_mem_cons.mp hsteps
    refine ih (h.apply fun hdeclares => ?_) hrest
    rw [hstep] at hdeclares
    cases hdeclares

end Draft

namespace UnitDump

variable {d : UnitDump} {u : CompilationUnit}

theorem creates_declareStepsAll (index : Nat) (parent : TypeId) (types : List TypeDump) :
    ∀ step ∈ declareStepsAll index parent types, step.creates = false := by
  induction types using forest_induction generalizing index parent with
  | nil => simp [declareStepsAll]
  | cons t rest ihnested ihrest =>
    rw [declareStepsAll_cons]
    refine List.forall_mem_cons.mpr ⟨rfl, List.forall_mem_append.mpr
      ⟨List.forall_mem_append.mpr ⟨?_, ihnested _ _⟩, ihrest _ _⟩⟩
    intro step hstep
    obtain ⟨c, -, rfl⟩ := List.mem_map.mp hstep
    rfl

theorem creates_declaringSteps (d : UnitDump) :
    ∀ step ∈ d.declaringSteps, step.creates = false := by
  refine List.forall_mem_append.mpr ⟨?_, creates_declareStepsAll _ _ _⟩
  intro step hstep
  obtain ⟨scope, -, rfl⟩ := Option.map_eq_some_iff.mp (Option.mem_toList.mp hstep)
  rfl

theorem declares_bindingSteps (d : UnitDump) :
    ∀ step ∈ d.bindingSteps, step.declares = false := by
  refine List.forall_mem_append.mpr ⟨?_, ?_⟩
  · intro step hstep
    obtain ⟨⟨t, i⟩, -, hbase⟩ := List.mem_filterMap.mp hstep
    obtain ⟨name, -, rfl⟩ := Option.map_eq_some_iff.mp hbase
    rfl
  · intro step hstep
    obtain ⟨entry, -, rfl⟩ := List.mem_map.mp hstep
    rfl

theorem starts_lower (h : d.lower = .ok u) :
    ∀ t ∈ u.types, ∀ c ∈ u.creations, t.span.start ≤ c.span.start := by
  obtain ⟨-, -, -, rfl⟩ := Draft.finish_eq_ok.mp h
  have hstart : (Draft.start d.file).TypesFirst :=
    ⟨by simp [Draft.typeStarts, Draft.start], by simp [Draft.typeStarts, Draft.start]⟩
  obtain ⟨hfirst, -⟩ := hstart.run_declaring (by simp [Draft.creationStarts, Draft.start])
    d.creates_declaringSteps
  have hrun := hfirst.run_binding d.declares_bindingSteps
  rw [← Draft.run_append, ← steps_eq] at hrun
  intro t ht c hc
  exact hrun.creations _ (Array.mem_map_of_mem ht) _ (Array.mem_map_of_mem hc)

end UnitDump

end CtorArity
