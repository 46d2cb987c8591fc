import CtorArity.Proofs.Admission

/-!
# What a lowered unit holds

The tables of a lowered dump say what the tree says: the types in document
order, the constructors and nested types under them, and the creations of a
body after those of the types inside it. Names of bases and targets have become
handles, those of the first types of these names. `lower_renders`: lowering
either fails for a reason that shows in the tree, or gives such a unit.
-/

namespace CtorArity

open TypeDump CompilationUnit

-- ---------------------------------------------------------------------------
-- The order of creations
-- ---------------------------------------------------------------------------

namespace TypeDump

mutual

def innerFirstOf (number : Nat) (around : List Nat) : TypeDump → List Place
  | t@⟨_, _, _, _, _, _, nested, _⟩ =>
    innerFirstAll (number + 1) (number :: around) nested ++ [⟨number, around, t⟩]

def innerFirstAll (number : Nat) (around : List Nat) : List TypeDump → List Place
  | [] => []
  | t :: rest => innerFirstOf number around t ++ innerFirstAll (number + count t) around rest

end

theorem innerFirstAll_cons (number : Nat) (around : List Nat) (t : TypeDump)
    (rest : List TypeDump) : innerFirstAll number around (t :: rest) =
      innerFirstAll (number + 1) (number :: around) t.nested ++ [⟨number, around, t⟩] ++
        innerFirstAll (number + t.count) around rest := by
  cases t
  rfl

theorem innerFirstAll_append (number : Nat) (around : List Nat) (types more : List TypeDump) :
    innerFirstAll number around (types ++ more) =
      innerFirstAll number around types ++
        innerFirstAll (number + countAll types) around more := by
  induction types generalizing number with
  | nil => rfl
  | cons t rest ih =>
    rw [List.cons_append, innerFirstAll, innerFirstAll, ih, countAll_cons, List.append_assoc,
      Nat.add_assoc]

theorem innerFirstAll_perm (number : Nat) (around : List Nat) (types : List TypeDump) :
    (innerFirstAll number around types).Perm (placesAll number around types) := by
  induction types using forest_induction generalizing number around with
  | nil => exact .refl _
  | cons t rest ihnested ihrest =>
    rw [innerFirstAll_cons, placesAll_cons, ← List.cons_append]
    exact (List.perm_append_singleton _ _ |>.trans ((ihnested _ _).cons _)).append (ihrest _ _)

theorem ownedCreationsAll_eq (number : Nat) (around : List Nat) (types : List TypeDump) :
    ownedCreationsAll number types =
      (innerFirstAll number around types).flatMap fun p => p.type.creations.map (p.id, ·) := by
  induction types using forest_induction generalizing number around with
  | nil => rfl
  | cons t rest ihnested ihrest =>
    simp [ownedCreationsAll_cons, innerFirstAll_cons, ihnested _ (number :: around),
      ihrest _ around, Place.id]

end TypeDump

-- ---------------------------------------------------------------------------
-- Entries of the tables
-- ---------------------------------------------------------------------------

/-- The entry says what the dump says of the constructor; a static one is open
to nobody outside its type. -/
structure CtorDump.Entered (c : CtorDump) (owner : TypeId) (entry : Ctor) : Prop where
  owner : entry.owner = owner
  params : entry.params = c.params.map (·.toParam)
  isStatic : entry.isStatic = c.isStatic
  access : entry.access = if c.isStatic then .ownType else c.access
  initializer : entry.initializer.map (fun i => (i.target, i.argCount)) =
    c.initializer.map fun i => (i.target, i.args)

theorem CtorDump.Entered.forall₂_params {c : CtorDump} {owner : TypeId} {entry : Ctor}
    (h : c.Entered owner entry) : List.Forall₂ (fun (p : ParamDump) (param : Param) =>
      param.name = p.name ∧ param.hasDefault = p.hasDefault ∧ param.isVariadic = p.isVariadic)
        c.params entry.params := by
  rw [h.params, List.forall₂_map_right_iff, List.forall₂_same]
  intro p _
  exact ParamDump.toParam_eq_iff.mp rfl

/-- The entry says what the dump says of the type, handles standing for names
and for what is inside and around it. -/
structure Place.Entered (p : Place) (u : CompilationUnit) (entry : TypeDecl) : Prop where
  name : entry.name = p.type.name
  kind : entry.kind = p.type.kind
  modifiers : entry.modifiers = .ofNames p.type.modifiers
  parent : entry.parent = p.parent
  nested : entry.nested = (numbers (p.number + 1) p.type.nested).map .ofIndex
  constructors : List.Forall₂ (fun id c => ∃ ctor, u.ctor? id = some ctor ∧ c.Entered p.id ctor)
    entry.constructors p.type.constructors
  base : entry.base = match p.type.base with
    | none => .noBase
    | some name =>
      if name ∈ rootNames then .noBase else (u.findType? name).elim .external .declared

structure CreationDump.Entered (c : CreationDump) (owner : TypeId) (u : CompilationUnit)
    (entry : Creation) : Prop where
  target : entry.target = (u.findType? c.target).elim .unresolved .declared
  argCount : entry.argCount = c.args
  enclosing : entry.enclosing = owner

/-- The unit holds the declarations of the dump: its types in document order,
its creations with the inner types' first and the top-level ones last. -/
structure UnitDump.Renders (d : UnitDump) (u : CompilationUnit) : Prop where
  types : List.Forall₂ (fun p entry => p.Entered u entry) d.places u.types.toList
  roots : u.roots = (numbers 0 d.types).map .ofIndex
  /-- A name leads to the first type that has it. -/
  names : ∀ name, u.findType? name = (d.find? name).map (·.id)
  creations : List.Forall₂ (fun c entry => c.2.Entered c.1 u entry)
    ((innerFirstAll 0 [] d.types).flatMap (fun p => p.type.creations.map (p.id, ·)) ++
      d.creations.map (Handle.absent, ·)) u.creations.toList

-- ---------------------------------------------------------------------------
-- The entries of a lowered dump
-- ---------------------------------------------------------------------------

theorem CtorDump.entered_of_bare {c : CtorDump} {owner : TypeId} {entry : Ctor}
    (h : entry.bare = c.toSpec.bare owner) : c.Entered owner entry where
  owner := congrArg Ctor.owner h
  params := congrArg Ctor.params h
  isStatic := by
    have hstatic : entry.isStatic = c.toSpec.isStatic := congrArg Ctor.isStatic h
    rw [hstatic]
    cases hc : c.isStatic <;> simp [toSpec, CtorSpec.typeInitializer, hc]
  access := by
    have haccess : entry.access = c.toSpec.access := congrArg Ctor.access h
    rw [haccess]
    cases hc : c.isStatic <;> simp [toSpec, CtorSpec.typeInitializer, hc]
  initializer := by
    have hinit := congrArg (fun c : Ctor => c.initializer.map fun i => (i.target, i.argCount)) h
    simp only [Ctor.bare, CtorSpec.bare, toSpec, Option.map_map] at hinit
    exact hinit

namespace UnitDump

variable {d : UnitDump} {u : CompilationUnit}

theorem length_ctors_outline (d : UnitDump) :
    d.outline.ctors.length = (d.allTypes.flatMap (·.constructors)).length := by
  simp [outline, ← map_type_places, Place.ctors, List.length_flatMap, List.map_map,
    Function.comp_def]

theorem length_creations_outline (d : UnitDump) : d.outline.creations.length =
    (d.allTypes.flatMap (·.creations)).length + d.creations.length := by
  have hperm := innerFirstAll_perm 0 [] d.types
  have howned := (hperm.flatMap_right fun p : Place => p.type.creations.map (p.id, ·)).length_eq
  rw [← ownedCreationsAll_eq] at howned
  have hplaces : placesAll 0 [] d.types = d.places := rfl
  simp [outline, ownedCreations, howned, hplaces, ← map_type_places, List.length_flatMap,
    List.map_map, Function.comp_def]

theorem addressable_of_lower (h : d.Addressable) (hlower : d.lower = .ok u) : u.Addressable := by
  have houtline := outline_drafted h
  have hunit : d.drafted.unit = u := (Draft.finish_eq_ok.mp hlower).2.2.2
  rw [hunit] at houtline
  have htypes := congrArg (·.types.length) houtline
  have hctors := congrArg (·.ctors.length) houtline
  have hcreations := congrArg (·.creations.length) houtline
  simp only [length_outline_types, length_outline_ctors, length_outline_creations,
    length_ctors_outline, length_creations_outline] at htypes hctors hcreations
  refine ⟨?_, hctors ▸ h.ctors, hcreations ▸ h.creations⟩
  rw [htypes, outline, List.length_map, length_places]
  exact h.countAll_lt

end UnitDump

namespace Lowered

variable {d : UnitDump} {u : CompilationUnit} {p : Place} {t : TypeDecl}

theorem findType?_eq (h : Lowered d u) (name : String) :
    u.findType? name = (d.find? name).map (·.id) := by
  have hnames : u.types.toList.map (·.name) = d.allTypes.map (·.name) := by
    have houtline := congrArg (fun o : Outline => o.types.map (·.name)) h.outline
    simp only [CompilationUnit.outline, UnitDump.outline, List.map_map] at houtline
    rw [← d.map_type_places, List.map_map]
    exact houtline
  have hindex := congrArg (List.findIdx? (· == name)) hnames
  rw [List.findIdx?_map, List.findIdx?_map] at hindex
  have hlist : u.types.toList.toArray = u.types := Array.toArray_toList
  rw [← declared?_eq, findType?, declared?, ← hlist, List.findIdx?_toArray]
  exact congrArg (Option.map Handle.ofIndex) hindex

theorem constructors_entered (h : Lowered d u) (hp : p ∈ d.places) (ht : u.type? p.id = some t) :
    List.Forall₂ (fun id c => ∃ ctor, u.ctor? id = some ctor ∧ c.Entered p.id ctor)
      t.constructors p.type.constructors := by
  have hcontents : t.constructors = (u.contents p.id).ctors := by
    simp [contents, isAbsent_of_type? ht, ht, TypeDecl.contents]
  have hlook : t.constructors.map (u.outline.ctors[·.index]?) = p.ctors.map some := by
    rw [hcontents, h.linked.contents, Outline.contents, map_handlesWhere, h.outline,
      h.filter_ctors hp]
    simpa using Nat.le_of_lt h.addressable.ctors
  rw [Place.ctors, List.map_map, ← List.forall₂_eq_eq_eq, List.forall₂_map_left_iff,
    List.forall₂_map_right_iff] at hlook
  refine hlook.imp ?_
  intro id c hget
  rw [CompilationUnit.outline, List.getElem?_map] at hget
  obtain ⟨ctor, hctor, hbare⟩ := Option.map_eq_some_iff.mp hget
  refine ⟨ctor, ?_, CtorDump.entered_of_bare hbare⟩
  rw [ctor?_eq_getElem? (Nat.le_of_lt h.addressable.ctors)]
  simpa using hctor

theorem nested_eq (h : Lowered d u) (hp : p ∈ d.places) (ht : u.type? p.id = some t) :
    t.nested = (numbers (p.number + 1) p.type.nested).map .ofIndex := by
  have hcontents : t.nested = (u.contents p.id).types := by
    simp [contents, isAbsent_of_type? ht, ht, TypeDecl.contents]
  have htypes := h.types_contents (forall_mem_some hp)
  have hinside := childrenIn_placesAll hp (by simp)
  rw [hcontents, ← hinside]
  exact htypes

theorem entered (h : Lowered d u) (hp : p ∈ d.places) (ht : u.type? p.id = some t)
    (hbare : t.bare = d.declOf p) : p.Entered u t where
  name := congrArg TypeDecl.name hbare
  kind := congrArg TypeDecl.kind hbare
  modifiers := congrArg TypeDecl.modifiers hbare
  parent := congrArg TypeDecl.parent hbare
  nested := h.nested_eq hp ht
  constructors := h.constructors_entered hp ht
  base := by
    have hbase : t.base = p.type.base.elim .noBase (bindBase d.allTypes) :=
      congrArg TypeDecl.base hbare
    rw [hbase]
    cases p.type.base with
    | none => rfl
    | some name => simp [bindBase, h.findType?_eq, declared?_eq]

theorem creation_entered (h : Lowered d u) {owner : TypeId} {c : CreationDump} {entry : Creation}
    (hbare : entry.bare = d.creationOf owner c) : c.Entered owner u entry where
  target := by
    have htarget : entry.target = bindTarget d.allTypes c.target :=
      congrArg Creation.target hbare
    rw [htarget, bindTarget, declared?_eq, h.findType?_eq]
  argCount := congrArg Creation.argCount hbare
  enclosing := congrArg Creation.enclosing hbare

theorem renders (h : Lowered d u) : d.Renders u where
  types := by
    have hsize : d.places.length = u.types.toList.length := by
      rw [d.length_places, h.countAll_types, Array.length_toList]
    refine List.forall₂_iff_get.mpr ⟨hsize, ?_⟩
    intro i hi hi'
    have hp := List.get_mem d.places ⟨i, hi⟩
    have hnumber : (d.places.get ⟨i, hi⟩).number = i :=
      number_of_getElem? (List.getElem?_eq_getElem hi)
    obtain ⟨t, ht, hbare⟩ := h.type?_id hp
    have hget := getElem?_of_type? ht
    rw [h.index_id hp, hnumber, ← Array.getElem?_toList] at hget
    obtain rfl : u.types.toList.get ⟨i, hi'⟩ = t := by
      simpa using (List.getElem?_eq_some_iff.mp hget).2
    exact h.entered hp ht hbare
  roots := by
    have hroots := h.types_contents forall_mem_none
    have htop := @childrenIn_head d.types 0 [] (by simp)
    simpa [requesterId, contents] using hroots.trans (congrArg _ htop)
  names := h.findType?_eq
  creations := by
    have hcreations : u.creations.toList.map (·.bare) =
        d.ownedCreations.map fun entry => d.creationOf entry.1 entry.2 :=
      congrArg Outline.creations h.outline
    rw [UnitDump.ownedCreations, ownedCreationsAll_eq 0 [], eq_comm, ← List.forall₂_eq_eq_eq,
      List.forall₂_map_left_iff, List.forall₂_map_right_iff] at hcreations
    refine hcreations.imp ?_
    intro c entry hbare
    exact h.creation_entered hbare.symm

end Lowered

namespace UnitDump

variable {d : UnitDump} {u : CompilationUnit}

/-- Lowering never meets an unknown handle. It fails if some variadic parameter
is misplaced or some type names itself as its base, and else gives the unit
that holds what the tree says. -/
theorem lower_renders (h : d.Addressable) :
    (∀ id, d.lower ≠ .error (.unknownType id)) ∧
      ((∃ e, d.lower = .error e) ↔ d.MisplacesVariadic ∨ d.NamesSelf) ∧
      ∀ u, d.lower = .ok u → d.Renders u := by
  refine ⟨lower_ne_unknownType h, ?_, ?_⟩
  · have hok := exists_lower_iff h
    cases hlower : d.lower with
    | ok u =>
      simp [hlower] at hok ⊢
      exact hok
    | error e =>
      simp [hlower] at hok ⊢
      tauto
  · intro u hlower
    exact (d.lowered hlower (addressable_of_lower h hlower)).renders

/-- A class inside another of its name, which is the one its base clause means,
a base that comes later, and creations on three levels. -/
def namesakes : UnitDump where
  file := "a.cs"
  types := [
    { name := "A", base := some "Late"
      constructors := [{ isStatic := true }, { params := [⟨"p", false, true⟩] }]
      nested := [{ name := "A", base := some "A", creations := [⟨"Late", 1⟩] }]
      creations := [⟨"Nowhere", 2⟩] },
    { name := "Late", base := some "object" }]
  creations := [⟨"A", 3⟩]

theorem lower_renders_namesakes : namesakes.Addressable ∧
    ∃ u, namesakes.lower = .ok u ∧ namesakes.Renders u := by
  have haddr : namesakes.Addressable := ⟨by decide, by decide, by decide⟩
  have hlower : namesakes.lower = .ok ((Draft.start "a.cs").run namesakes.steps).unit := rfl
  obtain ⟨-, -, hrenders⟩ := lower_renders haddr
  exact ⟨haddr, _, hlower, hrenders _ hlower⟩

end UnitDump

end CtorArity
