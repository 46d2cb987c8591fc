import CtorArity.Proofs.Naming
import CtorArity.Proofs.Rendering

/-!
# One more type

A class is used as a base or in a creation, and each use is right or wrong by
itself. A type that is added after the others takes no name from those that
have it: a name that the dump declares leads where it led. So what was found is
found again, and what is found besides is in the added type or in a use of a
class that was missing without it (`lower_addType`).
-/

namespace CtorArity

open TypeDump

/-- A class used as a base or in a creation, the latter in a type or at the top
level. -/
inductive Use where
  | base (p : Place)
  | creation (owner : Option Place) (c : CreationDump)

namespace Use

def place? : Use → Option Place
  | .base p => some p
  | .creation owner _ => owner

def name? : Use → Option String
  | .base p => p.type.base
  | .creation _ c => some c.target

end Use

def Place.uses (p : Place) : List Use :=
  p.type.creations.map (.creation (some p)) ++ [.base p]

namespace UnitDump

/-- The uses of classes in the order in which they are checked. -/
def uses (d : UnitDump) : List Use :=
  (innerFirstAll 0 [] d.types).flatMap (·.uses) ++ d.creations.map (.creation none)

/-- What is wrong with a use. -/
def useFinding? (d : UnitDump) (o : Options) : Use → Option Finding
  | .base p => d.baseFinding? o p
  | .creation owner c => d.creationFinding? o owner c

/-- The findings, each with the use that is wrong. -/
def wrongUses (d : UnitDump) (o : Options) : List (Use × Finding) :=
  d.uses.filterMap fun use => (d.useFinding? o use).map (use, ·)

/-- The dump with one more type after the others. -/
def addType (d : UnitDump) (t : TypeDump) : UnitDump := { d with types := d.types ++ [t] }

def addedPlace (d : UnitDump) (t : TypeDump) : Place := ⟨countAll d.types, [], t⟩

/-- The use is in the added type, or it names a class that is declared there and
was not declared before. -/
def ConcernsAdded (d : UnitDump) (t : TypeDump) (use : Use) : Prop :=
  (∃ p ∈ use.place?, p.within (d.addedPlace t) = true) ∨
    ∃ name ∈ use.name?,
      name ∉ d.allTypes.map (·.name) ∧ name ∈ (preorder t).map (·.name)

instance (d : UnitDump) (t : TypeDump) : DecidablePred (d.ConcernsAdded t) := fun _ =>
  inferInstanceAs (Decidable (_ ∨ _))

/-- What is wrong with a use in the larger dump, if the use has nothing to do with
the added type. -/
def keptFinding? (d : UnitDump) (t : TypeDump) (o : Options) (use : Use) : Option Finding :=
  if d.ConcernsAdded t use then none else (d.addType t).useFinding? o use

variable {d : UnitDump} {t : TypeDump} {p : Place} {use : Use} {name : String}

-- ---------------------------------------------------------------------------
-- Findings and uses
-- ---------------------------------------------------------------------------

theorem findingsAll_eq_filterMap (d : UnitDump) (o : Options) (number : Nat) (around : List Nat)
    (types : List TypeDump) : d.findingsAll o number around types =
      ((innerFirstAll number around types).flatMap (·.uses)).filterMap (d.useFinding? o) := by
  induction types using forest_induction generalizing number around with
  | nil => rfl
  | cons t rest ihnested ihrest =>
    have hbase : ∀ p, (d.baseFinding? o p).toList = [Use.base p].filterMap (d.useFinding? o) :=
      fun p => by
        rw [List.filterMap_cons, useFinding?]
        cases d.baseFinding? o p <;> rfl
    have hcreations : ∀ owner, t.creations.filterMap (d.creationFinding? o owner) =
        (t.creations.map (Use.creation owner)).filterMap (d.useFinding? o) :=
      fun owner => by
        rw [List.filterMap_map]
        rfl
    simp only [findingsAll_cons, innerFirstAll_cons, ihnested, ihrest, hbase, hcreations,
      Place.uses, List.flatMap_append, List.flatMap_singleton, List.filterMap_append,
      List.append_assoc]

theorem findings_eq_filterMap (d : UnitDump) (o : Options) :
    d.findings o = d.uses.filterMap (d.useFinding? o) := by
  rw [findings, findingsAll_eq_filterMap, uses, List.filterMap_append, List.filterMap_map]
  rfl

theorem map_finding_wrongUses (d : UnitDump) (o : Options) :
    (d.wrongUses o).map (·.2) = d.findings o := by
  rw [findings_eq_filterMap, wrongUses, List.map_filterMap]
  simp only [Option.map_map, Function.comp_def, Option.map_id']

-- ---------------------------------------------------------------------------
-- Names
-- ---------------------------------------------------------------------------

theorem places_addType (d : UnitDump) (t : TypeDump) :
    (d.addType t).places = d.places ++ placesAll (countAll d.types) [] [t] := by
  have hsplit := placesAll_append 0 [] d.types [t]
  rwa [Nat.zero_add] at hsplit

theorem allTypes_addType (d : UnitDump) (t : TypeDump) :
    (d.addType t).allTypes = d.allTypes ++ preorder t := by
  simp only [allTypes, addType, preorderAll_eq_flatMap, List.flatMap_append,
    List.flatMap_singleton]

theorem find?_eq_none_iff : d.find? name = none ↔ name ∉ d.allTypes.map (·.name) := by
  simp [find?, ← map_type_places]

theorem find?_addType
    (h : name ∈ (preorder t).map (·.name) → name ∈ d.allTypes.map (·.name)) :
    (d.addType t).find? name = d.find? name := by
  cases hold : d.find? name with
  | some p =>
    rw [find?, places_addType, List.find?_append]
    rw [find?] at hold
    rw [hold, Option.some_or]
  | none =>
    have hunnamed := find?_eq_none_iff.mp hold
    rw [find?_eq_none_iff, allTypes_addType, List.map_append, List.mem_append]
    exact fun hmem => hunnamed (hmem.elim id h)

theorem useFinding?_eq_none (o : Options)
    (h : ∃ name ∈ use.name?, name ∉ d.allTypes.map (·.name)) : d.useFinding? o use = none := by
  obtain ⟨name, hname, hundeclared⟩ := h
  have hnone := find?_eq_none_iff.mpr hundeclared
  cases use with
  | base p =>
    have hbase : p.type.base = some name := hname
    simp [useFinding?, baseFinding?, baseFailure?, baseOf?, hbase, hnone]
  | creation owner c =>
    obtain rfl : c.target = name := Option.some.inj hname
    simp [useFinding?, creationFinding?, creationFailure?, hnone]

theorem useFinding?_addType (o : Options) (h : ¬ d.ConcernsAdded t use) :
    (d.addType t).useFinding? o use = d.useFinding? o use := by
  have hname : ∀ name ∈ use.name?, (d.addType t).find? name = d.find? name := by
    intro name hname
    refine find?_addType fun hadded => ?_
    by_contra hundeclared
    exact h (.inr ⟨name, hname, hundeclared, hadded⟩)
  cases use with
  | base p =>
    have hbase : (d.addType t).baseOf? p = d.baseOf? p := by
      rw [baseOf?, baseOf?]
      cases hp : p.type.base with
      | none => rfl
      | some name => rw [Option.bind_some, Option.bind_some, hname name hp]
    rw [useFinding?, useFinding?, baseFinding?, baseFinding?, baseFailure?, baseFailure?, hbase]
    rfl
  | creation owner c =>
    have htarget := hname c.target rfl
    rw [useFinding?, useFinding?, creationFinding?, creationFinding?, creationFailure?,
      creationFailure?, htarget]
    rfl

-- ---------------------------------------------------------------------------
-- Uses inside the added type
-- ---------------------------------------------------------------------------

theorem uses_addType (d : UnitDump) (t : TypeDump) :
    (d.addType t).uses = (innerFirstAll 0 [] d.types).flatMap (·.uses) ++
      (innerFirstAll (countAll d.types) [] [t]).flatMap (·.uses) ++
        d.creations.map (.creation none) := by
  have hsplit := innerFirstAll_append 0 [] d.types [t]
  rw [Nat.zero_add] at hsplit
  rw [← List.flatMap_append, ← hsplit]
  rfl

theorem place?_of_mem_uses (h : use ∈ p.uses) : use.place? = some p := by
  rcases List.mem_append.mp h with h | h
  · obtain ⟨c, -, rfl⟩ := List.mem_map.mp h
    rfl
  · obtain rfl := List.mem_singleton.mp h
    rfl

theorem exists_place_of_mem_uses {number : Nat} {types : List TypeDump}
    (h : use ∈ (innerFirstAll number [] types).flatMap (·.uses)) :
    ∃ p ∈ placesAll number [] types, use.place? = some p := by
  obtain ⟨p, hp, huse⟩ := List.mem_flatMap.mp h
  exact ⟨p, (innerFirstAll_perm number [] types).mem_iff.mp hp, place?_of_mem_uses huse⟩

theorem within_addedPlace (hp : p ∈ placesAll (countAll d.types) [] [t]) :
    p.within (d.addedPlace t) = true := by
  rw [within_eq]
  rw [placesAll_cons] at hp
  rcases List.mem_cons.mp hp with rfl | hp
  · exact List.mem_cons_self
  · rw [placesAll, List.append_nil] at hp
    exact List.mem_cons_of_mem _ (around_subset hp List.mem_cons_self)

theorem not_within_addedPlace (hp : p ∈ d.places) : ¬ p.within (d.addedPlace t) = true := by
  rw [within_eq]
  intro hmem
  rcases range_of_mem_placesAll hp _ hmem with hk | ⟨-, hk⟩
  · cases hk
  · rw [Nat.zero_add] at hk
    exact Nat.lt_irrefl _ hk

theorem concernsAdded_of_mem
    (h : use ∈ (innerFirstAll (countAll d.types) [] [t]).flatMap (·.uses)) :
    d.ConcernsAdded t use := by
  obtain ⟨p, hp, hplace⟩ := exists_place_of_mem_uses h
  exact .inl ⟨p, hplace, within_addedPlace hp⟩

theorem useFinding?_of_concernsAdded (o : Options) (huse : use ∈ d.uses)
    (h : d.ConcernsAdded t use) : d.useFinding? o use = none := by
  rcases h with ⟨p, hplace, hwithin⟩ | ⟨name, hname, hundeclared, -⟩
  · rcases List.mem_append.mp huse with huse | huse
    · -- The dump has no place inside the added type.
      obtain ⟨q, hq, hplace'⟩ := exists_place_of_mem_uses huse
      obtain rfl := Option.some.inj (hplace'.symm.trans hplace)
      exact absurd hwithin (not_within_addedPlace hq)
    · obtain ⟨c, -, rfl⟩ := List.mem_map.mp huse
      cases hplace
  · exact useFinding?_eq_none o ⟨name, hname, hundeclared⟩

-- ---------------------------------------------------------------------------
-- What is found again
-- ---------------------------------------------------------------------------

theorem filterMap_keptFinding? (d : UnitDump) (t : TypeDump) (o : Options) :
    (d.addType t).uses.filterMap (d.keptFinding? t o) = d.findings o := by
  have hadded : ((innerFirstAll (countAll d.types) [] [t]).flatMap (·.uses)).filterMap
      (d.keptFinding? t o) = [] :=
    List.filterMap_eq_nil_iff.mpr fun use huse => if_pos (concernsAdded_of_mem huse)
  have hsame : ∀ use ∈ d.uses, d.keptFinding? t o use = d.useFinding? o use := by
    intro use huse
    by_cases h : d.ConcernsAdded t use
    · rw [useFinding?_of_concernsAdded o huse h, keptFinding?, if_pos h]
    · rw [keptFinding?, if_neg h, useFinding?_addType o h]
  calc (d.addType t).uses.filterMap (d.keptFinding? t o)
      = d.uses.filterMap (d.keptFinding? t o) := by
        rw [uses_addType, uses, List.filterMap_append, List.filterMap_append,
          List.filterMap_append, hadded, List.append_nil]
    _ = d.uses.filterMap (d.useFinding? o) := List.filterMap_congr hsame
    _ = d.findings o := (findings_eq_filterMap d o).symm

theorem findings_eq_filter_wrongUses (d : UnitDump) (t : TypeDump) (o : Options) :
    d.findings o =
      (((d.addType t).wrongUses o).filter fun wrong => ¬ d.ConcernsAdded t wrong.1).map (·.2) := by
  rw [← filterMap_keptFinding? d t o, wrongUses, List.filter_filterMap, List.map_filterMap]
  refine List.filterMap_congr fun use _ => ?_
  by_cases h : d.ConcernsAdded t use <;>
    cases hfound : (d.addType t).useFinding? o use <;> simp [keptFinding?, Option.filter, h, hfound]

theorem addressable_of_addType (h : (d.addType t).Addressable) : d.Addressable := by
  have htypes : d.allTypes.Sublist (d.addType t).allTypes := by
    rw [allTypes_addType]
    exact List.sublist_append_left ..
  have hcreations := (htypes.flatMap (·.creations)).length_le
  exact ⟨Nat.lt_of_le_of_lt htypes.length_le h.types,
    Nat.lt_of_le_of_lt (htypes.flatMap (·.constructors)).length_le h.ctors,
    Nat.lt_of_le_of_lt (Nat.add_le_add_right hcreations _) h.creations⟩

/-- One more type takes no finding away. The findings of the dump are those of
the larger one that neither are in the added type nor are about a use of a class
that only this type declares. -/
theorem lower_addType {u u' : CompilationUnit} (haddr : (d.addType t).Addressable)
    (hlower : d.lower = .ok u) (hlower' : (d.addType t).lower = .ok u') (o : Options) :
    ((u.found o).map (·.1)).Sublist ((u'.found o).map (·.1)) ∧
      (u'.found o).map (·.1) = ((d.addType t).wrongUses o).map (·.2) ∧
      (u.found o).map (·.1) = (((d.addType t).wrongUses o).filter
        fun wrong => ¬ d.ConcernsAdded t wrong.1).map (·.2) := by
  have hu := d.lowered hlower (addressable_of_lower (addressable_of_addType haddr) hlower)
  have hu' := (d.addType t).lowered hlower' (addressable_of_lower haddr hlower')
  rw [hu.map_finding_found, hu'.map_finding_found, ← map_finding_wrongUses (d.addType t)]
  have hkept := findings_eq_filter_wrongUses d t o
  refine ⟨?_, rfl, hkept⟩
  rw [hkept]
  exact List.filter_sublist.map _

/-- A base and targets that are missing, one of them in a type inside another, and
calls that fail. -/
def lacking : UnitDump where
  file := "a.cs"
  types := [
    { name := "A", constructors := [{ params := [⟨"p", false, false⟩] }]
      nested := [{ name := "B", base := some "A", creations := [⟨"Late", 0⟩] }] },
    { name := "C", base := some "Late", creations := [⟨"A", 2⟩, ⟨"Nowhere", 0⟩] }]
  creations := [⟨"Late", 1⟩, ⟨"A", 0⟩]

def supplying : TypeDump where
  name := "Outer"
  nested := [
    { name := "Late", base := some "A"
      constructors := [{ params := [⟨"p", false, false⟩, ⟨"q", false, false⟩] }] },
    { name := "A" }]

set_option maxRecDepth 2000 in
theorem lower_addType_lacking : (lacking.addType supplying).Addressable ∧
    lacking.lower = .ok lacking.drafted.unit ∧
    (lacking.addType supplying).lower = .ok (lacking.addType supplying).drafted.unit ∧
    (lacking.findings {}).length = 3 ∧ ((lacking.addType supplying).findings {}).length = 7 ∧
    ((lacking.drafted.unit.found {}).map (·.1)).Sublist
      (((lacking.addType supplying).drafted.unit.found {}).map (·.1)) ∧
    (lacking.drafted.unit.found {}).map (·.1) =
      (((lacking.addType supplying).wrongUses {}).filter
        fun wrong => ¬ lacking.ConcernsAdded supplying wrong.1).map (·.2) := by
  have haddr : (lacking.addType supplying).Addressable := ⟨by decide, by decide, by decide⟩
  have hlower : lacking.lower = .ok lacking.drafted.unit := rfl
  have hlower' : (lacking.addType supplying).lower =
      .ok (lacking.addType supplying).drafted.unit := rfl
  obtain ⟨hsublist, -, hkept⟩ := lower_addType haddr hlower hlower' {}
  exact ⟨haddr, hlower, hlower', by decide, by decide, hsublist, hkept⟩

end UnitDump

end CtorArity
