import CtorArity.Proofs.Rendering
import CtorArity.Proofs.Reshape
import Mathlib.Algebra.Order.BigOperators.Group.List
import Mathlib.Algebra.Order.Group.Nat

/-!
# Types that answer calls alike

The check asks two things of the constructors of a type: how many arguments they
hand to the base, and which calls they take. A dump whose types are given other
constructors with the same answers has the same findings
(`findings_mapCtors`), and it can be lowered if nothing new is misplaced
(`lower_mapCtors`). Static constructors answer nothing, so they may be put in
anywhere (`lower_withStatics`). A constructor without parameters that is open to
everybody answers what the class answers that does not write any
(`lower_written`).
-/

namespace CtorArity

open TypeDump CompilationUnit

namespace TypeDump

/-- Whether a call with this many arguments is taken, where the constructors with
these accesses are open. -/
def takes (t : TypeDump) (opens : Access → Bool) (n : UInt32) : Bool :=
  match t.instanceCtors with
  | [] => n == 0
  | ctors => ctors.any fun c => opens c.access && c.accepts n

/-- The two types hand the same calls to their bases and take the same calls,
whoever makes them. -/
structure Alike (t t' : TypeDump) : Prop where
  calls : t'.callCounts = t.callCounts
  takes : ∀ opens : Access → Bool, opens .everywhere = true → t'.takes opens = t.takes opens

theorem alike_of_instanceCtors_eq {t t' : TypeDump} (h : t'.instanceCtors = t.instanceCtors) :
    t.Alike t' where
  calls := by rw [callCounts, callCounts, h]
  takes opens _ := by
    funext n
    rw [TypeDump.takes, TypeDump.takes, h]

end TypeDump

variable {f : Nat → List CtorDump → List CtorDump}

namespace Place

def mapCtors (f : Nat → List CtorDump → List CtorDump) (p : Place) : Place :=
  { p with type := mapCtorsOf f p.number p.type }

theorem type_mapCtors (f : Nat → List CtorDump → List CtorDump) (p : Place) :
    (p.mapCtors f).type =
      { p.type with
        constructors := f p.number p.type.constructors
        nested := mapCtorsAll f (p.number + 1) p.type.nested } :=
  mapCtorsOf_eq f p.number p.type

theorem within_mapCtors (p q : Place) : (p.mapCtors f).within (q.mapCtors f) = p.within q := rfl

end Place

namespace TypeDump

theorem count_mapCtorsOf (number : Nat) (t : TypeDump) : (mapCtorsOf f number t).count = t.count := by
  rw [mapCtorsOf_eq, count_eq, count_eq, countAll_mapCtorsAll]

theorem nested_mapCtorsOf (number : Nat) (t : TypeDump) :
    (mapCtorsOf f number t).nested = mapCtorsAll f (number + 1) t.nested := by
  rw [mapCtorsOf_eq]

theorem placesAll_mapCtorsAll (number : Nat) (around : List Nat) (types : List TypeDump) :
    placesAll number around (mapCtorsAll f number types) =
      (placesAll number around types).map (·.mapCtors f) := by
  induction types using forest_induction generalizing number around with
  | nil => rfl
  | cons t rest ihnested ihrest =>
    rw [mapCtorsAll, placesAll_cons, placesAll_cons, count_mapCtorsOf, nested_mapCtorsOf,
      ihnested, ihrest, List.map_cons, List.map_append]
    rfl

end TypeDump

-- ---------------------------------------------------------------------------
-- The same findings
-- ---------------------------------------------------------------------------

namespace UnitDump

variable {d : UnitDump} {p : Place} {requester : Option Place}

def AlikeUnder (f : Nat → List CtorDump → List CtorDump) (d : UnitDump) : Prop :=
  ∀ p ∈ d.places, p.type.Alike (p.mapCtors f).type

theorem places_mapCtors (f : Nat → List CtorDump → List CtorDump) (d : UnitDump) :
    (d.mapCtors f).places = d.places.map (·.mapCtors f) :=
  placesAll_mapCtorsAll 0 [] d.types

theorem find?_mapCtors (f : Nat → List CtorDump → List CtorDump) (d : UnitDump) (name : String) :
    (d.mapCtors f).find? name = (d.find? name).map (·.mapCtors f) := by
  rw [find?, find?, places_mapCtors, List.find?_map]
  simp only [Function.comp_def, Place.type_mapCtors]

theorem baseOf?_mapCtors (p : Place) :
    (d.mapCtors f).baseOf? (p.mapCtors f) = (d.baseOf? p).map (·.mapCtors f) := by
  simp only [baseOf?, Place.type_mapCtors, find?_mapCtors]
  cases p.type.base with
  | none => rfl
  | some name =>
    simp only [Option.bind_some]
    split <;> rfl

theorem sees_mapCtors (p : Place) (requester : Option Place) (access : Access) :
    (d.mapCtors f).sees (p.mapCtors f) (requester.map (·.mapCtors f)) access =
      d.sees p requester access := by
  have hscope : ∀ q : Place, (d.mapCtors f).scopeOf (q.mapCtors f) = d.scopeOf q := fun q => by
    rw [scopeOf, Place.type_mapCtors]
    rfl
  cases requester <;> cases access <;> simp [sees, hscope, Place.within_mapCtors]

theorem offers_mapCtors (h : p.type.Alike (p.mapCtors f).type) (requester : Option Place) :
    (d.mapCtors f).offers (p.mapCtors f) (requester.map (·.mapCtors f)) =
      d.offers p requester := by
  have hsees : (d.mapCtors f).sees (p.mapCtors f) (requester.map (·.mapCtors f)) =
      d.sees p requester := funext (sees_mapCtors p requester)
  calc (d.mapCtors f).offers (p.mapCtors f) (requester.map (·.mapCtors f))
      = (p.mapCtors f).type.takes (d.sees p requester) := by rw [← hsees]; rfl
    _ = p.type.takes (d.sees p requester) := h.takes _ rfl

theorem baseFailure?_mapCtors (hf : d.AlikeUnder f) (hp : p ∈ d.places) (policy : Policy) :
    (d.mapCtors f).baseFailure? policy (p.mapCtors f) =
      (d.baseFailure? policy p).map fun failure => (failure.1.mapCtors f, failure.2) := by
  rw [baseFailure?, baseFailure?, baseOf?_mapCtors]
  cases hbase : d.baseOf? p with
  | none => rfl
  | some base =>
    have hclass : ∀ q : Place, (q.mapCtors f).type.isInstanceClass = q.type.isInstanceClass :=
      fun q => by rw [Place.type_mapCtors]; rfl
    have hoffers := offers_mapCtors (d := d) (hf base (Lowered.mem_of_baseOf? hbase)) (some p)
    simp only [Option.map_some] at hoffers
    simp only [Option.map_some, Option.bind_some, hclass, hoffers, (hf p hp).calls]
    split
    · rw [Option.map_map]
      rfl
    · rfl

theorem creationFailure?_mapCtors (hf : d.AlikeUnder f) (requester : Option Place)
    (c : CreationDump) :
    (d.mapCtors f).creationFailure? (requester.map (·.mapCtors f)) c =
      (d.creationFailure? requester c).map fun failure => (failure.1.mapCtors f, failure.2) := by
  rw [creationFailure?, creationFailure?, find?_mapCtors]
  cases htarget : d.find? c.target with
  | none => rfl
  | some target =>
    have hclass : (target.mapCtors f).type.isConcreteClass = target.type.isConcreteClass := by
      rw [Place.type_mapCtors]
      rfl
    simp only [Option.map_some, Option.bind_some, hclass,
      offers_mapCtors (hf target (Lowered.mem_of_find? htarget)) requester]
    split <;> rfl

theorem blaming_mapCtors (q : Place) (n : UInt32) (origin : Origin) (subject : Nat) :
    Finding.blaming (q.mapCtors f) n origin subject = .blaming q n origin subject := by
  rw [Finding.blaming, Place.type_mapCtors]
  rfl

theorem baseFinding?_mapCtors (hf : d.AlikeUnder f) (hp : p ∈ d.places) (o : Options) :
    (d.mapCtors f).baseFinding? o (p.mapCtors f) = d.baseFinding? o p := by
  rw [baseFinding?, baseFailure?_mapCtors hf hp, Option.map_map]
  exact congrArg (Option.map · _) (funext fun failure =>
    blaming_mapCtors failure.1 failure.2 .baseBinding p.number)

theorem creationFinding?_mapCtors (hf : d.AlikeUnder f) (o : Options) (requester : Option Place)
    (c : CreationDump) : (d.mapCtors f).creationFinding? o (requester.map (·.mapCtors f)) c =
      d.creationFinding? o requester c := by
  rw [creationFinding?, creationFinding?, creationFailure?_mapCtors hf]
  split
  · rw [Option.map_map]
    exact congrArg (Option.map · _) (funext fun failure =>
      blaming_mapCtors failure.1 failure.2 .instantiation failure.1.number)
  · rfl

theorem findingsAll_mapCtors (hf : d.AlikeUnder f) (o : Options) {types : List TypeDump}
    {number : Nat} {around : List Nat} (hplaces : placesAll number around types ⊆ d.places) :
    (d.mapCtors f).findingsAll o number around (mapCtorsAll f number types) =
      d.findingsAll o number around types := by
  induction types using forest_induction generalizing number around with
  | nil => rfl
  | cons t rest ihnested ihrest =>
    rw [placesAll_cons, List.cons_subset, List.append_subset] at hplaces
    obtain ⟨hp, hnested, hrest⟩ := hplaces
    have hself : (⟨number, around, mapCtorsOf f number t⟩ : Place) =
        (⟨number, around, t⟩ : Place).mapCtors f := rfl
    have hcreations : (mapCtorsOf f number t).creations = t.creations := by rw [mapCtorsOf_eq]
    have hfound : (d.mapCtors f).creationFinding? o (some ⟨number, around, mapCtorsOf f number t⟩) =
        d.creationFinding? o (some ⟨number, around, t⟩) :=
      funext (creationFinding?_mapCtors hf o (some ⟨number, around, t⟩))
    rw [mapCtorsAll, findingsAll_cons, findingsAll_cons, nested_mapCtorsOf, count_mapCtorsOf,
      hcreations, hfound, hself, baseFinding?_mapCtors hf hp, ihnested hnested, ihrest hrest]

theorem findings_mapCtors (hf : d.AlikeUnder f) (o : Options) :
    (d.mapCtors f).findings o = d.findings o := by
  have hfound : (d.mapCtors f).creationFinding? o none = d.creationFinding? o none :=
    funext (creationFinding?_mapCtors hf o none)
  have htypes : (d.mapCtors f).findingsAll o 0 [] (d.mapCtors f).types =
      d.findingsAll o 0 [] d.types :=
    findingsAll_mapCtors hf o (List.Subset.refl _)
  have hcreations : (d.mapCtors f).creations = d.creations := rfl
  rw [findings, findings, htypes, hcreations, hfound]

-- ---------------------------------------------------------------------------
-- Lowering
-- ---------------------------------------------------------------------------

/-- No constructor is lost, and none that is new misplaces a variadic parameter. -/
structure SoundUnder (f : Nat → List CtorDump → List CtorDump) (d : UnitDump) : Prop where
  kept : ∀ p ∈ d.places, p.type.constructors.length ≤ (f p.number p.type.constructors).length
  added : ∀ p ∈ d.places, ∀ c ∈ f p.number p.type.constructors,
    c ∈ p.type.constructors ∨ ¬ c.MisplacesVariadic

theorem map_allTypes_mapCtors {g : TypeDump → α}
    (hg : ∀ t ctors nested, g { t with constructors := ctors, nested := nested } = g t) :
    (d.mapCtors f).allTypes.map g = d.allTypes.map g :=
  map_preorderAll_mapCtorsAll hg 0 d.types

theorem addressable_of_mapCtors (hf : d.SoundUnder f) (h : (d.mapCtors f).Addressable) :
    d.Addressable where
  types := by
    have hlength := congrArg List.length (map_allTypes_mapCtors (d := d) (f := f)
      (g := fun t => t.name) fun _ _ _ => rfl)
    rw [List.length_map, List.length_map] at hlength
    exact hlength ▸ h.types
  ctors := by
    have hctors : (d.allTypes.flatMap (·.constructors)).length ≤
        ((d.mapCtors f).allTypes.flatMap (·.constructors)).length := by
      rw [← map_type_places, ← map_type_places, places_mapCtors]
      simp only [List.length_flatMap, List.map_map, Function.comp_def, Place.type_mapCtors]
      exact List.sum_le_sum hf.kept
    exact Nat.lt_of_le_of_lt hctors h.ctors
  creations := by
    have hcreations := map_allTypes_mapCtors (d := d) (f := f) (g := fun t => t.creations)
      fun _ _ _ => rfl
    have hsame : d.allTypes.flatMap (·.creations) =
        (d.mapCtors f).allTypes.flatMap (·.creations) := by
      rw [List.flatMap_def, List.flatMap_def, hcreations]
    exact hsame ▸ h.creations

theorem misplacesVariadic_of_mapCtors (hf : d.SoundUnder f) :
    (d.mapCtors f).MisplacesVariadic → d.MisplacesVariadic := by
  rintro ⟨t, ht, c, hc, hfault⟩
  rw [← map_type_places, places_mapCtors, List.map_map] at ht
  obtain ⟨p, hp, rfl⟩ := List.mem_map.mp ht
  simp only [Function.comp_apply, Place.type_mapCtors] at hc
  rcases hf.added p hp c hc with hold | hnew
  · refine ⟨p.type, ?_, c, hold, hfault⟩
    rw [← map_type_places]
    exact List.mem_map_of_mem hp
  · exact absurd hfault hnew

theorem namesSelf_of_mapCtors : (d.mapCtors f).NamesSelf → d.NamesSelf := by
  rintro ⟨p', hp', name, hbase, hroot, hfind⟩
  rw [places_mapCtors] at hp'
  obtain ⟨p, hp, rfl⟩ := List.mem_map.mp hp'
  rw [find?_mapCtors] at hfind
  obtain ⟨q, hq, hsame⟩ := Option.map_eq_some_iff.mp hfind
  -- The two places have one number, so they are one.
  have hnumber : (q.mapCtors f).number = (p.mapCtors f).number := congrArg Place.number hsame
  have hget : d.places[p.number]? = some q :=
    hnumber ▸ Lowered.getElem?_places (Lowered.mem_of_find? hq)
  rw [Lowered.getElem?_places hp] at hget
  obtain rfl := Option.some.inj hget
  rw [Place.type_mapCtors] at hbase
  exact ⟨p, hp, name, hbase, hroot, hq⟩

theorem lower_mapCtors {u : CompilationUnit} (hsound : d.SoundUnder f) (hf : d.AlikeUnder f)
    (haddr : (d.mapCtors f).Addressable) (hlower : d.lower = .ok u) :
    ∃ u', (d.mapCtors f).lower = .ok u' ∧ ∀ o, u'.found o = u.found o := by
  have haddr' := addressable_of_mapCtors hsound haddr
  have hok := (exists_lower_iff haddr').mp ⟨u, hlower⟩
  obtain ⟨u', hlower'⟩ := (exists_lower_iff haddr).mpr
    ⟨mt (misplacesVariadic_of_mapCtors hsound) hok.1, mt namesSelf_of_mapCtors hok.2⟩
  have hu := d.lowered hlower (addressable_of_lower haddr' hlower)
  have hu' := (d.mapCtors f).lowered hlower' (addressable_of_lower haddr hlower')
  refine ⟨u', hlower', fun o => ?_⟩
  rw [hu.found_eq, hu'.found_eq, findings_mapCtors hf]

end UnitDump

-- ---------------------------------------------------------------------------
-- Static constructors
-- ---------------------------------------------------------------------------

/-- The constructors of the first list, in their order, with static ones between. -/
inductive WithStatics : List CtorDump → List CtorDump → Prop
  | nil : WithStatics [] []
  | keep {ctors ctors' : List CtorDump} {c : CtorDump} :
      WithStatics ctors ctors' → WithStatics (c :: ctors) (c :: ctors')
  | put {ctors ctors' : List CtorDump} {c : CtorDump} : c.isStatic = true →
      ¬ c.MisplacesVariadic → WithStatics ctors ctors' → WithStatics ctors (c :: ctors')

namespace WithStatics

variable {ctors ctors' : List CtorDump} {c : CtorDump}

theorem refl (ctors : List CtorDump) : WithStatics ctors ctors := by
  induction ctors with
  | nil => exact .nil
  | cons c rest ih => exact .keep ih

theorem sublist (h : WithStatics ctors ctors') : ctors.Sublist ctors' := by
  induction h with
  | nil => exact .slnil
  | keep _ ih => exact .cons_cons _ ih
  | put _ _ _ ih => exact .cons _ ih

theorem filter_eq (h : WithStatics ctors ctors') :
    ctors'.filter (!·.isStatic) = ctors.filter (!·.isStatic) := by
  induction h with
  | nil => rfl
  | keep _ ih => simp only [List.filter_cons, ih]
  | put hstatic _ _ ih => simpa [hstatic] using ih

theorem mem_or (h : WithStatics ctors ctors') (hc : c ∈ ctors') :
    c ∈ ctors ∨ ¬ c.MisplacesVariadic := by
  induction h with
  | nil => exact .inl hc
  | keep _ ih =>
    rcases List.mem_cons.mp hc with rfl | hc
    · exact .inl List.mem_cons_self
    · exact (ih hc).imp_left (List.mem_cons_of_mem _)
  | put _ hwell _ ih =>
    rcases List.mem_cons.mp hc with rfl | hc
    · exact .inr hwell
    · exact ih hc

end WithStatics

namespace UnitDump

variable {d : UnitDump} {u : CompilationUnit}

theorem soundUnder_withStatics
    (hf : ∀ p ∈ d.places, WithStatics p.type.constructors (f p.number p.type.constructors)) :
    d.SoundUnder f where
  kept p hp := (hf p hp).sublist.length_le
  added p hp _ hc := (hf p hp).mem_or hc

theorem alikeUnder_withStatics
    (hf : ∀ p ∈ d.places, WithStatics p.type.constructors (f p.number p.type.constructors)) :
    d.AlikeUnder f := by
  intro p hp
  refine alike_of_instanceCtors_eq ?_
  rw [Place.type_mapCtors]
  exact (hf p hp).filter_eq

/-- Static constructors may be put in anywhere: the dump can still be lowered,
and the same is found in it. -/
theorem lower_withStatics (hlower : d.lower = .ok u)
    (hf : ∀ p ∈ d.places, WithStatics p.type.constructors (f p.number p.type.constructors))
    (haddr : (d.mapCtors f).Addressable) :
    ∃ u', (d.mapCtors f).lower = .ok u' ∧ ∀ o, u'.found o = u.found o :=
  lower_mapCtors (soundUnder_withStatics hf) (alikeUnder_withStatics hf) haddr hlower

/-- A base that wants an argument, a derived class that writes no constructor,
one that does, and a creation. -/
def wanting : UnitDump where
  file := "a.cs"
  types := [
    { name := "A", constructors := [{ params := [⟨"p", false, false⟩] }]
      nested := [{ name := "B", base := some "A" }] },
    { name := "C", base := some "A", constructors := [{ initializer := some ⟨.base, 2⟩ }]
      creations := [⟨"A", 0⟩] }]

/-- It would be a base call with as many arguments as there can be. -/
def initializing : CtorDump where
  isStatic := true
  params := [⟨"p", true, false⟩, ⟨"q", false, true⟩]
  initializer := some ⟨.base, 0xFFFFFFFF⟩

def wantingStatics (number : Nat) (ctors : List CtorDump) : List CtorDump :=
  match number, ctors with
  | 0, c :: rest => initializing :: c :: initializing :: rest
  | _, ctors => initializing :: ctors

theorem lower_withStatics_wanting : wanting.lower = .ok wanting.drafted.unit ∧
    (∀ p ∈ wanting.places,
      WithStatics p.type.constructors (wantingStatics p.number p.type.constructors)) ∧
    (wanting.mapCtors wantingStatics).Addressable ∧ (wanting.findings {}).length = 3 ∧
    ∃ u', (wanting.mapCtors wantingStatics).lower = .ok u' ∧
      ∀ o, u'.found o = wanting.drafted.unit.found o := by
  have hlower : wanting.lower = .ok wanting.drafted.unit := rfl
  have hput : ∀ {ctors ctors'}, WithStatics ctors ctors' →
      WithStatics ctors (initializing :: ctors') :=
    .put rfl (by rw [misplacesVariadic_iff "A"]; decide)
  have hf : ∀ p ∈ wanting.places,
      WithStatics p.type.constructors (wantingStatics p.number p.type.constructors) := by
    intro p _
    unfold wantingStatics
    split
    · next h =>
      rw [h]
      exact hput (.keep (hput (.refl _)))
    · exact hput (.refl _)
  have haddr : (wanting.mapCtors wantingStatics).Addressable := ⟨by decide, by decide, by decide⟩
  exact ⟨hlower, hf, haddr, by decide, lower_withStatics hlower hf haddr⟩

end UnitDump

-- ---------------------------------------------------------------------------
-- The constructor that need not be written
-- ---------------------------------------------------------------------------

/-- Writes a constructor that is open to everybody and has no parameters and no
initializer, as number `j` of type number `k`. -/
def written (k j number : Nat) (ctors : List CtorDump) : List CtorDump :=
  if number = k then ctors.take j ++ {} :: ctors.drop j else ctors

theorem TypeDump.instanceCtors_written {t : TypeDump} {k j number : Nat} (hk : number = k)
    (hnone : t.instanceCtors = []) :
    (written k j number t.constructors).filter (!·.isStatic) = [{}] := by
  have hsplit : (t.constructors.take j ++ t.constructors.drop j).filter (!·.isStatic) = [] := by
    rw [List.take_append_drop]
    exact hnone
  rw [List.filter_append, List.append_eq_nil_iff] at hsplit
  rw [written, if_pos hk, List.filter_append, hsplit.1, List.filter_cons_of_pos rfl, hsplit.2]
  rfl

theorem TypeDump.alike_of_written {t t' : TypeDump} (hnone : t.instanceCtors = [])
    (hone : t'.instanceCtors = [{}]) : t.Alike t' where
  calls := by rw [callCounts, callCounts, hnone, hone]; rfl
  takes opens hopens := by
    funext n
    have haccepts : ({} : CtorDump).accepts n = (n == 0) := accepts_ofParams_nil n
    simp [TypeDump.takes, hnone, hone, hopens, haccepts]

namespace UnitDump

variable {d : UnitDump} {u : CompilationUnit} {t : TypeDump} {k : Nat}

theorem soundUnder_written (d : UnitDump) (k j : Nat) : d.SoundUnder (written k j) where
  kept p _ := by
    unfold written
    split
    · simp only [List.length_append, List.length_take, List.length_cons, List.length_drop]
      omega
    · exact Nat.le_refl _
  added p _ c hc := by
    unfold written at hc
    split at hc
    · rcases List.mem_append.mp hc with hc | hc
      · exact .inl (List.mem_of_mem_take hc)
      rcases List.mem_cons.mp hc with rfl | hc
      · exact .inr (by simp [CtorDump.MisplacesVariadic])
      · exact .inl (List.mem_of_mem_drop hc)
    · exact .inl hc

theorem alikeUnder_written (ht : d.allTypes[k]? = some t) (hnone : t.instanceCtors = [])
    (j : Nat) : d.AlikeUnder (written k j) := by
  intro p hp
  by_cases hk : p.number = k
  · have hget := Lowered.getElem?_places hp
    rw [← map_type_places, ← hk, List.getElem?_map, hget] at ht
    obtain rfl : p.type = t := by simpa using ht
    refine alike_of_written hnone ?_
    rw [Place.type_mapCtors]
    exact instanceCtors_written hk hnone
  · refine alike_of_instanceCtors_eq ?_
    rw [Place.type_mapCtors, instanceCtors, written, if_neg hk]
    rfl

/-- To write the constructor that a type has anyway changes nothing. -/
theorem lower_written (hlower : d.lower = .ok u) (ht : d.allTypes[k]? = some t)
    (hnone : t.instanceCtors = []) (j : Nat)
    (haddr : (d.mapCtors (written k j)).Addressable) :
    ∃ u', (d.mapCtors (written k j)).lower = .ok u' ∧ ∀ o, u'.found o = u.found o :=
  lower_mapCtors (soundUnder_written d k j) (alikeUnder_written ht hnone j) haddr hlower

/-- An abstract class with no constructor but a static one, a class inside it
that hands its base an argument, and creations of both. -/
def unwritten : UnitDump where
  file := "a.cs"
  types := [
    { name := "A", base := some "B", modifiers := ["abstract"]
      constructors := [{ isStatic := true }]
      nested := [{ name := "N", base := some "A"
                   constructors := [{ initializer := some ⟨.base, 1⟩ }] }]
      creations := [⟨"A", 1⟩, ⟨"N", 1⟩] },
    { name := "B", constructors := [{ params := [⟨"p", false, false⟩] }] }]

theorem lower_written_unwritten : unwritten.lower = .ok unwritten.drafted.unit ∧
    (∃ t, unwritten.allTypes[0]? = some t ∧ t.instanceCtors = []) ∧
    (unwritten.mapCtors (written 0 1)).Addressable ∧ (unwritten.findings {}).length = 3 ∧
    ∃ u', (unwritten.mapCtors (written 0 1)).lower = .ok u' ∧
      ∀ o, u'.found o = unwritten.drafted.unit.found o := by
  have hlower : unwritten.lower = .ok unwritten.drafted.unit := rfl
  have ht : unwritten.allTypes[0]? = some (unwritten.types[0]) := rfl
  have hnone : (unwritten.types[0]).instanceCtors = [] := rfl
  have haddr : (unwritten.mapCtors (written 0 1)).Addressable :=
    ⟨by decide, by decide, by decide⟩
  exact ⟨hlower, ⟨_, ht, hnone⟩, haddr, by decide, lower_written hlower ht hnone 1 haddr⟩

end UnitDump

end CtorArity
