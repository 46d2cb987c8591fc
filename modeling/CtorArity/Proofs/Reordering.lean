import CtorArity.Proofs.Naming
import CtorArity.Proofs.Rendering
import Mathlib.Data.List.Perm.Basic

/-!
# The order of declarations

Two dumps with the same types, each name once, in different orders at the top
level. Handles, offsets and numbers differ; what a name leads to, what a type
can see and what is found wrong with it do not (`report_baseFinding?`,
`report_creationFinding?`). So the blocks of issues below the top-level types
move as the types do.
-/

namespace CtorArity

open TypeDump CompilationUnit

/-- What an issue says, with the name of the type that it is about. -/
structure Report where
  origin : Origin
  subject : String
  message : String
  related : Option String
  deriving DecidableEq, Repr

namespace UnitDump

/-- The second dump has the types of the first in an order of its own, and no two
of them share a name. -/
structure Shuffles (d d' : UnitDump) : Prop where
  scope : d'.scope = d.scope
  types : d'.types.Perm d.types
  names : (d.allTypes.map (·.name)).Nodup

structure Matches (d d' : UnitDump) (p p' : Place) : Prop where
  mem : p ∈ d.places
  mem' : p' ∈ d'.places
  type : p'.type = p.type

/-- A call fails in both dumps or in none, with as many arguments, and for the
same class. -/
def FailAlike (d d' : UnitDump) : Option (Place × UInt32) → Option (Place × UInt32) → Prop :=
  Option.Rel fun f f' => d.Matches d' f.1 f'.1 ∧ f'.2 = f.2

variable {d d' : UnitDump} {p p' q q' : Place} {requester requester' : Option Place}
  {o : Options}

-- ---------------------------------------------------------------------------
-- Places and names
-- ---------------------------------------------------------------------------

namespace Shuffles

theorem allTypes_perm (h : d.Shuffles d') : d'.allTypes.Perm d.allTypes := by
  simp only [allTypes, preorderAll_eq_flatMap]
  exact h.types.flatMap_right preorder

theorem symm (h : d.Shuffles d') : d'.Shuffles d where
  scope := h.scope.symm
  types := h.types.symm
  names := (h.allTypes_perm.map _).nodup_iff.mpr h.names

end Shuffles

theorem Matches.symm (h : d.Matches d' p p') : d'.Matches d p' p :=
  ⟨h.mem', h.mem, h.type.symm⟩

theorem exists_place {t : TypeDump} (h : t ∈ d.allTypes) : ∃ p ∈ d.places, p.type = t := by
  rw [← d.map_type_places] at h
  exact List.mem_map.mp h

theorem type_mem_allTypes (h : p ∈ d.places) : p.type ∈ d.allTypes :=
  type_mem_preorderAll h

namespace Shuffles

theorem exists_find? {name : String} (h : d.Shuffles d') (hp : d.find? name = some p) :
    ∃ p', d'.find? name = some p' ∧ d.Matches d' p p' := by
  have hmem := Lowered.mem_of_find? hp
  have hname : p.type.name = name := by simpa using List.find?_some hp
  have htype := h.allTypes_perm.mem_iff.mpr (type_mem_allTypes hmem)
  obtain ⟨q, hq, hqtype⟩ := exists_place htype
  have hfound : (d'.find? name).isSome = true :=
    List.find?_isSome.mpr ⟨q, hq, by simp [hqtype, hname]⟩
  obtain ⟨p', hp'⟩ := Option.isSome_iff_exists.mp hfound
  have hname' : p'.type.name = name := by simpa using List.find?_some hp'
  have hmem' := Lowered.mem_of_find? hp'
  have htype' := h.allTypes_perm.mem_iff.mp (type_mem_allTypes hmem')
  refine ⟨p', hp', hmem, hmem', ?_⟩
  exact List.inj_on_of_nodup_map h.names htype' (type_mem_allTypes hmem) (hname'.trans hname.symm)

theorem find?_rel (h : d.Shuffles d') (name : String) :
    Option.Rel (d.Matches d') (d.find? name) (d'.find? name) := by
  cases hp : d.find? name with
  | some p =>
    obtain ⟨p', hp', hmatch⟩ := h.exists_find? hp
    rw [hp']
    exact .some hmatch
  | none =>
    cases hp' : d'.find? name with
    | none => exact .none
    | some p' =>
      obtain ⟨p, hsome, -⟩ := h.symm.exists_find? hp'
      rw [hp] at hsome
      cases hsome

theorem baseOf?_rel (h : d.Shuffles d') (hp : d.Matches d' p p') :
    Option.Rel (d.Matches d') (d.baseOf? p) (d'.baseOf? p') := by
  simp only [baseOf?, hp.type]
  cases p.type.base with
  | none => exact .none
  | some name =>
    simp only [Option.bind_some]
    split
    · exact .none
    · exact h.find?_rel name

theorem within_eq (h : d.Shuffles d') (hp : d.Matches d' p p') (hq : d.Matches d' q q') :
    q'.within p' = q.within p := by
  have hin := within_iff h.names (by simp) hq.mem hp.mem
  have hin' := within_iff h.symm.names (by simp) hq.mem' hp.mem'
  rw [hq.type, hp.type] at hin'
  rw [Bool.eq_iff_iff, hin, hin']

-- ---------------------------------------------------------------------------
-- What a type offers and what fails
-- ---------------------------------------------------------------------------

theorem scopeOf_eq (h : d.Shuffles d') (hp : d.Matches d' p p') : d'.scopeOf p' = d.scopeOf p := by
  simp only [scopeOf, hp.type, h.scope]

theorem sees_eq (h : d.Shuffles d') (hp : d.Matches d' p p')
    (hr : Option.Rel (d.Matches d') requester requester') (access : Access) :
    d'.sees p' requester' access = d.sees p requester access := by
  cases hr with
  | none => cases access <;> rfl
  | some hq =>
    cases access <;>
      simp [sees, h.scopeOf_eq hp, h.scopeOf_eq hq, h.within_eq hp hq]

theorem offers_eq (h : d.Shuffles d') (hp : d.Matches d' p p')
    (hr : Option.Rel (d.Matches d') requester requester') (n : UInt32) :
    d'.offers p' requester' n = d.offers p requester n := by
  simp only [offers, hp.type, h.sees_eq hp hr]

theorem baseFailure?_alike (h : d.Shuffles d') (hp : d.Matches d' p p') (policy : Policy) :
    FailAlike d d' (d.baseFailure? policy p) (d'.baseFailure? policy p') := by
  have hbase := h.baseOf?_rel hp
  simp only [baseFailure?]
  generalize d.baseOf? p = base at hbase ⊢
  generalize d'.baseOf? p' = base' at hbase ⊢
  cases hbase with
  | none => exact .none
  | @some base base' hbase =>
    have hoffers : d'.offers base' (some p') = d.offers base (some p) :=
      funext fun n => h.offers_eq hbase (.some hp) n
    simp only [Option.bind_some, hp.type, hbase.type, hoffers]
    split
    · cases policy.rejected? (d.offers base (some p)) p.type.callCounts with
      | none => exact .none
      | some n => exact .some ⟨hbase, rfl⟩
    · exact .none

theorem creationFailure?_alike (h : d.Shuffles d')
    (hr : Option.Rel (d.Matches d') requester requester') (c : CreationDump) :
    FailAlike d d' (d.creationFailure? requester c) (d'.creationFailure? requester' c) := by
  have htarget := h.find?_rel c.target
  simp only [creationFailure?]
  generalize d.find? c.target = target at htarget ⊢
  generalize d'.find? c.target = target' at htarget ⊢
  cases htarget with
  | none => exact .none
  | @some target target' htarget =>
    simp only [Option.bind_some, htarget.type, h.offers_eq htarget hr]
    split
    · exact .some ⟨htarget, rfl⟩
    · exact .none

end Shuffles

-- ---------------------------------------------------------------------------
-- Reports of a dump
-- ---------------------------------------------------------------------------

def nameOf (d : UnitDump) (number : Nat) : String :=
  ((d.places[number]?).map (·.type.name)).getD "<unknown>"

def report (d : UnitDump) (f : Finding) : Report :=
  ⟨f.origin, d.nameOf f.subject, f.message, f.related⟩

theorem nameOf_number (hp : p ∈ d.places) : d.nameOf p.number = p.type.name := by
  simp [nameOf, Lowered.getElem?_places hp]

theorem report_blaming (hp : d.Matches d' p p') (hq : d.Matches d' q q') (n : UInt32)
    (origin : Origin) : d'.report (.blaming q' n origin p'.number) =
      d.report (.blaming q n origin p.number) := by
  simp only [report, Finding.blaming, nameOf_number hp.mem, nameOf_number hp.mem', hp.type,
    hq.type]

theorem FailAlike.map_report {f f' : Option (Place × UInt32)}
    {found found' : Place × UInt32 → Finding} (h : FailAlike d d' f f')
    (hfound : ∀ {q q'}, d.Matches d' q q' → ∀ n,
      d'.report (found' (q', n)) = d.report (found (q, n))) :
    (f'.map found').map d'.report = (f.map found).map d.report := by
  cases h with
  | none => rfl
  | @some f f' hfail =>
    obtain ⟨q, n⟩ := f
    obtain ⟨q', n'⟩ := f'
    obtain ⟨hq, hn⟩ := hfail
    obtain rfl : n' = n := hn
    exact congrArg some (hfound hq n')

namespace Shuffles

theorem report_baseFinding? (h : d.Shuffles d') (o : Options) (hp : d.Matches d' p p') :
    (d'.baseFinding? o p').map d'.report = (d.baseFinding? o p).map d.report :=
  (h.baseFailure?_alike hp o.policy).map_report fun hbase n =>
    report_blaming hp hbase n .baseBinding

theorem report_creationFinding? (h : d.Shuffles d') (o : Options)
    (hr : Option.Rel (d.Matches d') requester requester') (c : CreationDump) :
    (d'.creationFinding? o requester' c).map d'.report =
      (d.creationFinding? o requester c).map d.report := by
  unfold creationFinding?
  split
  · exact (h.creationFailure?_alike hr c).map_report fun htarget n =>
      report_blaming htarget htarget n .instantiation
  · rfl

theorem reports_creations (h : d.Shuffles d') (o : Options)
    (hr : Option.Rel (d.Matches d') requester requester') (creations : List CreationDump) :
    (creations.filterMap (d'.creationFinding? o requester')).map d'.report =
      (creations.filterMap (d.creationFinding? o requester)).map d.report := by
  simp only [List.map_filterMap, h.report_creationFinding? o hr]

theorem reports_findingsAll (h : d.Shuffles d') (o : Options) {types : List TypeDump}
    {number number' : Nat} {around around' : List Nat}
    (hplaces : placesAll number around types ⊆ d.places)
    (hplaces' : placesAll number' around' types ⊆ d'.places) :
    (d'.findingsAll o number' around' types).map d'.report =
      (d.findingsAll o number around types).map d.report := by
  induction types using forest_induction generalizing number number' around around' with
  | nil => rfl
  | cons t rest ihnested ihrest =>
    rw [placesAll_cons, List.cons_subset, List.append_subset] at hplaces hplaces'
    obtain ⟨hp, hnested, hrest⟩ := hplaces
    obtain ⟨hp', hnested', hrest'⟩ := hplaces'
    have hself : d.Matches d' ⟨number, around, t⟩ ⟨number', around', t⟩ := ⟨hp, hp', rfl⟩
    simp only [findingsAll_cons, List.map_append, ihnested hnested hnested', ihrest hrest hrest',
      h.reports_creations o (.some hself), ← Option.toList_map, h.report_baseFinding? o hself]

end Shuffles

-- ---------------------------------------------------------------------------
-- Lowering
-- ---------------------------------------------------------------------------

namespace Shuffles

theorem addressable (h : d.Shuffles d') (hc : d'.creations = d.creations) (hd : d.Addressable) :
    d'.Addressable where
  types := h.allTypes_perm.length_eq ▸ hd.types
  ctors := (h.allTypes_perm.flatMap_right _).length_eq ▸ hd.ctors
  creations := hc ▸ (h.allTypes_perm.flatMap_right _).length_eq ▸ hd.creations

theorem misplacesVariadic (h : d.Shuffles d') : d'.MisplacesVariadic → d.MisplacesVariadic := by
  rintro ⟨t, ht, hfault⟩
  exact ⟨t, h.allTypes_perm.mem_iff.mp ht, hfault⟩

theorem namesSelf (h : d.Shuffles d') : d'.NamesSelf → d.NamesSelf := by
  rintro ⟨p', -, name, hbase, hroot, hfind⟩
  obtain ⟨p, hp, hmatch⟩ := h.symm.exists_find? hfind
  rw [← hmatch.type] at hbase
  exact ⟨p, hmatch.mem', name, hbase, hroot, hp⟩

theorem exists_lower (h : d.Shuffles d') (hc : d'.creations = d.creations) (hd : d.Addressable)
    (hlower : ∃ u, d.lower = .ok u) : ∃ u', d'.lower = .ok u' := by
  rw [exists_lower_iff hd] at hlower
  rw [exists_lower_iff (h.addressable hc hd)]
  exact ⟨mt h.misplacesVariadic hlower.1, mt h.namesSelf hlower.2⟩

end Shuffles

end UnitDump

-- ---------------------------------------------------------------------------
-- Reports of a unit
-- ---------------------------------------------------------------------------

/-- What is said about a top-level type and all inside it. -/
structure Block where
  name : String
  reports : List Report
  deriving DecidableEq, Repr

namespace CompilationUnit

def report (u : CompilationUnit) (i : Issue) : Report :=
  ⟨i.origin, u.typeName i.subject, i.message, i.related.map (·.message)⟩

/-- What the check of the unit says, in the order of its issues. -/
def reports (u : CompilationUnit) (o : Options) : List Report :=
  (u.check u.resolver o .never).bag.issues.toList.map u.report

def reportsAlong (u : CompilationUnit) (o : Options) (walk : List Item) : List Report :=
  walk.filterMap fun item => (u.finding? u.resolver o item).map u.report

def blocks (u : CompilationUnit) (o : Options) : List Block :=
  u.roots.map fun root => ⟨u.typeName root, u.reportsAlong o (u.visits (.type root))⟩

def topLevelReports (u : CompilationUnit) (o : Options) : List Report :=
  u.reportsAlong o (u.topLevelCreations.map .creation)

theorem report_numberedFrom (u : CompilationUnit) (n : Nat) (issues : List Issue) :
    (Run.numberedFrom n issues).map u.report = issues.map u.report := by
  have hissues := congrArg (List.map u.report) (List.zipIdx_map_fst n issues)
  rw [List.map_map] at hissues
  rw [Run.numberedFrom, List.map_map]
  exact hissues

theorem reports_eq (u : CompilationUnit) (o : Options) :
    u.reports o = u.reportsAlong o (u.topLevelItems.flatMap u.visits) := by
  have hissues : (u.check u.resolver o .never).bag.issues.toList = _ :=
    issues_checkItems u.resolver o u.topLevelItems (.start u.fileName)
  have hstart : (Run.start u.fileName).bag.issues.toList = [] := rfl
  rw [reports, hissues, hstart, List.nil_append, report_numberedFrom, List.map_filterMap]
  rfl

end CompilationUnit

namespace Lowered

variable {d : UnitDump} {u : CompilationUnit} {p : Place} {t : TypeDump} {number : Nat}

theorem typeName_eq (h : Lowered d u) (id : TypeId) : u.typeName id = d.nameOf id.index := by
  have hget : (u.types[id.index]?).map (·.name) = (d.places[id.index]?).map (·.type.name) := by
    have hbare := congrArg (fun o : Outline => (o.types[id.index]?).map (·.name)) h.outline
    simp only [CompilationUnit.outline, UnitDump.outline, List.getElem?_map, Option.map_map,
      Array.getElem?_toList] at hbare
    exact hbare
  rw [typeName, type?_eq_getElem? (Nat.le_of_lt h.addressable.types), hget, UnitDump.nameOf]

theorem report_eq (h : Lowered d u) : u.report = d.report ∘ Issue.finding := by
  funext i
  simp only [CompilationUnit.report, UnitDump.report, Issue.finding, Function.comp_apply,
    h.typeName_eq]

theorem reportsAlong_eq (h : Lowered d u) (o : Options) (walk : List Item) :
    u.reportsAlong o walk = (walk.filterMap (at? u o)).map d.report := by
  have hat : ∀ item, (at? u o item).map d.report =
      (u.finding? u.resolver o item).map u.report := by
    intro item
    rw [at?, Option.map_map, h.report_eq]
  simp only [reportsAlong, List.map_filterMap, hat]

theorem block_eq (h : Lowered d u) (o : Options) (hplaces : placesAll number [] [t] ⊆ d.places) :
    u.typeName (.ofIndex number) = t.name ∧
      u.reportsAlong o (u.visits (.type (.ofIndex number))) =
        (d.findingsAll o number [] [t]).map d.report := by
  have hp : (⟨number, [], t⟩ : Place) ∈ d.places := by
    rw [placesAll_cons] at hplaces
    exact hplaces List.mem_cons_self
  have hwalk := walked_visits h.linked h.addressable [Item.type (.ofIndex number)]
  rw [List.flatMap_singleton] at hwalk
  refine ⟨h.typeName_id hp, ?_⟩
  rw [h.reportsAlong_eq, h.findings_walked o (fun _ hq => hplaces hq) hwalk]

theorem topLevelReports_eq (h : Lowered d u) (o : Options) : u.topLevelReports o =
    (d.creations.filterMap (d.creationFinding? o none)).map d.report := by
  have hcreations := h.filterMap_creations forall_mem_none o
  rw [topLevelReports, h.reportsAlong_eq]
  exact congrArg (List.map d.report) hcreations

theorem reports_blocks (h : Lowered d u) (o : Options) :
    u.reports o = (u.blocks o).flatMap (·.reports) ++ u.topLevelReports o := by
  have hcontents : (u.contents .absent).creations = u.topLevelCreations := by
    simp [contents]
  have hitems : u.topLevelItems =
      u.roots.map .type ++ u.topLevelCreations.map .creation := by
    rw [h.topLevelItems_eq, hcontents, h.renders.roots, List.map_map]
    rfl
  have hvisits : (u.topLevelCreations.map Item.creation).flatMap u.visits =
      u.topLevelCreations.map .creation := by
    have hself : ∀ id, u.visits (.creation id) = [.creation id] := by
      intro id
      cases hsize : u.types.size <;> simp [visits, visitsWithin, hsize]
    simp only [List.flatMap_map, hself]
    exact List.map_eq_flatMap.symm
  rw [reports_eq, hitems, List.flatMap_append, hvisits, blocks, List.flatMap_map,
    List.flatMap_map]
  simp only [reportsAlong, topLevelReports, List.filterMap_append, List.filterMap_flatMap]

end Lowered

namespace UnitDump

variable {d d' : UnitDump} {u u' : CompilationUnit} {o : Options} {t : TypeDump} {b b' : Block}

/-- The block is what is found at a place of this type and below. -/
def BlockOf (d : UnitDump) (o : Options) (t : TypeDump) (b : Block) : Prop :=
  ∃ k, placesAll k [] [t] ⊆ d.places ∧ b = ⟨t.name, (d.findingsAll o k [] [t]).map d.report⟩

theorem forall₂_blockOf (h : Lowered d u) (o : Options) :
    List.Forall₂ (d.BlockOf o) d.types (u.blocks o) := by
  rw [blocks, h.renders.roots, List.map_map, List.forall₂_map_right_iff]
  refine (forall₂_numbers 0 [] d.types).imp ?_
  intro t k hplaces
  obtain ⟨hname, hreports⟩ := h.block_eq o hplaces
  exact ⟨k, hplaces, congrArg₂ Block.mk hname hreports⟩

theorem Shuffles.block_eq (h : d.Shuffles d') (hb : d.BlockOf o t b) (hb' : d'.BlockOf o t b') :
    b' = b := by
  obtain ⟨k, hplaces, rfl⟩ := hb
  obtain ⟨k', hplaces', rfl⟩ := hb'
  rw [h.reports_findingsAll o hplaces hplaces']

theorem Shuffles.blocks_eq (h : d.Shuffles d') {types : List TypeDump} {blocks blocks' : List Block}
    (hb : List.Forall₂ (d.BlockOf o) types blocks)
    (hb' : List.Forall₂ (d'.BlockOf o) types blocks') : blocks' = blocks := by
  induction hb generalizing blocks' with
  | nil =>
    cases hb'
    rfl
  | cons hfirst _ ih =>
    cases hb' with
    | cons hfirst' hrest' => rw [h.block_eq hfirst hfirst', ih hrest']

theorem Shuffles.blocks_perm (h : d.Shuffles d') (hu : Lowered d u) (hu' : Lowered d' u')
    (o : Options) : (u'.blocks o).Perm (u.blocks o) := by
  obtain ⟨moved, hmoved, hperm⟩ := List.perm_comp_forall₂ h.types (forall₂_blockOf hu o)
  rw [h.blocks_eq hmoved (forall₂_blockOf hu' o)]
  exact hperm

/-- The check reports by blocks, one for each top-level type of the dump in its
order, and the creations at the top level last. -/
structure ReportsInBlocks (d : UnitDump) (u : CompilationUnit) (o : Options) : Prop where
  names : (u.blocks o).map (·.name) = d.types.map (·.name)
  reports : u.reports o = (u.blocks o).flatMap (·.reports) ++ u.topLevelReports o

theorem reportsInBlocks (h : Lowered d u) (o : Options) : d.ReportsInBlocks u o where
  names := by
    have hblocks := forall₂_blockOf h o
    rw [← List.forall₂_eq_eq_eq, List.forall₂_map_left_iff, List.forall₂_map_right_iff]
    refine hblocks.flip.imp ?_
    rintro _ t ⟨k, -, rfl⟩
    rfl
  reports := h.reports_blocks o

/-- If a dump with distinct names can be lowered, so can each dump with its
top-level types in another order; and under all options the blocks of its issues
stand in that order, each with what it said before, and the block of the
top-level creations is last and the same. -/
theorem lower_reordered {types : List TypeDump} (h : d.Addressable) (hlower : d.lower = .ok u)
    (hnames : (d.allTypes.map (·.name)).Nodup) (hperm : types.Perm d.types) :
    ∃ u', { d with types := types }.lower = .ok u' ∧ ∀ o,
      d.ReportsInBlocks u o ∧ { d with types := types }.ReportsInBlocks u' o ∧
      (u'.blocks o).Perm (u.blocks o) ∧ u'.topLevelReports o = u.topLevelReports o := by
  have hshuffles : d.Shuffles { d with types := types } := ⟨rfl, hperm, hnames⟩
  have haddr := hshuffles.addressable rfl h
  obtain ⟨u', hlower'⟩ := hshuffles.exists_lower rfl h ⟨u, hlower⟩
  have hu := d.lowered hlower (addressable_of_lower h hlower)
  have hu' := UnitDump.lowered hlower' (addressable_of_lower haddr hlower')
  refine ⟨u', hlower', fun o => ⟨reportsInBlocks hu o, reportsInBlocks hu' o,
    hshuffles.blocks_perm hu hu' o, ?_⟩⟩
  rw [hu'.topLevelReports_eq, hu.topLevelReports_eq]
  exact hshuffles.reports_creations o .none d.creations

/-- Bases and targets before and after the types that name them, and a constructor
that only its own type and those inside it can call. -/
def crossed : UnitDump where
  file := "a.cs"
  types := [
    { name := "A", base := some "C"
      nested := [{ name := "B"
                   constructors := [{ access := .ownType, params := [⟨"p", false, false⟩] }] }]
      creations := [⟨"B", 1⟩] },
    { name := "C", constructors := [{ params := [⟨"p", false, false⟩] }]
      creations := [⟨"A", 2⟩] }]
  creations := [⟨"C", 0⟩]

theorem lower_reordered_crossed : crossed.Addressable ∧ (∃ u, crossed.lower = .ok u) ∧
    (crossed.allTypes.map (·.name)).Nodup ∧ crossed.types.reverse.Perm crossed.types ∧
    ∃ u u', crossed.lower = .ok u ∧
      { crossed with types := crossed.types.reverse }.lower = .ok u' ∧
      (u'.blocks {}).Perm (u.blocks {}) ∧ u'.topLevelReports {} = u.topLevelReports {} := by
  have haddr : crossed.Addressable := ⟨by decide, by decide, by decide⟩
  have hlower : crossed.lower = .ok crossed.drafted.unit := rfl
  have hnames : (crossed.allTypes.map (·.name)).Nodup := by decide
  have hperm : crossed.types.reverse.Perm crossed.types := List.reverse_perm _
  obtain ⟨u', hlower', hreports⟩ := lower_reordered haddr hlower hnames hperm
  obtain ⟨-, -, hblocks, hlast⟩ := hreports {}
  exact ⟨haddr, ⟨_, hlower⟩, hnames, hperm, _, u', hlower, hlower', hblocks, hlast⟩

end UnitDump

end CtorArity
