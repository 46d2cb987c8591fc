import CtorArity.Proofs.Cursor
import CtorArity.Proofs.Obligations
import CtorArity.Proofs.Renaming

/-!
# The check of a renamed dump

The check reads no name, and offsets only to list a body, where types come before
creations whatever the names (`typesLead_lower`). So in a renamed dump it finds the
same, item by item (`Renamed.blamed?`, `Renamed.walk`), and says it with the new
names (`check_rename`).
-/

namespace CtorArity

variable {r : String → String}

-- ---------------------------------------------------------------------------
-- Bodies in order, whatever the offsets
-- ---------------------------------------------------------------------------

namespace CompilationUnit

variable {u u' : CompilationUnit}

/-- No body lists a creation before a type. -/
def TypesLead (u : CompilationUnit) : Prop :=
  ∀ owner, ∀ t ∈ (u.contents owner).types, ∀ c, u.startsBefore t c = false

theorem isSome_type?_of_mem_contents {owner t : TypeId} (h : u.Linked)
    (hsize : u.types.size ≤ 0xFFFFFFFF) (ht : t ∈ (u.contents owner).types) :
    (u.type? t).isSome = true := by
  have hlisted : t ∈ handlesWhere (·.parent == owner) u.outline.types := by
    rwa [h.contents] at ht
  have hlength : u.outline.types.length ≤ 0xFFFFFFFF := by simpa using hsize
  obtain ⟨entry, hentry, -⟩ := (mem_handlesWhere hlength).mp hlisted
  have hlt := (List.getElem?_eq_some_iff.mp hentry).1
  rw [type?_eq_getElem? hsize]
  simpa using hlt

theorem typesLead_lower {d : UnitDump} (h : d.lower = .ok u) : u.TypesLead := by
  intro owner t ht c
  have hlast : ∀ a : UInt32, ¬ 0xFFFFFFFF < a := by
    intro a hlt
    rw [UInt32.lt_iff_toNat_lt] at hlt
    have hle := a.toNat_lt
    have htop : (0xFFFFFFFF : UInt32).toNat = 0xFFFFFFFF := rfl
    omega
  rw [startsBefore, decide_eq_false_iff_not, startOf, startOf]
  cases hc : u.creation? c with
  | none => exact hlast _
  | some k =>
    have hk := Array.mem_of_getElem? (getElem?_of_creation? hc)
    cases hs : u.type? t with
    | some s =>
      have hs := Array.mem_of_getElem? (getElem?_of_type? hs)
      exact UInt32.not_lt.mpr (UnitDump.starts_lower h s hs k hk)
    | none =>
      have hsize : 0xFFFFFFFF < u.types.size := by
        by_contra hle
        have hsome := isSome_type?_of_mem_contents (linked_of_finish d.file d.steps h) (by omega) ht
        rw [hs] at hsome
        cases hsome
      rw [Option.map_some, UnitDump.start_eq_last h hsize k hk]
      exact hlast _

theorem itemsOf_of_typesLead (h : u.TypesLead) (owner : TypeId) :
    u.itemsOf owner = (u.contents owner).types.map .type ++
      (u.contents owner).creations.map .creation :=
  mergeByStart_eq fun t ht c _ => h owner t ht c

-- ---------------------------------------------------------------------------
-- Units that differ in names and places only
-- ---------------------------------------------------------------------------

theorem map_bare_type? (u : CompilationUnit) (id : TypeId) :
    (u.type? id).map (·.bare) = if id.isAbsent then none else u.outline.types[id.index]? := by
  unfold type?
  split <;> simp [outline]

theorem map_bare_ctor? (u : CompilationUnit) (id : CtorId) :
    (u.ctor? id).map (·.bare) = if id.isAbsent then none else u.outline.ctors[id.index]? := by
  unfold ctor?
  split <;> simp [outline]

theorem map_bare_creation? (u : CompilationUnit) (id : CreationId) :
    (u.creation? id).map (·.bare) =
      if id.isAbsent then none else u.outline.creations[id.index]? := by
  unfold creation?
  split <;> simp [outline]

/-- The second unit has the tables of the first one under other names, and both list
their bodies in order. -/
structure Renamed (r : String → String) (u u' : CompilationUnit) : Prop where
  outline : u'.outline = u.outline.rename r
  linked : u.Linked
  linked' : u'.Linked
  lead : u.TypesLead
  lead' : u'.TypesLead

namespace Renamed

variable (h : u.Renamed r u')

include h

theorem size_types : u'.types.size = u.types.size := by
  rw [← length_outline_types, h.outline, Outline.rename, List.length_map, length_outline_types]

theorem contents (owner : TypeId) : u'.contents owner = u.contents owner := by
  rw [h.linked'.contents, h.linked.contents, h.outline, Outline.contents_rename]

theorem map_type? {f : TypeDecl → β} (hbare : ∀ t, f t.bare = f t)
    (hname : ∀ t, f (t.rename r) = f t) (id : TypeId) :
    (u'.type? id).map f = (u.type? id).map f := by
  have hread : ∀ v : CompilationUnit, (v.type? id).map f = ((v.type? id).map (·.bare)).map f := by
    intro v
    rw [Option.map_map]
    exact Option.map_congr fun t _ => (hbare t).symm
  have hentry : u'.outline.types[id.index]? = (u.outline.types[id.index]?).map (·.rename r) := by
    rw [h.outline, Outline.rename, List.getElem?_map]
  rw [hread, hread, map_bare_type?, map_bare_type?, hentry]
  split
  · rfl
  · rw [Option.map_map]
    exact Option.map_congr fun t _ => hname t

theorem map_name (id : TypeId) :
    (u'.type? id).map (·.name) = (u.type? id).map fun t => r t.name := by
  have hread : ∀ (v : CompilationUnit) (g : String → String),
      (v.type? id).map (fun t => g t.name) =
        ((v.type? id).map (·.bare)).map fun t => g t.name := by
    intro v g
    rw [Option.map_map]
    rfl
  rw [hread u' (fun name => name), hread u r, map_bare_type?, map_bare_type?, h.outline,
    Outline.rename, List.getElem?_map]
  split
  · rfl
  · rw [Option.map_map]
    rfl

theorem isSome_type? (id : TypeId) : (u'.type? id).isSome = (u.type? id).isSome := by
  have hunit := h.map_type? (f := fun _ => ()) (fun _ => rfl) (fun _ => rfl) id
  rw [← Option.isSome_map, hunit, Option.isSome_map]

theorem map_ctor? (id : CtorId) : (u'.ctor? id).map (·.bare) = (u.ctor? id).map (·.bare) := by
  rw [map_bare_ctor?, map_bare_ctor?, h.outline, Outline.rename]

theorem map_creation? {f : Creation → β} (hbare : ∀ c, f c.bare = f c) (id : CreationId) :
    (u'.creation? id).map f = (u.creation? id).map f := by
  have hread : ∀ v : CompilationUnit,
      (v.creation? id).map f = ((v.creation? id).map (·.bare)).map f := by
    intro v
    rw [Option.map_map]
    exact Option.map_congr fun c _ => (hbare c).symm
  rw [hread, hread, map_bare_creation?, map_bare_creation?, h.outline, Outline.rename]

-- ---------------------------------------------------------------------------
-- The same questions have the same answers
-- ---------------------------------------------------------------------------

theorem ancestorsWithin (steps : Nat) (id : TypeId) :
    u'.ancestorsWithin steps id = u.ancestorsWithin steps id :=
  CompilationUnit.ancestorsWithin_congr (h.map_type? (f := (·.parent)) (fun _ => rfl) fun _ => rfl)
    steps id

theorem sameScope (a b : TypeId) : u'.sameScope a b = u.sameScope a b := by
  have hread : ∀ v : CompilationUnit, v.sameScope a b =
      ((v.type? a).map (·.scope)).any fun s => ((v.type? b).map (·.scope)).any (s == ·) := by
    intro v
    rw [CompilationUnit.sameScope]
    cases v.type? a <;> cases v.type? b <;> rfl
  rw [hread, hread, h.map_type? (fun _ => rfl) (fun _ => rfl),
    h.map_type? (fun _ => rfl) (fun _ => rfl)]

theorem directBase (id : TypeId) : u'.directBase id = u.directBase id := by
  have hread : ∀ v : CompilationUnit, v.directBase id =
      ((v.type? id).map (·.base)).elim .external fun base =>
        if base.declared?.all fun b => (v.type? b).isSome then base else .external := by
    intro v
    rw [CompilationUnit.directBase]
    cases v.type? id with
    | none => rfl
    | some t =>
      cases hbase : t.base with
      | declared base =>
        cases hknown : (v.type? base).isSome <;> simp [hbase, hknown, BaseBinding.declared?]
      | noBase | external => simp [hbase, BaseBinding.declared?]
  rw [hread, hread, h.map_type? (fun _ => rfl) (fun _ => rfl)]
  simp only [h.isSome_type?]

theorem creationTarget? (id : CreationId) : u'.creationTarget? id = u.creationTarget? id := by
  have hread : ∀ v : CompilationUnit, v.creationTarget? id =
      ((v.creation? id).map (·.target)).bind fun target =>
        target.declared?.filter fun t => (v.type? t).isSome := by
    intro v
    rw [CompilationUnit.creationTarget?]
    cases v.creation? id with
    | none => rfl
    | some c =>
      cases htarget : c.target with
      | declared target => simp [htarget, CreationTarget.declared?, Option.filter]
      | unresolved => simp [htarget, CreationTarget.declared?]
  rw [hread, hread, h.map_creation? fun _ => rfl]
  simp only [h.isSome_type?]

theorem resolver : u'.resolver = u.resolver := by
  have hnested : u'.nestedWithin = u.nestedWithin := by
    funext inner outer
    rw [CompilationUnit.nestedWithin, CompilationUnit.nestedWithin, ancestorsAndSelf,
      ancestorsAndSelf, h.size_types, h.ancestorsWithin]
  rw [CompilationUnit.resolver, CompilationUnit.resolver, funext h.directBase,
    funext h.creationTarget?, funext fun a => funext (h.sameScope a), hnested]

theorem ownCtors (id : TypeId) : u'.ownCtors id = u.ownCtors id := by
  have hread : ∀ v : CompilationUnit, v.ownCtors id = if id.isAbsent then [] else
      ((v.contents id).ctors.filterMap fun c => (v.ctor? c).map (·.bare)).filter
        (!·.isStatic) := by
    intro v
    rw [CompilationUnit.ownCtors, instanceConstructorsOf, constructorsOf,
      CompilationUnit.contents]
    cases hid : id.isAbsent
    · cases v.type? id with
      | none => rfl
      | some t =>
        have hmap : t.constructors.filterMap (fun c => (v.ctor? c).map (·.bare)) =
            (t.constructors.filterMap fun c => (v.ctor? c).map (c, ·)).map (·.2.bare) := by
          rw [List.map_filterMap]
          simp only [Option.map_map, Function.comp_def]
        simp only [Bool.false_eq_true, if_false, Option.map_some, Option.getD_some,
          TypeDecl.contents, hmap, List.filter_map]
        rfl
    · simp [type?, hid]
  rw [hread, hread, h.contents]
  simp only [h.map_ctor?]

theorem isClass_iff {f : TypeDecl → Bool} (hbare : ∀ t, f t.bare = f t)
    (hname : ∀ t, f (t.rename r) = f t) (id : TypeId) :
    (∃ t, u'.type? id = some t ∧ f t = true) ↔ ∃ t, u.type? id = some t ∧ f t = true := by
  rw [← Option.map_eq_some_iff, ← Option.map_eq_some_iff, h.map_type? hbare hname]

theorem checkedBase (s : Resolver) (id base : TypeId) :
    u'.checkedBase s id = .ok base ↔ u.checkedBase s id = .ok base := by
  rw [checkedBase_eq_ok, checkedBase_eq_ok, h.isClass_iff (fun _ => rfl) (fun _ => rfl),
    h.isClass_iff (fun _ => rfl) (fun _ => rfl)]

theorem offers (s : Resolver) (target requester : TypeId) :
    u'.offers s target requester = u.offers s target requester := by
  funext n
  rw [CompilationUnit.offers, CompilationUnit.offers, h.ownCtors]

end Renamed

-- ---------------------------------------------------------------------------
-- The same failures
-- ---------------------------------------------------------------------------

/-- The class that an item wrongly relies on, and with how many arguments. -/
def blamed? (u : CompilationUnit) (s : Resolver) (o : Options) : Item → Option (TypeId × UInt32)
  | .type id => (u.baseVerdict s o.policy id).failure?.map fun f => (f.base, f.argCount)
  | .creation id =>
    if o.checkObjectCreation then
      (u.creationVerdict s id).failure?.map fun f => (f.target, f.argCount)
    else none

def issueAt (u : CompilationUnit) : Item → TypeId → UInt32 → Issue
  | .type id => u.baseIssue id
  | .creation id => u.creationIssue id

theorem map_failure?_baseVerdict (u : CompilationUnit) (s : Resolver) (policy : Policy)
    (id : TypeId) : (u.baseVerdict s policy id).failure?.map (fun f => (f.base, f.argCount)) =
      (u.checkedBase s id).toOption.bind fun base =>
        (policy.rejected? (u.offers s base id) (u.callCounts id)).map (base, ·) := by
  have hverdict := congrArg (Option.map Prod.snd) (u.baseVerdict_failure? s policy id)
  rw [Option.map_map] at hverdict
  refine hverdict.trans ?_
  cases (u.checkedBase s id).toOption with
  | none => rfl
  | some base => exact Option.map_map ..

theorem map_failure?_creationVerdict (u : CompilationUnit) (s : Resolver) (id : CreationId) :
    (u.creationVerdict s id).failure?.map (fun f => (f.target, f.argCount)) =
      ((u.creation? id).map fun c => (c.enclosing, c.argCount)).bind fun call =>
        (s.creationTarget id).bind fun target =>
          ((u.type? target).map (·.isConcreteClass)).bind fun concrete =>
            if concrete && !u.offers s target call.1 call.2 then some (target, call.2)
            else none := by
  have hverdict := congrArg (Option.map Prod.snd) (u.creationVerdict_failure? s id)
  rw [Option.map_map] at hverdict
  refine hverdict.trans ?_
  cases u.creation? id with
  | none => rfl
  | some c =>
    cases s.creationTarget id with
    | none => rfl
    | some target =>
      simp only [Option.bind_some, Option.map_some]
      cases u.type? target with
      | none => rfl
      | some t =>
        simp only [Option.bind_some, Option.map_some]
        split <;> rfl

theorem creation_of_failure? {s : Resolver} {id : CreationId} {f : CreationFailure}
    (h : (u.creationVerdict s id).failure? = some f) :
    f.creation = id ∧ (u.type? f.target).isSome = true := by
  have hverdict := u.creationVerdict_failure? s id
  rw [h] at hverdict
  obtain ⟨c, -, hc⟩ := Option.bind_eq_some_iff.mp hverdict.symm
  obtain ⟨target, -, htarget⟩ := Option.bind_eq_some_iff.mp hc
  obtain ⟨t, ht, hn⟩ := Option.bind_eq_some_iff.mp htarget
  obtain ⟨-, hn⟩ := Option.ite_none_right_eq_some.mp hn
  obtain ⟨hid, htarget, -⟩ : id = f.creation ∧ target = f.target ∧ c.argCount = f.argCount := by
    simpa using hn
  exact ⟨hid.symm, htarget ▸ Option.isSome_of_eq_some ht⟩

theorem finding?_eq (u : CompilationUnit) (s : Resolver) (o : Options) (item : Item) :
    u.finding? s o item = (u.blamed? s o item).map fun (id, n) => u.issueAt item id n := by
  cases item with
  | type id =>
    rw [finding?, blamed?, Option.map_map]
    refine Option.map_congr fun f hf => ?_
    rw [issueOfBase, (failure?_eq_some hf).1]
    rfl
  | creation id =>
    rw [finding?, blamed?]
    split
    · rw [Option.map_map]
      refine Option.map_congr fun f hf => ?_
      rw [issueOfCreation, (creation_of_failure? hf).1]
      rfl
    · rfl

theorem isSome_of_blamed? {s : Resolver} {o : Options} {item : Item} {id : TypeId} {n : UInt32}
    (h : u.blamed? s o item = some (id, n)) : (u.type? id).isSome = true := by
  cases item with
  | type derived =>
    obtain ⟨f, hf, ⟨⟩⟩ := Option.map_eq_some_iff.mp h
    obtain ⟨t, ht, -⟩ := (failure?_eq_some hf).2.1.base
    exact Option.isSome_of_eq_some ht
  | creation creation =>
    obtain ⟨-, h⟩ := Option.ite_none_right_eq_some.mp h
    obtain ⟨f, hf, ⟨⟩⟩ := Option.map_eq_some_iff.mp h
    exact (creation_of_failure? hf).2

def charges (u : CompilationUnit) (s : Resolver) (o : Options) (walk : List Item) :
    List (Item × TypeId × UInt32) :=
  walk.filterMap fun item => (u.blamed? s o item).map (item, ·)

theorem issues_check_eq (u : CompilationUnit) (s : Resolver) (o : Options) :
    (u.check s o .never).bag.issues.toList =
      (u.charges s o (u.topLevelItems.flatMap u.visits)).zipIdx.map fun (charge, k) =>
        { u.issueAt charge.1 charge.2.1 charge.2.2 with order := UInt32.ofNat k } := by
  have hfound : (u.topLevelItems.flatMap u.visits).filterMap (u.finding? s o) =
      (u.charges s o (u.topLevelItems.flatMap u.visits)).map fun charge =>
        u.issueAt charge.1 charge.2.1 charge.2.2 := by
    rw [charges, List.map_filterMap]
    refine List.filterMap_congr fun item _ => ?_
    rw [finding?_eq, Option.map_map]
    rfl
  refine (issues_checkItems s o u.topLevelItems (.start u.fileName)).trans ?_
  rw [hfound, Run.numberedFrom, List.zipIdx_map, List.map_map]
  rfl

namespace Renamed

variable (h : u.Renamed r u')

include h

theorem blamed? (s : Resolver) (o : Options) (item : Item) :
    u'.blamed? s o item = u.blamed? s o item := by
  cases item with
  | type id =>
    have hbase : (u'.checkedBase s id).toOption = (u.checkedBase s id).toOption := by
      have hread : ∀ (v : CompilationUnit) base, (v.checkedBase s id).toOption = some base ↔
          v.checkedBase s id = .ok base := by
        intro v base
        cases v.checkedBase s id <;> simp [Except.toOption]
      exact Option.ext fun base => by rw [hread, hread, h.checkedBase]
    have hcalls : u'.callCounts id = u.callCounts id := by
      rw [CompilationUnit.callCounts, CompilationUnit.callCounts, h.ownCtors]
    rw [CompilationUnit.blamed?, CompilationUnit.blamed?, map_failure?_baseVerdict,
      map_failure?_baseVerdict, hbase, hcalls]
    simp only [h.offers]
  | creation id =>
    rw [CompilationUnit.blamed?, CompilationUnit.blamed?, map_failure?_creationVerdict,
      map_failure?_creationVerdict, h.map_creation? fun _ => rfl]
    simp only [h.map_type? (f := (·.isConcreteClass)) (fun _ => rfl) (fun _ => rfl), h.offers]

theorem itemsOf (owner : TypeId) : u'.itemsOf owner = u.itemsOf owner := by
  rw [itemsOf_of_typesLead h.lead', itemsOf_of_typesLead h.lead, h.contents]

theorem visitsWithin (depth : Nat) (item : Item) :
    u'.visitsWithin depth item = u.visitsWithin depth item := by
  have hbody : ∀ id, u'.bodyItems id = u.bodyItems id := by
    intro id
    cases hid : id.isAbsent
    · rw [bodyItems_eq hid, bodyItems_eq hid, h.itemsOf]
    · rw [Handle.isAbsent_iff.mp hid, bodyItems_absent, bodyItems_absent]
  induction depth generalizing item with
  | zero => cases item <;> rfl
  | succ depth ih =>
    cases item with
    | creation id => rfl
    | type id =>
      rw [CompilationUnit.visitsWithin, CompilationUnit.visitsWithin, hbody, funext ih]

theorem walk : u'.topLevelItems.flatMap u'.visits = u.topLevelItems.flatMap u.visits := by
  have hvisits : u'.visits = u.visits := by
    funext item
    rw [visits, visits, h.size_types, h.visitsWithin]
  rw [topLevelItems_eq, topLevelItems_eq, h.itemsOf, hvisits]

end Renamed

end CompilationUnit

/-- Two issues about one item, which wrongly relies on one class with one number of
arguments. Only the name of the class is another one. -/
structure Issue.Retold (r : String → String) (u u' : CompilationUnit) (o : Options)
    (i i' : Issue) : Prop where
  origin : i'.origin = i.origin
  subject : i'.subject = i.subject
  order : i'.order = i.order
  blamed : ∃ item id n t, u.blamed? u.resolver o item = some (id, n) ∧
    u'.blamed? u'.resolver o item = some (id, n) ∧ u.type? id = some t ∧
    i = { u.issueAt item id n with order := i.order } ∧
    i' = { u'.issueAt item id n with order := i.order } ∧
    i.message = arityMessage t.name n ∧ i'.message = arityMessage (r t.name) n

namespace CompilationUnit

variable {u u' : CompilationUnit}

theorem Renamed.retold (h : u.Renamed r u') {o : Options} {item : Item} {id : TypeId} {n : UInt32}
    (hblamed : u.blamed? u.resolver o item = some (id, n)) (k : UInt32) :
    Issue.Retold r u u' o { u.issueAt item id n with order := k }
      { u'.issueAt item id n with order := k } := by
  obtain ⟨t, ht⟩ := Option.isSome_iff_exists.mp (isSome_of_blamed? hblamed)
  have hname : ∀ v : CompilationUnit, (v.issueAt item id n).message =
      arityMessage (v.typeName id) n := fun v => by cases item <;> rfl
  have hold : u.typeName id = t.name := by simp [typeName, ht]
  have hnew : u'.typeName id = r t.name := by simp [typeName, h.map_name, ht]
  have hresolver : u'.blamed? u'.resolver o item = some (id, n) := by
    rw [h.resolver, h.blamed?]
    exact hblamed
  constructor
  · cases item <;> rfl
  · cases item <;> rfl
  · rfl
  · exact ⟨item, id, n, t, hblamed, hresolver, ht, rfl, rfl, hold ▸ hname u, hnew ▸ hname u'⟩

end CompilationUnit

namespace UnitDump

variable {d : UnitDump} {u : CompilationUnit}

/-- Names matter only through which of them are the same. The dump with other names,
kept apart, can be lowered, and under all options the same is found in it, in the
same order, and told with the new names. -/
theorem check_rename (hr : RenamesApart r) (h : d.lower = .ok u) :
    ∃ u', (d.rename r).lower = .ok u' ∧ ∀ o, List.Forall₂ (Issue.Retold r u u' o)
      (u.check u.resolver o .never).bag.issues.toList
      (u'.check u'.resolver o .never).bag.issues.toList := by
  obtain ⟨u', h', houtline⟩ := exists_lower_rename hr h
  have hrenamed : u.Renamed r u' :=
    ⟨houtline, CompilationUnit.linked_of_finish d.file d.steps h,
      CompilationUnit.linked_of_finish _ _ h', CompilationUnit.typesLead_lower h,
      CompilationUnit.typesLead_lower h'⟩
  refine ⟨u', h', fun o => ?_⟩
  have hcharges : u'.charges u'.resolver o (u'.topLevelItems.flatMap u'.visits) =
      u.charges u.resolver o (u.topLevelItems.flatMap u.visits) := by
    rw [hrenamed.walk, hrenamed.resolver, CompilationUnit.charges, CompilationUnit.charges,
      funext (hrenamed.blamed? u.resolver o)]
  rw [CompilationUnit.issues_check_eq, CompilationUnit.issues_check_eq, hcharges,
    List.forall₂_map_left_iff, List.forall₂_map_right_iff, List.forall₂_same]
  rintro ⟨⟨item, id, n⟩, k⟩ hcharge
  obtain ⟨_, -, hitem⟩ := List.mem_filterMap.mp (List.fst_mem_of_mem_zipIdx hcharge)
  obtain ⟨_, hblamed, ⟨⟩⟩ := Option.map_eq_some_iff.mp hitem
  exact hrenamed.retold hblamed _

/-- A class with the root as its base, a class inside it that extends and creates it,
and creations at the top level. -/
def rooted : UnitDump where
  file := "a.cs"
  types := [{
    name := "A", base := some "object"
    constructors := [{ params := [⟨"p", false, false⟩] }]
    nested := [{ name := "B", base := some "A", creations := [⟨"A", 2⟩] }] }]
  creations := [⟨"A", 0⟩, ⟨"Nowhere", 1⟩]

/-- Leaves the class without any text for its name, and writes the root in another way. -/
def unnaming : String → String := Equiv.swap "A" "" ∘ Equiv.swap "object" "Object"

theorem check_rename_rooted : RenamesApart unnaming ∧ rooted.lower = .ok rooted.drafted.unit ∧
    (rooted.drafted.unit.check rooted.drafted.unit.resolver {} .never).bag.issues.toList.length =
      3 ∧
    ∃ u', (rooted.rename unnaming).lower = .ok u' ∧ ∀ o,
      List.Forall₂ (Issue.Retold unnaming rooted.drafted.unit u' o)
        (rooted.drafted.unit.check rooted.drafted.unit.resolver o .never).bag.issues.toList
        (u'.check u'.resolver o .never).bag.issues.toList := by
  have hr : RenamesApart unnaming :=
    (renamesApart_swap (by decide)).comp (renamesApart_swap (by decide))
  have hlower : rooted.lower = .ok rooted.drafted.unit := rfl
  exact ⟨hr, hlower, rfl, check_rename hr hlower⟩

end UnitDump

end CtorArity
