import CtorArity.Proofs.Reshape

/-!
# Wider access

A constructor with another access changes the lowered unit in that one table
entry (`lower_setAccess`), because no step reads an access. Wider access lets
every caller in that was let in before, but for one case: a type inside the
class may call a private constructor whatever its scope is, and may not call
one that is open to the class's scope if it has a scope of its own
(`admits_of_wider`). `lower_wider` says what this means for the findings.
-/

namespace CtorArity

/-- How far an access reaches; of `subtypes` and `scope` neither reaches further. -/
def Access.rank : Access → Nat
  | .ownType => 0
  | .subtypesInScope => 1
  | .subtypes => 2
  | .scope => 2
  | .subtypesOrScope => 3
  | .everywhere => 4

def Ctor.setAccess (access : Access) (c : Ctor) : Ctor := { c with access := access }

def CompilationUnit.setAccess (i : Nat) (access : Access) (u : CompilationUnit) :
    CompilationUnit :=
  { u with ctors := u.ctors.modify i (·.setAccess access) }

theorem CompilationUnit.ancestorsWithin_setAccess (i : Nat) (access : Access)
    (u : CompilationUnit) (steps : Nat) (id : TypeId) :
    (u.setAccess i access).ancestorsWithin steps id = u.ancestorsWithin steps id := by
  have hparent : ∀ id, ((u.setAccess i access).type? id).map (·.parent) =
      (u.type? id).map (·.parent) := fun _ => rfl
  exact ancestorsWithin_congr hparent steps id

-- ---------------------------------------------------------------------------
-- No step reads an access
-- ---------------------------------------------------------------------------

namespace Draft

variable {i : Nat} {access : Access} {d : Draft}

def setAccess (i : Nat) (access : Access) (d : Draft) : Draft :=
  { d with unit := d.unit.setAccess i access }

theorem closeOwner_setAccess (id : TypeId) (d : Draft) :
    (d.setAccess i access).closeOwner id = (d.closeOwner id).setAccess i access := by
  have hancestors : (d.setAccess i access).unit.ancestorsAndSelf id =
      d.unit.ancestorsAndSelf id :=
    CompilationUnit.ancestorsWithin_setAccess i access d.unit _ id
  rw [closeOwner_eq, closeOwner_eq, hancestors]
  rfl

theorem addType_setAccess (t : TypeDecl) (d : Draft) :
    (d.setAccess i access).addType t = ((d.addType t).1.setAccess i access, (d.addType t).2) := by
  cases ht : t.parent.isAbsent
  · rw [addType_nested ht, addType_nested ht, ← closeOwner_setAccess]
    rfl
  · rw [addType_top ht, addType_top ht]
    rfl

theorem addCreation_setAccess (c : Creation) (d : Draft) :
    (d.setAccess i access).addCreation c =
      ((d.addCreation c).1.setAccess i access, (d.addCreation c).2) := by
  cases hc : c.enclosing.isAbsent
  · rw [addCreation_enclosed hc, addCreation_enclosed hc, ← closeOwner_setAccess]
    rfl
  · rw [addCreation_top hc, addCreation_top hc]
    rfl

theorem addCtor_setAccess (c : Ctor) (h : i < d.unit.ctors.size) :
    (d.setAccess i access).addCtor c =
      ((d.addCtor c).1.setAccess i access, (d.addCtor c).2) := by
  have hsize : (d.setAccess i access).unit.ctors.size = d.unit.ctors.size :=
    Array.size_modify
  have hpush : (d.setAccess i access).unit.ctors.push c =
      (d.unit.ctors.push c).modify i (·.setAccess access) := modify_push _ _ h
  rw [addCtor_eq, addCtor_eq, hsize, hpush, ← closeOwner_setAccess]
  rfl

theorem setAccess_addCtor_last (c : Ctor) (d : Draft) :
    (d.addCtor c).1.setAccess d.unit.ctors.size access = (d.addCtor (c.setAccess access)).1 := by
  have hpush := modify_push_last (f := Ctor.setAccess access) d.unit.ctors c
  rw [addCtor_eq, addCtor_eq, ← hpush, ← closeOwner_setAccess]
  rfl

theorem declare_setAccess (spec : TypeSpec) (d : Draft) :
    (d.setAccess i access).declare spec =
      ((d.declare spec).1.setAccess i access, (d.declare spec).2) := by
  have hknows : (d.setAccess i access).knows spec.parent = d.knows spec.parent := rfl
  simp only [declare, hknows]
  split
  · exact addType_setAccess _ ((d.advance 5).2.advance (textLength spec.name)).2
  · rfl

theorem setBase_setAccess (id : TypeId) (base : BaseBinding) (d : Draft) :
    (d.setAccess i access).setBase id base = (d.setBase id base).setAccess i access := by
  have hknows : (d.setAccess i access).knows = d.knows := rfl
  simp only [setBase, hknows]
  split
  · rfl
  · split <;> rfl

theorem addConstructor_setAccess (owner : TypeId) (spec : CtorSpec)
    (h : i < d.unit.ctors.size) : (d.setAccess i access).addConstructor owner spec =
      ((d.addConstructor owner spec).1.setAccess i access, (d.addConstructor owner spec).2) := by
  have htype : (d.setAccess i access).unit.type? owner = d.unit.type? owner := rfl
  simp only [addConstructor, htype]
  cases d.unit.type? owner with
  | none => rfl
  | some t =>
    simp only [layInitializer]
    cases spec.initializer with
    | none =>
      exact addCtor_setAccess _ (d := ((d.advance _).2.advance 2).2) h
    | some clause =>
      exact addCtor_setAccess _ (d := (((d.advance _).2.advance _).2.advance 2).2) h

theorem create_setAccess (enclosing : TypeId) (target : CreationTarget) (argCount : UInt32)
    (d : Draft) : (d.setAccess i access).create enclosing target argCount =
      ((d.create enclosing target argCount).1.setAccess i access,
        (d.create enclosing target argCount).2) := by
  have hunknown : (d.setAccess i access).unknownIn enclosing target =
      d.unknownIn enclosing target := rfl
  simp only [create, hunknown]
  cases d.unknownIn enclosing target with
  | some id => rfl
  | none => exact addCreation_setAccess _ (d.advance (callLength argCount)).2

theorem apply_setAccess (h : i < d.unit.ctors.size) (step : Step) :
    (d.setAccess i access).apply step =
      ((d.apply step).1.setAccess i access, (d.apply step).2) := by
  cases step with
  | withScope scope => rfl
  | declare spec => simp only [apply, declare_setAccess]
  | setBase id base => simp only [apply, setBase_setAccess]
  | addConstructor owner spec => simp only [apply, addConstructor_setAccess owner spec h]
  | create enclosing target argCount => simp only [apply, create_setAccess]

theorem addConstructor_setAccess_last (owner : TypeId) (spec : CtorSpec)
    (h : d.knows owner = true) : (d.addConstructor owner { spec with access := access }).1 =
      (d.addConstructor owner spec).1.setAccess d.unit.ctors.size access := by
  obtain ⟨t, ht⟩ := knows_iff.mp h
  let head := (d.advance (headLength t.name spec.params)).2
  simp only [addConstructor, ht, layInitializer]
  apply Eq.symm
  cases spec.initializer with
  | none => exact setAccess_addCtor_last _ (head.advance 2).2
  | some clause =>
    exact setAccess_addCtor_last _ ((head.advance (callLength clause.2)).2.advance 2).2

theorem size_ctors_apply (d : Draft) (step : Step) :
    d.unit.ctors.size ≤ (d.apply step).1.unit.ctors.size := by
  cases hs : d.unknown? step with
  | some id =>
    rw [apply_of_unknown hs]
    exact Nat.le_refl _
  | none =>
    rw [← CompilationUnit.length_outline_ctors, ← CompilationUnit.length_outline_ctors,
      (apply_of_known hs).1]
    cases step <;> simp [Outline.apply]

theorem run_setAccess (h : i < d.unit.ctors.size) (steps : List Step) :
    (d.setAccess i access).run steps = (d.run steps).setAccess i access := by
  induction steps generalizing d with
  | nil => rfl
  | cons step rest ih =>
    have hstep : ((d.setAccess i access).apply step).1 = (d.apply step).1.setAccess i access :=
      congrArg Prod.fst (apply_setAccess h step)
    exact (congrArg (·.run rest) hstep).trans
      (ih (Nat.lt_of_lt_of_le h (size_ctors_apply d step)))

theorem run_addConstructor_setAccess {owner : TypeId} (h : d.knows owner = true)
    (spec : CtorSpec) (rest : List Step) :
    d.run (.addConstructor owner { spec with access } :: rest) =
      (d.run (.addConstructor owner spec :: rest)).setAccess d.unit.ctors.size access := by
  have hgrow := congrArg (·.ctors.length)
    (apply_of_known ((unknown?_addConstructor d owner spec).mpr h)).1
  simp only [CompilationUnit.length_outline_ctors, Outline.apply, List.length_append,
    List.length_singleton] at hgrow
  have hsize : d.unit.ctors.size < (d.apply (.addConstructor owner spec)).1.unit.ctors.size := by
    omega
  have hlast : (d.addConstructor owner { spec with access }).1 =
      (d.addConstructor owner spec).1.setAccess d.unit.ctors.size access :=
    addConstructor_setAccess_last owner spec h
  exact (congrArg (·.run rest) hlast).trans (run_setAccess hsize rest)

theorem finish_setAccess (h : d.finish = .ok u) :
    (d.setAccess i access).finish = .ok (u.setAccess i access) := by
  obtain ⟨hfaults, hctor, hbase, rfl⟩ := finish_eq_ok.mp h
  refine finish_eq_ok.mpr ⟨hfaults, ?_, hbase, rfl⟩
  have hmap : (d.setAccess i access).unit.ctors.map (fun c => (c.owner, c.params)) =
      d.unit.ctors.map fun c => (c.owner, c.params) := by
    apply map_modify
    exact fun _ => rfl
  have hfault : ∀ u : CompilationUnit, u.ctorFault? =
      (u.ctors.map fun c => (c.owner, c.params)).toList.findSome? fun c =>
        paramFault? (((u.type? c.1).map (·.name)).getD "") c.2 := by
    intro u
    rw [Array.toList_map, List.findSome?_map]
    rfl
  rw [hfault, hmap]
  exact (hfault d.unit).symm.trans hctor

end Draft

namespace Outline

theorem ctors_prefix_foldl (steps : List Step) (o : Outline) :
    o.ctors <+: (steps.foldl Outline.apply o).ctors := by
  induction steps generalizing o with
  | nil => exact List.prefix_rfl
  | cons step rest ih =>
    refine List.IsPrefix.trans ?_ (ih _)
    cases step with
    | addConstructor owner spec => exact List.prefix_append _ _
    | _ => exact List.prefix_rfl

end Outline

theorem Draft.access_run_addConstructor {d : Draft} {owner : TypeId} {spec : CtorSpec}
    {rest : List Step} (h : (d.run (.addConstructor owner spec :: rest)).faults = d.faults) :
    ((d.run (.addConstructor owner spec :: rest)).unit.ctors[d.unit.ctors.size]?).map (·.access) =
      some spec.access := by
  have houtline := outline_run h
  rw [List.foldl_cons] at houtline
  obtain ⟨more, hmore⟩ := Outline.ctors_prefix_foldl rest
    (d.unit.outline.apply (.addConstructor owner spec))
  have hget : (d.run (.addConstructor owner spec :: rest)).unit.outline.ctors[
      d.unit.ctors.size]? = some (spec.bare owner) := by
    rw [houtline, ← hmore, ← CompilationUnit.length_outline_ctors]
    simp [Outline.apply]
  rw [CompilationUnit.outline, List.getElem?_map, Option.map_eq_some_iff] at hget
  obtain ⟨entry, hentry, hbare⟩ := hget
  rw [Array.getElem?_toList] at hentry
  rw [hentry]
  exact congrArg some (congrArg Ctor.access hbare)

namespace UnitDump

variable {d : UnitDump} {u : CompilationUnit} {k j : Nat} {c : CtorDump} {access : Access}

theorem lower_setAccess (h : d.lower = .ok u) (hc : d.ctorAt? k j = some c)
    (hstatic : c.isStatic = false) (access : Access) :
    ∃ i, (d.setAccess k j access).lower = .ok (u.setAccess i access) ∧
      (u.ctors[i]?).map (·.access) = some c.access := by
  obtain ⟨before, after, hsteps, hsteps'⟩ := steps_setAccess hc access
  let first := (Draft.start d.file).run before
  have hspec : { c with access := access }.toSpec = { c.toSpec with access := access } := by
    simp [CtorDump.toSpec, hstatic]
  have haccess : c.toSpec.access = c.access := by simp [CtorDump.toSpec, hstatic]
  have hrun : (Draft.start d.file).run d.steps =
      first.run (.addConstructor (.ofIndex k) c.toSpec :: after) := by
    rw [hsteps, Draft.run_append]
  have hrun' : (Draft.start d.file).run (d.setAccess k j access).steps =
      first.run (.addConstructor (.ofIndex k) { c.toSpec with access := access } :: after) := by
    rw [hsteps', Draft.run_append, hspec]
  have hlower : (first.run (.addConstructor (.ofIndex k) c.toSpec :: after)).finish = .ok u :=
    hrun ▸ h
  obtain ⟨hfaults, -, -, hunit⟩ := Draft.finish_eq_ok.mp hlower
  -- No fault at the end means none at the constructor, so its owner is known.
  have hnone : first.faults = [] :=
    List.prefix_nil.mp (hfaults ▸ Draft.faults_prefix_run first _)
  have hsame := hfaults.trans hnone.symm
  have hknows := (Draft.unknown?_addConstructor first _ _).mp (Draft.known_of_run hsame).1
  refine ⟨first.unit.ctors.size, ?_, ?_⟩
  · have hfinal := hrun'.trans (Draft.run_addConstructor_setAccess hknows c.toSpec after)
    exact (congrArg Draft.finish hfinal).trans (Draft.finish_setAccess hlower)
  · have hentry := Draft.access_run_addConstructor hsame
    rwa [hunit, haccess] at hentry

end UnitDump

-- ---------------------------------------------------------------------------
-- What the check makes of the change
-- ---------------------------------------------------------------------------

/-- Wider access lets in whoever was let in, but for a caller inside the class
and outside its scope. -/
theorem Access.admits_of_wider {old new : Access} {r : Resolver} {target requester : TypeId}
    (hrank : old.rank < new.rank) (h : old.admits r target requester = true) :
    new.admits r target requester = true ∨
      old = .ownType ∧ (new = .subtypesInScope ∨ new = .scope) ∧
        r.nestedWithin requester target = true ∧ r.sameScope requester target = false := by
  cases old with
  | ownType =>
    obtain ⟨hpresent, hnested⟩ := Bool.and_eq_true_iff.mp h
    cases new with
    | ownType => cases hrank
    | subtypesInScope =>
      cases hscope : r.sameScope requester target
      · exact .inr ⟨rfl, .inl rfl, hnested, rfl⟩
      · exact .inl (Bool.and_eq_true_iff.mpr ⟨hpresent, hscope⟩)
    | scope =>
      cases hscope : r.sameScope requester target
      · exact .inr ⟨rfl, .inr rfl, hnested, rfl⟩
      · exact .inl (Bool.or_eq_true_iff.mpr (.inr hscope))
    | everywhere | subtypes | subtypesOrScope => exact .inl rfl
  | subtypesInScope =>
    obtain ⟨-, hscope⟩ := Bool.and_eq_true_iff.mp h
    cases new with
    | ownType | subtypesInScope => simp [Access.rank] at hrank
    | scope => exact .inl (Bool.or_eq_true_iff.mpr (.inr hscope))
    | everywhere | subtypes | subtypesOrScope => exact .inl rfl
  | everywhere | subtypes | scope | subtypesOrScope =>
    cases new <;> first | exact .inl rfl | simp [Access.rank] at hrank

namespace CompilationUnit

variable {u : CompilationUnit} {i : Nat} {access : Access} {target requester : TypeId}

theorem resolver_setAccess (i : Nat) (access : Access) (u : CompilationUnit) :
    (u.setAccess i access).resolver = u.resolver := by
  have hnested : (u.setAccess i access).nestedWithin = u.nestedWithin := by
    funext inner outer
    have hancestors : (u.setAccess i access).ancestorsAndSelf inner = u.ancestorsAndSelf inner :=
      ancestorsWithin_setAccess i access u _ inner
    rw [nestedWithin, hancestors]
    rfl
  rw [resolver, hnested]
  rfl

theorem ctor?_setAccess (i : Nat) (access : Access) (u : CompilationUnit) (id : CtorId) :
    (u.setAccess i access).ctor? id =
      (u.ctor? id).map fun c => if id.index = i then c.setAccess access else c := by
  cases ha : id.isAbsent
  · simp only [ctor?, ha, setAccess, Array.getElem?_modify]
    by_cases hi : i = id.index <;> simp [hi, eq_comm (a := id.index)]
  · simp [ctor?, ha]

def editEntry (i : Nat) (access : Access) (entry : CtorId × Ctor) : CtorId × Ctor :=
  (entry.1, if entry.1.index = i then entry.2.setAccess access else entry.2)

theorem constructorsOf_setAccess (i : Nat) (access : Access) (u : CompilationUnit) (id : TypeId) :
    (u.setAccess i access).constructorsOf id =
      (u.constructorsOf id).map (editEntry i access) := by
  have htype : (u.setAccess i access).type? id = u.type? id := rfl
  simp only [constructorsOf, htype]
  cases u.type? id with
  | none => rfl
  | some t =>
    simp only [ctor?_setAccess, List.map_filterMap, Option.map_map]
    rfl

theorem instanceConstructorsOf_setAccess (i : Nat) (access : Access) (u : CompilationUnit)
    (id : TypeId) :
    (u.setAccess i access).instanceConstructorsOf id =
      (u.instanceConstructorsOf id).map (editEntry i access) := by
  rw [instanceConstructorsOf, constructorsOf_setAccess, List.filter_map, instanceConstructorsOf]
  refine congrArg (List.map _) (List.filter_congr fun entry _ => ?_)
  simp only [Function.comp_apply, editEntry]
  split <;> rfl

theorem callCounts_setAccess (i : Nat) (access : Access) (u : CompilationUnit) (id : TypeId) :
    (u.setAccess i access).callCounts id = u.callCounts id := by
  have hargs : ∀ entry : CtorId × Ctor,
      (editEntry i access entry).2.bare.baseArgs? = entry.2.bare.baseArgs? := by
    intro entry
    unfold editEntry
    split <;> rfl
  unfold callCounts ownCtors
  rw [instanceConstructorsOf_setAccess, List.map_map]
  cases u.instanceConstructorsOf id with
  | nil => rfl
  | cons entry rest => simp only [List.map_cons, List.filterMap_cons, List.filterMap_map,
      Function.comp_def, hargs]

def StaysOpen (u : CompilationUnit) (i : Nat) (access : Access) (target requester : TypeId) :
    Prop :=
  ∀ entry ∈ u.constructorsOf target, entry.1.index = i →
    entry.2.access.admits u.resolver target requester = true →
      access.admits u.resolver target requester = true

theorem offers_setAccess (hopen : u.StaysOpen i access target requester) (n : UInt32)
    (h : u.offers u.resolver target requester n = true) :
    (u.setAccess i access).offers u.resolver target requester n = true := by
  rw [offers_eq] at h ⊢
  rw [instanceConstructorsOf_setAccess, List.isEmpty_map]
  split at h
  · next hempty =>
    rw [if_pos hempty]
    exact h
  · next hnonempty =>
    rw [if_neg hnonempty, List.any_map]
    obtain ⟨entry, hentry, haccepts⟩ := List.any_eq_true.mp h
    obtain ⟨hadmits, happlies⟩ := Bool.and_eq_true_iff.mp haccepts
    refine List.any_eq_true.mpr ⟨entry, hentry, ?_⟩
    simp only [Function.comp_apply, editEntry]
    split
    · next hi =>
      exact Bool.and_eq_true_iff.mpr
        ⟨hopen entry (List.mem_filter.mp hentry).1 hi hadmits, happlies⟩
    · exact haccepts

theorem access_of_constructorsOf {entry : CtorId × Ctor} (h : entry ∈ u.constructorsOf target)
    (hi : entry.1.index = i) (hold : (u.ctors[i]?).map (·.access) = some old) :
    entry.2.access = old := by
  unfold constructorsOf at h
  split at h
  · cases h
  · obtain ⟨c, -, hc⟩ := List.mem_filterMap.mp h
    obtain ⟨ctor, hctor, rfl⟩ := Option.map_eq_some_iff.mp hc
    rw [← hi, getElem?_of_ctor? hctor] at hold
    exact Option.some.inj hold

/-- The class has had a private constructor opened to its scope, and the caller
is a type inside the class that is not in that scope. -/
structure ShutOut (old new : Access) (u u' : CompilationUnit) (target requester : TypeId) :
    Prop where
  wasPrivate : old = .ownType
  nowScoped : new = .subtypesInScope ∨ new = .scope
  changed : u'.constructorsOf target ≠ u.constructorsOf target
  inside : u.nestedWithin requester target = true
  elsewhere : u.sameScope requester target = false

/-- Whatever is found in the second unit was found in the first, but for some
classes and callers. -/
structure FindsNoMore (except : TypeId → TypeId → Prop) (u u' : CompilationUnit) : Prop where
  bases : ∀ policy id f, (u'.baseVerdict u'.resolver policy id).failure? = some f →
    (u.baseVerdict u.resolver policy id).failure?.isSome = true ∨ except f.base id
  creations : ∀ id c f, u'.creation? id = some c →
    (u'.creationVerdict u'.resolver id).failure? = some f →
    (u.creationVerdict u.resolver id).failure?.isSome = true ∨ except f.target c.enclosing

theorem open_or_shutOut {old : Access} (hold : (u.ctors[i]?).map (·.access) = some old)
    (hwider : old.rank < access.rank) (target requester : TypeId) :
    u.StaysOpen i access target requester ∨
      ShutOut old access u (u.setAccess i access) target requester := by
  by_cases hopen : u.StaysOpen i access target requester
  · exact .inl hopen
  · refine .inr ?_
    simp only [StaysOpen, not_forall] at hopen
    obtain ⟨entry, hentry, hi, hadmits, hshut⟩ := hopen
    have haccess := access_of_constructorsOf hentry hi hold
    rw [haccess] at hadmits
    rcases Access.admits_of_wider hwider hadmits with h | ⟨hprivate, hscoped, hinside, helse⟩
    · exact absurd h hshut
    · refine ⟨hprivate, hscoped, fun heq => ?_, hinside, helse⟩
      rw [constructorsOf_setAccess] at heq
      have hself := List.map_inj_left.mp (heq.trans (List.map_id _).symm) entry hentry
      rw [editEntry, if_pos hi] at hself
      have hsame : access = old :=
        (congrArg (fun entry : CtorId × Ctor => entry.2.access) hself).trans haccess
      rw [hsame] at hwider
      exact Nat.lt_irrefl _ hwider

theorem base_setAccess {old : Access} (hold : (u.ctors[i]?).map (·.access) = some old)
    (hwider : old.rank < access.rank) (policy : Policy) (id : TypeId) (f : BaseFailure)
    (h : ((u.setAccess i access).baseVerdict (u.setAccess i access).resolver policy id).failure? =
      some f) :
    (u.baseVerdict u.resolver policy id).failure?.isSome = true ∨
      ShutOut old access u (u.setAccess i access) f.base id := by
  have hchecked : (u.setAccess i access).checkedBase = u.checkedBase := rfl
  have hfails := baseVerdict_failure? (u.setAccess i access) (u.setAccess i access).resolver
    policy id
  rw [h, resolver_setAccess, hchecked, callCounts_setAccess, Option.map_some] at hfails
  obtain ⟨base, hbase, hrejected⟩ := Option.bind_eq_some_iff.mp hfails.symm
  obtain ⟨n, hn, hf⟩ := Option.map_eq_some_iff.mp hrejected
  obtain rfl : base = f.base := (Prod.ext_iff.mp (Prod.ext_iff.mp hf).2).1
  rcases open_or_shutOut hold hwider f.base id with hopen | hout
  · refine .inl ?_
    have hstill : (policy.rejected? (u.offers u.resolver f.base id) (u.callCounts id)).isSome =
        true :=
      Policy.isSome_rejected?_of_accepts (offers_setAccess hopen) (Option.isSome_of_eq_some hn)
    have hfailed := congrArg Option.isSome (baseVerdict_failure? u u.resolver policy id)
    rw [hbase, Option.bind_some, Option.isSome_map, Option.isSome_map, hstill] at hfailed
    exact hfailed
  · exact .inr hout

theorem creation_setAccess {old : Access} (hold : (u.ctors[i]?).map (·.access) = some old)
    (hwider : old.rank < access.rank) (id : CreationId) (c : Creation)
    (f : CreationFailure) (hc : u.creation? id = some c)
    (h : ((u.setAccess i access).creationVerdict (u.setAccess i access).resolver id).failure? =
      some f) :
    (u.creationVerdict u.resolver id).failure?.isSome = true ∨
      ShutOut old access u (u.setAccess i access) f.target c.enclosing := by
  have htype : (u.setAccess i access).type? = u.type? := rfl
  have hcreation : (u.setAccess i access).creation? = u.creation? := rfl
  have hfails := creationVerdict_failure? (u.setAccess i access) (u.setAccess i access).resolver id
  rw [h, resolver_setAccess, hcreation, htype, hc, Option.map_some, Option.bind_some] at hfails
  obtain ⟨target, htarget, hfails⟩ := Option.bind_eq_some_iff.mp hfails.symm
  obtain ⟨t, ht, hfails⟩ := Option.bind_eq_some_iff.mp hfails
  split at hfails
  · next hrejects =>
    obtain rfl : target = f.target :=
      (Prod.ext_iff.mp (Prod.ext_iff.mp (Option.some.inj hfails)).2).1
    obtain ⟨hconcrete, hrejects⟩ := Bool.and_eq_true_iff.mp hrejects
    rcases open_or_shutOut hold hwider f.target c.enclosing with hopen | hout
    · refine .inl ?_
      have hstill : u.offers u.resolver f.target c.enclosing c.argCount = false := by
        cases ho : u.offers u.resolver f.target c.enclosing c.argCount
        · rfl
        · rw [offers_setAccess hopen _ ho] at hrejects
          cases hrejects
      have hfailed := congrArg Option.isSome (creationVerdict_failure? u u.resolver id)
      rw [hc, Option.bind_some, htarget, Option.bind_some, ht, Option.bind_some, hconcrete,
        hstill, Option.isSome_map] at hfailed
      exact hfailed
    · exact .inr hout
  · cases hfails

end CompilationUnit

open CompilationUnit

namespace UnitDump

variable {d : UnitDump} {u : CompilationUnit} {k j : Nat} {c : CtorDump} {access : Access}

/-- Wider access for an instance constructor adds no failure to a dump that can
be lowered, except where a private constructor is opened to a scope and so shut
to the types inside its class that have another scope. -/
theorem lower_wider (h : d.lower = .ok u) (hc : d.ctorAt? k j = some c)
    (hstatic : c.isStatic = false) (hwider : c.access.rank < access.rank) :
    ∃ u', (d.setAccess k j access).lower = .ok u' ∧
      u'.types = u.types ∧ u'.creations = u.creations ∧
      FindsNoMore (ShutOut c.access access u u') u u' := by
  obtain ⟨i, hlower, hold⟩ := lower_setAccess h hc hstatic access
  exact ⟨u.setAccess i access, hlower, rfl, rfl, base_setAccess hold hwider,
    fun id c f => creation_setAccess hold hwider id c f⟩

/-- Two classes inside the one they extend, the second in another scope. -/
def enclave : UnitDump where
  file := "a.cs"
  types := [{
    name := "A", scope := some 1, constructors := [{ access := .ownType }]
    nested := [{ name := "B", scope := some 1, base := some "A" },
      { name := "C", scope := some 2, base := some "A" }] }]

theorem lower_wider_enclave : ∃ u, enclave.lower = .ok u ∧
    ∃ u', (enclave.setAccess 0 0 .scope).lower = .ok u' ∧
      u'.types = u.types ∧ u'.creations = u.creations ∧
      FindsNoMore (ShutOut .ownType .scope u u') u u' :=
  ⟨((Draft.start "a.cs").run enclave.steps).unit, rfl,
    lower_wider rfl (c := { access := .ownType }) rfl rfl (by decide)⟩

/-- Wider access can add a failure: that of the class in another scope. -/
theorem not_lower_wider : ¬ ∀ (d : UnitDump) (u : CompilationUnit) (k j : Nat) (c : CtorDump)
    (access : Access), d.lower = .ok u → d.ctorAt? k j = some c → c.isStatic = false →
      c.access.rank < access.rank →
      ∃ u', (d.setAccess k j access).lower = .ok u' ∧ FindsNoMore (fun _ _ => False) u u' := by
  intro hclaim
  obtain ⟨u', hlower, hless⟩ := hclaim enclave ((Draft.start "a.cs").run enclave.steps).unit 0 0
    { access := .ownType } .scope rfl rfl rfl (by decide)
  obtain rfl : ((Draft.start "a.cs").run (enclave.setAccess 0 0 .scope).steps).unit = u' :=
    Except.ok.inj hlower
  rcases hless.bases .reportAnyFailure ⟨2⟩ _ rfl with hfailed | hnever
  · cases hfailed
  · exact hnever

end UnitDump

end CtorArity
