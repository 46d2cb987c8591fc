import CtorArity.BaseCall
import CtorArity.Instantiation
import CtorArity.Proofs.Links

/-!
# What the verdicts depend on

The verdicts of the check read little of a unit: the kinds of two types, and
their instance constructors without their places (`Ctor.baseArgs?`,
`offers_eq`). In a linked unit these are the entries of the constructor table
that name the type (`ownCtors_eq`).
-/

namespace CtorArity

/-- The first count that is not accepted, unless the policy lets one that is
accepted excuse it. -/
def Policy.rejected? (policy : Policy) (accepts : UInt32 → Bool) (counts : List UInt32) :
    Option UInt32 :=
  if policy == .exemptOnAnySuccess && counts.any accepts then none
  else counts.find? (!accepts ·)

/-- How many arguments a constructor hands to the base, if it calls it itself. -/
def Ctor.baseArgs? (c : Ctor) : Option UInt32 :=
  if c.chainsToOwn then none else some ((c.baseInitializer?.map (·.argCount)).getD 0)

theorem Policy.isSome_rejected? {policy : Policy} {accepts : UInt32 → Bool}
    {counts : List UInt32} : (policy.rejected? accepts counts).isSome = true ↔
      ¬ (policy = .exemptOnAnySuccess ∧ ∃ n ∈ counts, accepts n = true) ∧
        ∃ n ∈ counts, accepts n = false := by
  have hexcused : (policy == .exemptOnAnySuccess && counts.any accepts) = true ↔
      policy = .exemptOnAnySuccess ∧ ∃ n ∈ counts, accepts n = true := by
    simp
  rw [Policy.rejected?, ← hexcused]
  split
  · next h => simp [h]
  · next h => simp [h, List.find?_isSome]

theorem Policy.isSome_rejected?_of_accepts {policy : Policy} {accepts accepts' : UInt32 → Bool}
    {counts : List UInt32} (haccepts : ∀ n, accepts n = true → accepts' n = true)
    (h : (policy.rejected? accepts' counts).isSome = true) :
    (policy.rejected? accepts counts).isSome = true := by
  obtain ⟨hexcused, n, hn, hrejects⟩ := isSome_rejected?.mp h
  refine isSome_rejected?.mpr ⟨fun ⟨hpolicy, m, hm, ha⟩ => ?_, n, hn, ?_⟩
  · exact hexcused ⟨hpolicy, m, hm, haccepts m ha⟩
  · cases ha : accepts n
    · rfl
    · rw [haccepts n ha] at hrejects
      cases hrejects

theorem Ctor.map_argCount_callSite? (id : CtorId) (c : Ctor) :
    (c.callSite? id).map (·.argCount) = c.bare.baseArgs? := by
  obtain ⟨_, _, _, _, initializer, _⟩ := c
  cases initializer with
  | none => rfl
  | some init =>
    cases h : init.target <;>
      simp [callSite?, baseArgs?, bare, chainsToOwn, baseInitializer?, Option.filter, h]

@[simp] theorem Ctor.owner_bare (c : Ctor) : c.bare.owner = c.owner := rfl

theorem accepts_ofParams_nil (n : UInt32) : (Arity.ofParams []).accepts n = (n == 0) := by
  rw [Bool.eq_iff_iff]
  simp [Arity.ofParams, Arity.accepts]

namespace CompilationUnit

variable {u : CompilationUnit} {id target requester : TypeId} {r : Resolver}

theorem judgeCalls_failure? (policy : Policy) (derived base : TypeId) (visible : List Candidate)
    (sites : List CallSite) :
    (judgeCalls policy derived base visible sites).failure?.map
        (fun f => (f.derived, f.base, f.argCount)) =
      (policy.rejected? (anyAccepts visible) (sites.map (·.argCount))).map
        (derived, base, ·) := by
  have hfind : (sites.map (·.argCount)).find? (!anyAccepts visible ·) =
      (sites.find? fun site => !anyAccepts visible site.argCount).map (·.argCount) :=
    List.find?_map
  have hany : (sites.map (·.argCount)).any (anyAccepts visible) =
      sites.any fun site => anyAccepts visible site.argCount := List.any_map
  simp only [judgeCalls, Policy.rejected?, hfind, hany]
  generalize (policy == .exemptOnAnySuccess &&
    sites.any fun site => anyAccepts visible site.argCount) = excused
  cases sites.find? fun site => !anyAccepts visible site.argCount <;> cases excused <;> rfl

def ownCtors (u : CompilationUnit) (id : TypeId) : List Ctor :=
  (u.instanceConstructorsOf id).map (·.2.bare)

def callCounts (u : CompilationUnit) (id : TypeId) : List UInt32 :=
  match u.ownCtors id with
  | [] => [0]
  | ctors => ctors.filterMap (·.baseArgs?)

/-- Whether a type has a constructor for this call. -/
def offers (u : CompilationUnit) (r : Resolver) (target requester : TypeId) (n : UInt32) : Bool :=
  match u.ownCtors target with
  | [] => n == 0
  | ctors => ctors.any fun c => c.access.admits r target requester && isApplicable c.params n

theorem map_argCount_callSites (u : CompilationUnit) (id : TypeId) :
    (u.callSites id).map (·.argCount) = u.callCounts id := by
  unfold callSites callCounts ownCtors
  cases u.instanceConstructorsOf id with
  | nil => rfl
  | cons c rest =>
    simp only [List.map_cons, List.map_filterMap]
    rw [← List.map_cons (f := fun entry : CtorId × Ctor => entry.2.bare), List.filterMap_map]
    exact List.filterMap_congr fun entry _ => entry.2.map_argCount_callSite? entry.1

theorem offers_eq (u : CompilationUnit) (r : Resolver) (target requester : TypeId) (n : UInt32) :
    u.offers r target requester n =
      if (u.instanceConstructorsOf target).isEmpty then n == 0
      else (u.instanceConstructorsOf target).any fun entry =>
        entry.2.access.admits r target requester && isApplicable entry.2.params n := by
  unfold offers ownCtors
  cases u.instanceConstructorsOf target with
  | nil => rfl
  | cons entry rest => exact List.any_map

theorem anyAccepts_candidates (h : u.type? target = some t) (ht : t.isInstanceClass = true)
    (r : Resolver) (requester : TypeId) :
    anyAccepts (u.candidates r target requester) = u.offers r target requester := by
  funext n
  rw [offers_eq]
  cases hc : u.instanceConstructorsOf target with
  | nil =>
    have himplicit : ∀ access : Access, access = .subtypes ∨ access = .everywhere →
        access.admits r target requester = true := by
      rintro _ (rfl | rfl) <;> rfl
    have hadmits := himplicit (if t.modifiers.isAbstract then .subtypes else .everywhere)
      (by split <;> simp)
    simp [candidates, declaredCandidates, implicitConstructor?, h, ht, hc, hadmits, anyAccepts,
      accepts_ofParams_nil]
  | cons c rest =>
    have hnone : u.implicitConstructor? target = none := by
      simp [implicitConstructor?, h, hc]
    simp only [candidates, declaredCandidates, hnone, Option.toList_none, List.append_nil,
      anyAccepts, List.any_filter, hc, List.any_map]
    rfl

theorem checkedBase_eq_ok : u.checkedBase r id = .ok target ↔
    (∃ t, u.type? id = some t ∧ t.isInstanceClass = true) ∧
      (r.directBase id).declared? = some target ∧
      ∃ b, u.type? target = some b ∧ b.isInstanceClass = true := by
  unfold checkedBase
  cases u.type? id with
  | none => simp
  | some t =>
    cases ht : t.isInstanceClass
    · simp [ht]
    · cases (r.directBase id).declared? with
      | none => simp [ht]
      | some base =>
        cases hb : u.type? base with
        | none =>
          simp only [ht, hb, Bool.not_true, Bool.false_eq_true, if_false, reduceCtorEq, false_iff]
          rintro ⟨-, ⟨⟩, b, hb', -⟩
          rw [hb] at hb'
          cases hb'
        | some b =>
          cases hclass : b.isInstanceClass
          · simp only [ht, hb, hclass, Bool.not_true, Bool.false_eq_true, if_false,
              Bool.not_false, if_true, reduceCtorEq, false_iff]
            rintro ⟨-, ⟨⟩, b, hb', hclass'⟩
            rw [hb] at hb'
            cases hb'
            rw [hclass] at hclass'
            cases hclass'
          · simp only [ht, hb, hclass, Bool.not_true, Bool.false_eq_true, if_false]
            constructor
            · rintro ⟨⟩
              exact ⟨⟨t, rfl, ht⟩, rfl, b, hb, hclass⟩
            · rintro ⟨-, ⟨⟩, -⟩
              rfl

theorem baseVerdict_failure? (u : CompilationUnit) (r : Resolver) (policy : Policy) (id : TypeId) :
    (u.baseVerdict r policy id).failure?.map (fun f => (f.derived, f.base, f.argCount)) =
      (u.checkedBase r id).toOption.bind fun base =>
        (policy.rejected? (u.offers r base id) (u.callCounts id)).map (id, base, ·) := by
  unfold baseVerdict
  cases hb : u.checkedBase r id with
  | error why => rfl
  | ok base =>
    obtain ⟨-, -, b, hbase, hclass⟩ := checkedBase_eq_ok.mp hb
    refine (judgeCalls_failure? policy id base _ _).trans ?_
    rw [map_argCount_callSites, anyAccepts_candidates hbase hclass]
    rfl

theorem creationVerdict_failure? (u : CompilationUnit) (r : Resolver) (id : CreationId) :
    (u.creationVerdict r id).failure?.map (fun f => (f.creation, f.target, f.argCount)) =
      (u.creation? id).bind fun c => (r.creationTarget id).bind fun target =>
        (u.type? target).bind fun t =>
          if t.isConcreteClass && !u.offers r target c.enclosing c.argCount then
            some (id, target, c.argCount)
          else none := by
  unfold creationVerdict
  cases u.creation? id with
  | none => rfl
  | some c =>
    cases r.creationTarget id with
    | none => rfl
    | some target =>
      cases ht : u.type? target with
      | none => simp [ht, CreationVerdict.failure?]
      | some t =>
        simp only [ht, Option.bind_some]
        cases hconcrete : t.isConcreteClass
        · simp [CreationVerdict.failure?]
        · have hclass : t.isInstanceClass = true := (Bool.and_eq_true_iff.mp hconcrete).1
          rw [← anyAccepts_candidates ht hclass]
          cases anyAccepts (u.candidates r target c.enclosing) c.argCount <;>
            simp [CreationVerdict.failure?]

-- ---------------------------------------------------------------------------
-- Constructors in the table
-- ---------------------------------------------------------------------------

theorem map_bare_constructorsOf (h : u.Linked) (hu : u.Addressable) (ht : (u.type? id).isSome) :
    (u.constructorsOf id).map (·.2.bare) = u.outline.ctors.filter (·.owner == id) := by
  obtain ⟨t, ht⟩ := Option.isSome_iff_exists.mp ht
  have hctors : t.constructors = handlesWhere (·.owner == id) u.ctors.toList := by
    have hcontents := congrArg Contents.ctors (h.contents id)
    simpa [contents, isAbsent_of_type? ht, ht, Outline.contents, outline, handlesWhere_map,
      TypeDecl.contents] using hcontents
  have hlook : ∀ c : CtorId, (u.ctor? c).map (c, ·) = (u.ctors.toList[c.index]?).map (c, ·) :=
    fun c => by rw [ctor?_eq_getElem? (Nat.le_of_lt hu.ctors), Array.getElem?_toList]
  simp only [constructorsOf, ht, hctors, hlook, List.map_filterMap, Option.map_map,
    Function.comp_def]
  have htable : (handlesWhere (·.owner == id) u.ctors.toList : List CtorId).filterMap
      (u.ctors.toList[·.index]?) = u.ctors.toList.filter (·.owner == id) :=
    filterMap_handlesWhere (by simpa using Nat.le_of_lt hu.ctors)
  rw [outline, List.filter_map]
  refine Eq.trans ?_ (congrArg (List.map Ctor.bare) htable)
  rw [List.map_filterMap]

theorem ownCtors_eq (h : u.Linked) (hu : u.Addressable) (ht : (u.type? id).isSome) :
    u.ownCtors id = (u.outline.ctors.filter (·.owner == id)).filter (!·.isStatic) := by
  rw [← map_bare_constructorsOf h hu ht, ownCtors, instanceConstructorsOf, List.filter_map]
  rfl

end CompilationUnit

end CtorArity
