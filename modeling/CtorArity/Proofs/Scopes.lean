import CtorArity.Proofs.Admission
import CtorArity.Proofs.TopLevel

/-!
# Scopes of types

A type is in the scope that it names, and in the unit's if it names none; the
types around it have no part in this. So a type calls the constructors that
another one keeps to its scope exactly when the two scopes are one, inside that
one as anywhere else (`lower_scopes`). Inside a class of another scope, a type
that names no scope is shut out (`not_lower_scopes`).
-/

namespace CtorArity

open TypeDump

-- ---------------------------------------------------------------------------
-- The scope of each type
-- ---------------------------------------------------------------------------

def Step.setsScope : Step → Bool
  | .withScope _ | .declare _ => true
  | _ => false

namespace Outline

def scopes (o : Outline) : ScopeId × List ScopeId := (o.scope, o.types.map (·.scope))

theorem scopes_apply {step : Step} (h : step.setsScope = false) (o : Outline) :
    (o.apply step).scopes = o.scopes := by
  cases step with
  | setBase id base => exact Prod.ext rfl (o.map_types_setBase id base fun _ => rfl)
  | addConstructor owner spec => rfl
  | create enclosing target argCount => rfl
  | withScope | declare => cases h

theorem scopes_foldl {steps : List Step} (h : ∀ step ∈ steps, step.setsScope = false)
    (o : Outline) : (steps.foldl Outline.apply o).scopes = o.scopes := by
  induction steps generalizing o with
  | nil => rfl
  | cons step rest ih =>
    obtain ⟨hstep, hrest⟩ := List.forall_mem_cons.mp h
    rw [List.foldl_cons, ih hrest, scopes_apply hstep]

end Outline

namespace UnitDump

variable {d : UnitDump} {u : CompilationUnit}

theorem setsScope_bindingSteps (d : UnitDump) :
    ∀ step ∈ d.bindingSteps, step.setsScope = false := by
  refine List.forall_mem_append.mpr ⟨?_, ?_⟩
  · intro step hstep
    obtain ⟨⟨t, i⟩, -, hbase⟩ := List.mem_filterMap.mp hstep
    obtain ⟨name, -, rfl⟩ := Option.map_eq_some_iff.mp hbase
    rfl
  · intro step hstep
    obtain ⟨entry, -, rfl⟩ := List.mem_map.mp hstep
    rfl

theorem scopes_lower (h : d.lower = .ok u) :
    u.outline.scopes = (d.ownScope, d.places.map fun p => ⟨d.scopeOf p⟩) := by
  obtain ⟨hfaults, -, -, rfl⟩ := Draft.finish_eq_ok.mp h
  rw [Draft.outline_run hfaults, steps_eq, List.foldl_append, foldl_declaringSteps,
    Outline.scopes_foldl d.setsScope_bindingSteps, Outline.scopes, declared, List.map_map]
  refine Prod.ext rfl (List.map_congr_left fun p _ => ?_)
  cases hp : p.type.scope <;> simp [TypeSpec.bare, toSpec, ownScope, scopeOf, hp]

end UnitDump

-- ---------------------------------------------------------------------------
-- Calls that the scope decides
-- ---------------------------------------------------------------------------

/-- Open to the types of one scope, and to no others. -/
def Access.ByScope (access : Access) : Prop := access = .scope ∨ access = .subtypesInScope

namespace CompilationUnit

variable {u : CompilationUnit} {inner outer : TypeId} {s t : TypeDecl} {n : UInt32}
  {id : CreationId} {access : Access}

/-- A class has constructors for a call, all of them open to its scope only. -/
structure TakesByScope (u : CompilationUnit) (target : TypeId) (n : UInt32) : Prop where
  accepted : ∃ c ∈ u.instanceConstructorsOf target, isApplicable c.2.params n = true
  byScope : ∀ c ∈ u.instanceConstructorsOf target, isApplicable c.2.params n = true →
    c.2.access.ByScope

/-- Whether one type sees the constructors that another one keeps to its scope is
this question: whether they are candidates for its calls, whether its base calls
bind where only they take them, and whether its creations do. -/
structure SeesScopedIff (u : CompilationUnit) (inner outer : TypeId) (question : Prop) : Prop where
  candidates : ∀ c ∈ u.instanceConstructorsOf outer, c.2.access.ByScope →
    (⟨c.1, c.2.access, .ofParams c.2.params⟩ ∈ u.candidates u.resolver outer inner ↔ question)
  baseCalls : ∀ policy, u.checkedBase u.resolver inner = .ok outer → u.callCounts inner ≠ [] →
    (∀ n ∈ u.callCounts inner, u.TakesByScope outer n) →
    ((u.baseVerdict u.resolver policy inner).failure? = none ↔ question)
  creations : ∀ id n, u.Creates id inner outer n →
    ((u.type? outer).any (·.isConcreteClass)) = true → u.TakesByScope outer n →
    ((u.creationVerdict u.resolver id).failure? = none ↔ question)

theorem admits_byScope (h : access.ByScope) (hs : u.type? inner = some s)
    (ht : u.type? outer = some t) :
    access.admits u.resolver outer inner = (s.scope == t.scope) := by
  have hscope : u.resolver.sameScope inner outer = (s.scope == t.scope) := sameScope_eq ht hs
  rcases h with rfl | rfl <;> simp [Access.admits, isAbsent_of_type? hs, hscope]

theorem offers_takesByScope (h : u.TakesByScope outer n) (hs : u.type? inner = some s)
    (ht : u.type? outer = some t) :
    u.offers u.resolver outer inner n = (s.scope == t.scope) := by
  obtain ⟨c, hc, haccepts⟩ := h.accepted
  have hsome : (u.instanceConstructorsOf outer).isEmpty = false :=
    List.isEmpty_eq_false_iff.mpr (List.ne_nil_of_mem hc)
  rw [offers_eq, hsome, if_neg Bool.false_ne_true, Bool.eq_iff_iff, List.any_eq_true]
  constructor
  · rintro ⟨c', hc', hboth⟩
    obtain ⟨hadmits, haccepts'⟩ := Bool.and_eq_true_iff.mp hboth
    rwa [admits_byScope (h.byScope c' hc' haccepts') hs ht] at hadmits
  · intro hscope
    refine ⟨c, hc, Bool.and_eq_true_iff.mpr ⟨?_, haccepts⟩⟩
    rwa [admits_byScope (h.byScope c hc haccepts) hs ht]

theorem mem_candidates_byScope {c : CtorId × Ctor} (hc : c ∈ u.instanceConstructorsOf outer)
    (h : c.2.access.ByScope) (hs : u.type? inner = some s) (ht : u.type? outer = some t) :
    ⟨c.1, c.2.access, .ofParams c.2.params⟩ ∈ u.candidates u.resolver outer inner ↔
      s.scope = t.scope := by
  have hdeclared : ⟨c.1, c.2.access, .ofParams c.2.params⟩ ∈ u.declaredCandidates outer :=
    List.mem_map.mpr ⟨c, hc, rfl⟩
  rw [CompilationUnit.candidates, List.mem_filter, admits_byScope h hs ht, beq_iff_eq]
  exact and_iff_right (List.mem_append_left _ hdeclared)

theorem baseVerdict_byScope (policy : Policy) (hbase : u.checkedBase u.resolver inner = .ok outer)
    (hcalls : u.callCounts inner ≠ []) (h : ∀ n ∈ u.callCounts inner, u.TakesByScope outer n)
    (hs : u.type? inner = some s) (ht : u.type? outer = some t) :
    (u.baseVerdict u.resolver policy inner).failure? = none ↔ s.scope = t.scope := by
  have hoffers : ∀ n ∈ u.callCounts inner,
      u.offers u.resolver outer inner n = (s.scope == t.scope) := fun n hn =>
    offers_takesByScope (h n hn) hs ht
  obtain ⟨n, hn⟩ := List.exists_mem_of_ne_nil _ hcalls
  have hfails := congrArg Option.isSome (baseVerdict_failure? u u.resolver policy inner)
  rw [hbase, Except.toOption, Option.bind_some, Option.isSome_map, Option.isSome_map] at hfails
  rw [← Option.not_isSome_iff_eq_none, hfails, Policy.isSome_rejected?, not_iff_comm]
  constructor
  · intro hother
    have hnone : ∀ m ∈ u.callCounts inner, u.offers u.resolver outer inner m = false := fun m hm =>
      (hoffers m hm).trans (beq_eq_false_iff_ne.mpr hother)
    refine ⟨?_, n, hn, hnone n hn⟩
    rintro ⟨-, m, hm, htakes⟩
    rw [hnone m hm] at htakes
    cases htakes
  · rintro ⟨-, m, hm, hrejects⟩
    rw [hoffers m hm] at hrejects
    exact beq_eq_false_iff_ne.mp hrejects

theorem creationVerdict_byScope (hc : u.Creates id inner outer n)
    (hconcrete : ((u.type? outer).any (·.isConcreteClass)) = true) (h : u.TakesByScope outer n)
    (hs : u.type? inner = some s) (ht : u.type? outer = some t) :
    (u.creationVerdict u.resolver id).failure? = none ↔ s.scope = t.scope := by
  obtain ⟨span, hc⟩ := hc
  have htarget : u.resolver.creationTarget id = some outer := by
    simp [resolver, creationTarget?, hc, ht]
  rw [ht, Option.any_some] at hconcrete
  have hfails := congrArg Option.isSome (creationVerdict_failure? u u.resolver id)
  rw [hc, Option.bind_some, htarget, Option.bind_some, ht, Option.bind_some, hconcrete,
    offers_takesByScope h hs ht, Option.isSome_map] at hfails
  rw [← Option.not_isSome_iff_eq_none, hfails]
  by_cases hscope : s.scope = t.scope <;> simp [hscope]

theorem seesScopedIff (hs : u.type? inner = some s) (ht : u.type? outer = some t) :
    u.SeesScopedIff inner outer (s.scope = t.scope) where
  candidates _ hc h := mem_candidates_byScope hc h hs ht
  baseCalls policy hbase hcalls h := baseVerdict_byScope policy hbase hcalls h hs ht
  creations _ _ hc hconcrete h := creationVerdict_byScope hc hconcrete h hs ht

end CompilationUnit

namespace UnitDump

variable {d : UnitDump} {u : CompilationUnit}

/-- In a lowered dump each type has the scope that it names, and else the unit's.
What another type keeps to its scope a type sees if the two scopes are one, be it
inside that type or not. -/
theorem lower_scopes (h : d.lower = .ok u) :
    u.scope = ⟨d.scope.getD 0⟩ ∧
      u.types.toList.map (·.scope) =
        d.places.map (fun p => (p.type.scope.map Handle.mk).getD u.scope) ∧
      ∀ inner outer s t, u.type? inner = some s → u.type? outer = some t →
        u.SeesScopedIff inner outer (s.scope = t.scope) := by
  have hscopes := scopes_lower h
  have hunit : u.scope = ⟨d.scope.getD 0⟩ := congrArg Prod.fst hscopes
  have htypes : u.types.toList.map (·.scope) = d.places.map fun p => ⟨d.scopeOf p⟩ := by
    have hbare := congrArg Prod.snd hscopes
    simp only [Outline.scopes, CompilationUnit.outline, List.map_map] at hbare
    exact hbare
  refine ⟨hunit, htypes.trans (List.map_congr_left fun p _ => ?_), fun _ _ _ _ hs ht =>
    CompilationUnit.seesScopedIff hs ht⟩
  rw [hunit, scopeOf]
  cases p.type.scope <;> rfl

/-- A class of another scope with constructors for its scope, and a class inside
it that names no scope, extends it and creates it. -/
def annex : UnitDump where
  file := "a.cs"
  types := [{
    name := "A", scope := some 1
    constructors := [{ access := .scope },
      { access := .subtypesInScope, params := [⟨"p", false, false⟩] }]
    nested := [{ name := "B", base := some "A", creations := [⟨"A", 1⟩] }] }]

theorem lower_scopes_annex : annex.lower = .ok annex.drafted.unit ∧
    annex.drafted.unit.types.toList.map (·.scope) = [⟨1⟩, ⟨0⟩] ∧
    ∃ s t, annex.drafted.unit.type? ⟨1⟩ = some s ∧ annex.drafted.unit.type? ⟨0⟩ = some t ∧
      annex.drafted.unit.SeesScopedIff ⟨1⟩ ⟨0⟩ (s.scope = t.scope) := by
  have hlower : annex.lower = .ok annex.drafted.unit := rfl
  obtain ⟨-, hscopes, hsees⟩ := lower_scopes hlower
  exact ⟨hlower, hscopes, _, _, rfl, rfl, hsees ⟨1⟩ ⟨0⟩ _ _ rfl rfl⟩

/-- The scope that the type names, or the nearest one around it that names any, and
else the unit's. -/
def nearestScope (d : UnitDump) (p : Place) : UInt32 :=
  ((p.number :: p.around).findSome? fun k => d.allTypes[k]?.bind (·.scope)).getD (d.scope.getD 0)

/-- A type does not take over the scope of the types around it, and so need not see
what these keep to their scope. -/
theorem not_lower_scopes :
    (¬ ∀ (d : UnitDump) (u : CompilationUnit), d.lower = .ok u →
      u.types.toList.map (·.scope) = d.places.map fun p => ⟨d.nearestScope p⟩) ∧
    ¬ ∀ (d : UnitDump) (u : CompilationUnit), d.lower = .ok u →
      ∀ inner ∈ d.places, ∀ outer ∈ d.places, inner.within outer = true →
        outer.type.scope.isSome = true →
        (∀ p ∈ d.places, inner.within p = true → p.within outer = true →
          p.number ≠ outer.number → p.type.scope = none) →
        u.SeesScopedIff inner.id outer.id True := by
  have hlower : annex.lower = .ok annex.drafted.unit := rfl
  constructor
  · intro hclaim
    have hscopes : [⟨1⟩, ⟨0⟩] = [⟨1⟩, (⟨1⟩ : ScopeId)] := hclaim annex _ hlower
    revert hscopes
    decide
  · intro hclaim
    have hpath : ∀ p ∈ annex.places, p.number ≠ 0 → p.type.scope = none := by
      intro p hp hne
      rcases List.mem_cons.mp hp with rfl | hp
      · exact absurd rfl hne
      · obtain rfl := List.mem_singleton.mp hp
        rfl
    have hsees := hclaim annex _ hlower annex.places[1] (List.getElem_mem _) annex.places[0]
      (List.getElem_mem _) rfl rfl fun p hp _ _ => hpath p hp
    have hnone : annex.drafted.unit.candidates annex.drafted.unit.resolver ⟨0⟩ ⟨1⟩ = [] := rfl
    have hmem := (hsees.candidates _ List.mem_cons_self (.inl rfl)).mpr trivial
    exact List.not_mem_nil (hnone ▸ hmem)

end UnitDump

end CtorArity
