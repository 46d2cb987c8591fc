import CtorArity.Proofs.Programs
import CtorArity.Proofs.Scopes

/-!
# The scope of a type that names none

A unit has the scope that it is given last. A type that names no scope gets the one
that the unit has when the type is declared, and keeps it when the unit is given
another one later. So such types are in the unit's scope, and see what the others
of them keep to their scope, as far as the unit had one scope when they were
declared (`finish_scopes`), and not otherwise (`not_finish_scopes`).
-/

namespace CtorArity

namespace Step

def unitScope? : Step → Option ScopeId
  | .withScope scope => some scope
  | .declare _ | .setBase .. | .addConstructor .. | .create .. => none

/-- The scope of the unit after these steps. -/
def scopeIn (steps : List Step) : ScopeId := (steps.filterMap (·.unitScope?)).getLast?.getD .own

theorem scopeIn_concat (steps : List Step) (step : Step) :
    scopeIn (steps ++ [step]) = step.unitScope?.getD (scopeIn steps) := by
  rw [scopeIn, List.filterMap_append]
  cases h : step.unitScope? <;> simp [scopeIn, h]

/-- The handle is that of the type which the program declares after its first steps
by this description. -/
structure Declares (steps before : List Step) (spec : TypeSpec) (id : TypeId) : Prop where
  split : ∃ later, steps = before ++ .declare spec :: later
  number : id.index = (declaredIn before).length
  present : id.isAbsent = false

end Step

open Step

namespace Draft

variable {file : String} {steps before before' : List Step} {spec spec' : TypeSpec}
  {id id' : TypeId} {u : CompilationUnit}

theorem scope_apply (d : Draft) (step : Step) :
    (d.apply step).1.unit.scope = step.unitScope?.getD d.unit.scope := by
  cases hs : d.unknown? step with
  | some id =>
    rw [apply_of_unknown hs]
    cases step with
    | withScope scope => cases hs
    | declare | setBase | addConstructor | create => rfl
  | none =>
    have houtline := congrArg Outline.scope (apply_of_known hs).1
    refine houtline.trans ?_
    cases step <;> rfl

theorem scope_after (file : String) (steps : List Step) :
    (after file steps).unit.scope = scopeIn steps := by
  induction steps using List.reverseRecOn with
  | nil => rfl
  | append_singleton steps step ih => rw [after_concat, scope_apply, scopeIn_concat, ih]

theorem exists_type?_of_declares (file : String) (hsound : Sound steps)
    (h : Declares steps before spec id) :
    ∃ t, (after file steps).unit.type? id = some t ∧
      t.scope = spec.scope.getD (scopeIn before) := by
  obtain ⟨⟨later, rfl⟩, hnumber, hpresent⟩ := h
  obtain ⟨-, htells⟩ := after_of_sound file hsound.of_append
  obtain ⟨houtline, -⟩ := apply_of_known (hsound.unknown?_eq_none file)
  have hdeclared : (((after file before).apply (.declare spec)).1.unit.types.toList.map
      (·.scope))[id.index]? = some (spec.scope.getD (scopeIn before)) := by
    rw [← CompilationUnit.map_outline_types fun _ => rfl, houtline, Outline.apply,
      List.map_append, hnumber, ← htells.length_types, ← List.length_map TypeDecl.scope,
      ← scope_after file before]
    exact List.getElem?_concat_length
  have hrun : after file (before ++ .declare spec :: later) =
      ((after file before).apply (.declare spec)).1.run later := run_append _ _ _
  obtain ⟨more, hmore⟩ := map_types_prefix_run (f := (·.scope)) (fun _ => rfl) (fun _ _ => rfl)
    ((after file before).apply (.declare spec)).1 later
  have hkept : ((after file (before ++ .declare spec :: later)).unit.types.toList.map
      (·.scope))[id.index]? = some (spec.scope.getD (scopeIn before)) := by
    rw [hrun, ← hmore, List.getElem?_append_left (List.getElem?_eq_some_iff.mp hdeclared).1]
    exact hdeclared
  rw [List.getElem?_map, Array.getElem?_toList, Option.map_eq_some_iff] at hkept
  obtain ⟨t, ht, hscope⟩ := hkept
  refine ⟨t, ?_, hscope⟩
  rw [CompilationUnit.type?, hpresent, if_neg Bool.false_ne_true]
  exact ht

/-- The unit of a program has the scope that it is given last. A type that names no
scope has the one that the unit had before it, which is the unit's unless a later step
gives the unit another. Two such types are in one scope, and see what the other keeps
to its scope, if the unit had one scope before both of them, and only then. -/
theorem finish_scopes (h : (after file steps).finish = .ok u) :
    u.scope = scopeIn steps ∧
      (∀ before spec id, Declares steps before spec id → spec.scope = none →
        ∃ t, u.type? id = some t ∧ t.scope = scopeIn before ∧
          (t.scope = u.scope ↔ scopeIn before = scopeIn steps)) ∧
      ∀ before before' spec spec' id id', Declares steps before spec id → spec.scope = none →
        Declares steps before' spec' id' → spec'.scope = none →
        (u.resolver.sameScope id id' = true ↔ scopeIn before = scopeIn before') ∧
          u.SeesScopedIff id id' (scopeIn before = scopeIn before') := by
  obtain ⟨hfaults, -, -, rfl⟩ := finish_eq_ok.mp h
  have hsound := (sound_iff file).mpr hfaults
  have hunit := scope_after file steps
  have hdefault : ∀ before spec id, Declares steps before spec id → spec.scope = none →
      ∃ t, (after file steps).unit.type? id = some t ∧ t.scope = scopeIn before := by
    intro before spec id hdeclares hnone
    obtain ⟨t, ht, hscope⟩ := exists_type?_of_declares file hsound hdeclares
    rw [hnone] at hscope
    exact ⟨t, ht, hscope⟩
  refine ⟨hunit, ?_, ?_⟩
  · intro before spec id hdeclares hnone
    obtain ⟨t, ht, hscope⟩ := hdefault before spec id hdeclares hnone
    exact ⟨t, ht, hscope, by rw [hscope, hunit]⟩
  · intro before before' spec spec' id id' hdeclares hnone hdeclares' hnone'
    obtain ⟨s, hs, hscope⟩ := hdefault before spec id hdeclares hnone
    obtain ⟨t, ht, hscope'⟩ := hdefault before' spec' id' hdeclares' hnone'
    have hsees := CompilationUnit.seesScopedIff hs ht
    have hsame : (after file steps).unit.resolver.sameScope id id' = (s.scope == t.scope) :=
      CompilationUnit.sameScope_eq ht hs
    rw [hscope, hscope'] at hsees hsame
    exact ⟨by rw [hsame, beq_iff_eq], hsees⟩

def resettled : List Step :=
  [.topClass "A", .addConstructor ⟨0⟩ { access := .scope }, .withScope ⟨1⟩, .topClass "B",
    .extending ⟨1⟩ ⟨0⟩, .topClass "C", .withScope ⟨0⟩]

theorem declares_resettled :
    Declares resettled [] { name := "A" } ⟨0⟩ ∧
      Declares resettled (resettled.take 3) { name := "B" } ⟨1⟩ ∧
      Declares resettled (resettled.take 5) { name := "C" } ⟨2⟩ :=
  ⟨⟨⟨_, rfl⟩, rfl, rfl⟩, ⟨⟨_, rfl⟩, rfl, rfl⟩, ⟨_, rfl⟩, rfl, rfl⟩

theorem finish_scopes_resettled :
    (after "a.cs" resettled).finish = .ok (after "a.cs" resettled).unit ∧
      (after "a.cs" resettled).unit.scope = ⟨0⟩ ∧
      (∃ t, (after "a.cs" resettled).unit.type? ⟨1⟩ = some t ∧ t.scope = ⟨1⟩) ∧
      (after "a.cs" resettled).unit.resolver.sameScope ⟨1⟩ ⟨2⟩ = true ∧
      ¬ (after "a.cs" resettled).unit.resolver.sameScope ⟨1⟩ ⟨0⟩ = true := by
  have hfinish : (after "a.cs" resettled).finish = .ok (after "a.cs" resettled).unit := rfl
  obtain ⟨hA, hB, hC⟩ := declares_resettled
  obtain ⟨hunit, hscopes, hsame⟩ := finish_scopes hfinish
  obtain ⟨t, ht, hscope, -⟩ := hscopes _ _ _ hB rfl
  have hapart : scopeIn (resettled.take 3) ≠ scopeIn [] := by decide
  exact ⟨hfinish, hunit, ⟨t, ht, hscope⟩, (hsame _ _ _ _ _ _ hB rfl hC rfl).1.mpr rfl,
    fun h => hapart ((hsame _ _ _ _ _ _ hB rfl hA rfl).1.mp h)⟩

/-- A class that is declared before the unit is given its scope is not in this scope,
and neither in that of a class declared later. -/
theorem not_finish_scopes :
    (¬ ∀ (file : String) (steps : List Step) (u : CompilationUnit),
      (after file steps).finish = .ok u →
        ∀ before spec id t, Declares steps before spec id → spec.parent = .absent →
          spec.scope = none → u.type? id = some t → t.scope = u.scope) ∧
    ¬ ∀ (file : String) (steps : List Step) (u : CompilationUnit),
      (after file steps).finish = .ok u →
        ∀ before before' spec spec' id id',
          Declares steps before spec id → spec.parent = .absent → spec.scope = none →
          Declares steps before' spec' id' → spec'.parent = .absent → spec'.scope = none →
            u.resolver.sameScope id id' = true := by
  have hfinish : (after "a.cs" (resettled.take 4)).finish =
      .ok (after "a.cs" (resettled.take 4)).unit := rfl
  have hA : Declares (resettled.take 4) [] { name := "A" } ⟨0⟩ := ⟨⟨_, rfl⟩, rfl, rfl⟩
  have hB : Declares (resettled.take 4) (resettled.take 3) { name := "B" } ⟨1⟩ :=
    ⟨⟨_, rfl⟩, rfl, rfl⟩
  constructor
  · intro hclaim
    have hscope : (⟨0⟩ : ScopeId) = ⟨1⟩ := hclaim "a.cs" _ _ hfinish _ _ _ _ hA rfl rfl rfl
    revert hscope
    decide
  · intro hclaim
    have hsame : false = true := hclaim "a.cs" _ _ hfinish _ _ _ _ _ _ hB rfl rfl hA rfl rfl
    cases hsame

end Draft

end CtorArity
