import CtorArity.Proofs.Links
import Mathlib.Data.List.Induction

/-!
# Programs

A program is a list of steps. The types it declares, the constructors they get,
the base that a type has in the end and the handles that are known after it can
be read off the list alone. `Verdict` says in these terms what a program comes
to, and `finish_iff` that finishing its draft gives just that.
-/

namespace CtorArity

namespace Step

def declared? : Step → Option TypeSpec
  | .declare spec => some spec
  | .withScope _ | .setBase .. | .addConstructor .. | .create .. => none

def constructed? : Step → Option (TypeId × CtorSpec)
  | .addConstructor owner spec => some (owner, spec)
  | .withScope _ | .declare _ | .setBase .. | .create .. => none

def baseFor? (id : TypeId) : Step → Option BaseBinding
  | .setBase owner base => if owner = id then some base else none
  | .withScope _ | .declare _ | .addConstructor .. | .create .. => none

def declaredIn (steps : List Step) : List TypeSpec := steps.filterMap (·.declared?)

def constructedIn (steps : List Step) : List (TypeId × CtorSpec) := steps.filterMap (·.constructed?)

/-- The base that a type is given last. -/
def baseIn (steps : List Step) (id : TypeId) : BaseBinding :=
  (steps.filterMap (·.baseFor? id)).getLast?.getD .noBase

/-- The type that the handle names after these steps. -/
def specIn? (steps : List Step) (id : TypeId) : Option TypeSpec :=
  if id.isAbsent then none else (declaredIn steps)[id.index]?

def nameIn (steps : List Step) (id : TypeId) : String :=
  ((specIn? steps id).map (·.name)).getD ""

def Known (steps : List Step) (id : TypeId) : Prop := (specIn? steps id).isSome = true

/-- Each step uses handles of types that earlier steps declare. -/
inductive Sound : List Step → Prop
  | nil : Sound []
  | concat {steps : List Step} {step : Step} (hsound : Sound steps)
      (hknown : ∀ id ∈ step.handles, Known steps id) : Sound (steps ++ [step])

def FirstUnknown (steps : List Step) (step : Step) (id : TypeId) : Prop :=
  ∃ known rest, step.handles = known ++ id :: rest ∧ (∀ k ∈ known, Known steps k) ∧
    ¬ Known steps id

/-- Of the types that are their own base in the end, this is the first one. -/
structure FirstSelfBased (steps : List Step) (id : TypeId) : Prop where
  base : baseIn steps id = .declared id
  lowest : ∀ lower : TypeId, lower.index < id.index → baseIn steps lower ≠ .declared lower

end Step

/-- At most one parameter takes any number of arguments, and only the last. -/
structure WellPlaced (params : List Param) : Prop where
  atMostOne : params.countP (·.isVariadic) ≤ 1
  last : ∀ before p after, params = before ++ p :: after → p.isVariadic = true → after = []

inductive ParamFault (owner : String) (params : List Param) : ModelError → Prop
  | several (hcount : 1 < params.countP (·.isVariadic)) :
      ParamFault owner params (.multipleVariadic owner)
  | notLast {before after : List Param} {p : Param} (hcount : params.countP (·.isVariadic) ≤ 1)
      (hparams : params = before ++ p :: after) (hvariadic : p.isVariadic = true)
      (hafter : after ≠ []) : ParamFault owner params (.variadicNotLast owner p.name)

open Step in
/-- What a program comes to. -/
inductive Verdict (file : String) (steps : List Step) :
    Except ModelError CompilationUnit → Prop
  | unknownType {before later : List Step} {step : Step} {id : TypeId}
      (hsplit : steps = before ++ step :: later) (hsound : Sound before)
      (hfirst : FirstUnknown before step id) : Verdict file steps (.error (.unknownType id))
  | misplaced {before later : List (TypeId × CtorSpec)} {owner : TypeId} {spec : CtorSpec}
      {e : ModelError} (hsound : Sound steps)
      (hsplit : constructedIn steps = before ++ (owner, spec) :: later)
      (hbefore : ∀ c ∈ before, WellPlaced c.2.params)
      (hfault : ParamFault (nameIn steps owner) spec.params e) : Verdict file steps (.error e)
  | selfBase {id : TypeId} (hsound : Sound steps)
      (hplaced : ∀ c ∈ constructedIn steps, WellPlaced c.2.params)
      (hfirst : FirstSelfBased steps id) :
      Verdict file steps (.error (.selfBase (nameIn steps id)))
  | built (hsound : Sound steps) (hplaced : ∀ c ∈ constructedIn steps, WellPlaced c.2.params)
      (hbases : ∀ id, baseIn steps id ≠ .declared id) :
      Verdict file steps (.ok (Draft.after file steps).unit)

-- ---------------------------------------------------------------------------
-- Parameter lists
-- ---------------------------------------------------------------------------

section
variable {owner : String} {params before after : List Param} {p : Param} {e : ModelError}

theorem find?_dropLast (hcount : params.countP (·.isVariadic) ≤ 1)
    (hparams : params = before ++ p :: after) (hvariadic : p.isVariadic = true)
    (hafter : after ≠ []) : params.dropLast.find? (·.isVariadic) = some p := by
  subst hparams
  have hnone : ∀ q ∈ before, ¬ q.isVariadic = true := by
    have hzero : before.countP (·.isVariadic) = 0 := by
      simp only [List.countP_append, List.countP_cons, hvariadic, if_true] at hcount
      omega
    exact List.countP_eq_zero.mp hzero
  rw [List.dropLast_append_of_ne_nil (List.cons_ne_nil p after),
    List.dropLast_cons_of_ne_nil hafter]
  exact List.find?_eq_some_iff_append.mpr
    ⟨hvariadic, before, after.dropLast, rfl, fun q hq => by simpa using hnone q hq⟩

theorem exists_split_of_find?_dropLast (h : params.dropLast.find? (·.isVariadic) = some p) :
    p.isVariadic = true ∧ ∃ before after, params = before ++ p :: after ∧ after ≠ [] := by
  obtain ⟨hvariadic, before, after, hsplit, -⟩ := List.find?_eq_some_iff_append.mp h
  have hne : params ≠ [] := by
    rintro rfl
    cases h
  refine ⟨hvariadic, before, after ++ [params.getLast hne], ?_, by simp⟩
  rw [← List.cons_append, ← List.append_assoc, ← hsplit, List.dropLast_append_getLast hne]

theorem paramFault?_eq_some_iff : paramFault? owner params = some e ↔ ParamFault owner params e := by
  unfold paramFault?
  split
  · next hcount =>
    constructor
    · rintro ⟨⟩
      exact .several hcount
    · intro hfault
      cases hfault with
      | several => rfl
      | notLast hone => exact absurd hcount (by omega)
  · next hcount =>
    rw [Option.map_eq_some_iff]
    constructor
    · rintro ⟨p, hp, rfl⟩
      obtain ⟨hvariadic, before, after, hsplit, hafter⟩ := exists_split_of_find?_dropLast hp
      exact .notLast (by omega) hsplit hvariadic hafter
    · intro hfault
      cases hfault with
      | several hseveral => exact absurd hseveral hcount
      | notLast hone hsplit hvariadic hafter =>
        exact ⟨_, find?_dropLast hone hsplit hvariadic hafter, rfl⟩

theorem paramFault?_eq_none_iff : paramFault? owner params = none ↔ WellPlaced params := by
  rw [Option.eq_none_iff_forall_ne_some]
  simp only [ne_eq, paramFault?_eq_some_iff]
  constructor
  · intro hnone
    have hcount : params.countP (·.isVariadic) ≤ 1 :=
      Nat.not_lt.mp fun hseveral => hnone _ (.several hseveral)
    refine ⟨hcount, fun before p after hsplit hvariadic => ?_⟩
    by_contra hafter
    exact hnone _ (.notLast hcount hsplit hvariadic hafter)
  · rintro ⟨hcount, hlast⟩ e hfault
    cases hfault with
    | several hseveral => omega
    | notLast _ hsplit hvariadic hafter => exact hafter (hlast _ _ _ hsplit hvariadic)

end

-- ---------------------------------------------------------------------------
-- One more step
-- ---------------------------------------------------------------------------

namespace Step

variable {steps : List Step} {step : Step} {id : TypeId}

theorem declaredIn_concat (steps : List Step) (step : Step) :
    declaredIn (steps ++ [step]) = declaredIn steps ++ step.declared?.toList := by
  rw [declaredIn, List.filterMap_append]
  cases h : step.declared? <;> simp [declaredIn, h]

theorem constructedIn_concat (steps : List Step) (step : Step) :
    constructedIn (steps ++ [step]) = constructedIn steps ++ step.constructed?.toList := by
  rw [constructedIn, List.filterMap_append]
  cases h : step.constructed? <;> simp [constructedIn, h]

theorem baseIn_concat (steps : List Step) (step : Step) (id : TypeId) :
    baseIn (steps ++ [step]) id = (step.baseFor? id).getD (baseIn steps id) := by
  rw [baseIn, List.filterMap_append]
  cases h : step.baseFor? id <;> simp [baseIn, h]

theorem known_iff :
    Known steps id ↔ id.isAbsent = false ∧ id.index < (declaredIn steps).length := by
  cases h : id.isAbsent <;> simp [Known, specIn?, h]

theorem Known.concat (h : Known steps id) (step : Step) : Known (steps ++ [step]) id := by
  rw [known_iff] at h ⊢
  refine ⟨h.1, ?_⟩
  rw [declaredIn_concat, List.length_append]
  exact Nat.lt_add_right _ h.2

end Step

-- ---------------------------------------------------------------------------
-- What a program says of the tables
-- ---------------------------------------------------------------------------

open Step

/-- The tables hold what the program declares, each type with the base that it is
given last. -/
structure Outline.Tells (o : Outline) (steps : List Step) : Prop where
  names : o.types.map (·.name) = (declaredIn steps).map (·.name)
  ctors : o.ctors.map (fun c => (c.owner, c.params)) =
    (constructedIn steps).map fun c => (c.1, c.2.params)
  bases : ∀ i (t : TypeDecl), o.types[i]? = some t →
    t.base = if i < 0xFFFFFFFF then baseIn steps (.ofIndex i) else .noBase
  unbound : ∀ id, ¬ Known steps id → baseIn steps id = .noBase

namespace Outline.Tells

variable {o : Outline} {steps : List Step} {step : Step} {id : TypeId}

theorem length_types (h : o.Tells steps) : o.types.length = (declaredIn steps).length := by
  simpa using congrArg List.length h.names

theorem names_iff_known (h : o.Tells steps) : o.Names id ↔ Known steps id := by
  rw [known_iff, ← h.length_types]
  rfl

theorem base_of_length_le (h : o.Tells steps) {i : Nat} (hi : o.types.length ≤ i)
    (hlt : i < 0xFFFFFFFF) : baseIn steps (.ofIndex i) = .noBase := by
  refine h.unbound _ fun hknown => ?_
  obtain ⟨-, hindex⟩ := h.names_iff_known.mpr hknown
  rw [Handle.index_ofIndex (Nat.le_of_lt hlt)] at hindex
  omega

theorem of_types_eq (h : o.Tells steps) (hdeclares : step.declared? = none)
    (hbinds : ∀ id, step.baseFor? id = none) (htypes : (o.apply step).types = o.types)
    (hctors : (o.apply step).ctors.map (fun c => (c.owner, c.params)) =
      (constructedIn (steps ++ [step])).map fun c => (c.1, c.2.params)) :
    (o.apply step).Tells (steps ++ [step]) where
  names := by rw [htypes, h.names, declaredIn_concat, hdeclares, Option.toList_none, List.append_nil]
  ctors := hctors
  bases i t ht := by
    rw [baseIn_concat, hbinds]
    exact h.bases i t (htypes ▸ ht)
  unbound id hid := by
    rw [baseIn_concat, hbinds]
    exact h.unbound id fun hknown => hid (hknown.concat step)

theorem declare (h : o.Tells steps) (spec : TypeSpec) :
    (o.apply (.declare spec)).Tells (steps ++ [.declare spec]) where
  names := by simp [Outline.apply, declaredIn_concat, Step.declared?, h.names, TypeSpec.bare]
  ctors := by simpa [Outline.apply, constructedIn_concat, Step.constructed?] using h.ctors
  bases i t ht := by
    rw [baseIn_concat]
    simp only [Outline.apply, List.getElem?_append] at ht
    split at ht
    · exact h.bases i t ht
    · next hge =>
      -- The type is new: nothing was said of it before.
      obtain ⟨-, rfl⟩ := List.getElem?_eq_some_iff.mp ht
      rw [List.getElem_singleton]
      split
      · next hlt => exact (h.base_of_length_le (Nat.not_lt.mp hge) hlt).symm
      · rfl
  unbound id hid := by
    rw [baseIn_concat]
    exact h.unbound id fun hknown => hid (hknown.concat _)

theorem setBase (h : o.Tells steps) (hid : Known steps id) (base : BaseBinding) :
    (o.apply (.setBase id base)).Tells (steps ++ [.setBase id base]) where
  names := by
    rw [o.map_types_setBase id base fun _ => rfl, h.names, declaredIn_concat]
    exact congrArg _ (List.append_nil _).symm
  ctors := by simpa [Outline.apply, constructedIn_concat, Step.constructed?] using h.ctors
  bases i t ht := by
    obtain ⟨old, hold, rfl⟩ := Outline.getElem?_setBase ht
    have holdBase := h.bases i old hold
    by_cases hi : id.index = i
    · subst hi
      have hlt := Handle.index_lt (known_iff.mp hid).1
      simp [baseIn_concat, Step.baseFor?, hlt, Handle.ofIndex_index]
    · rw [if_neg hi, holdBase]
      refine ite_congr rfl (fun hlt => ?_) fun _ => rfl
      have hne : id ≠ .ofIndex i := by
        rintro rfl
        exact hi (Handle.index_ofIndex (Nat.le_of_lt hlt))
      simp [baseIn_concat, Step.baseFor?, hne]
  unbound other hother := by
    have hunknown : ¬ Known steps other := fun hknown => hother (hknown.concat _)
    have hne : id ≠ other := by
      rintro rfl
      exact hunknown hid
    rw [baseIn_concat, Step.baseFor?, if_neg hne]
    exact h.unbound other hunknown

theorem addConstructor (h : o.Tells steps) (owner : TypeId) (spec : CtorSpec) :
    (o.apply (.addConstructor owner spec)).Tells (steps ++ [.addConstructor owner spec]) := by
  refine h.of_types_eq rfl (fun _ => rfl) rfl ?_
  simp [Outline.apply, constructedIn_concat, Step.constructed?, h.ctors, CtorSpec.bare]

theorem apply (h : o.Tells steps) (hknown : ∀ id ∈ step.handles, Known steps id) :
    (o.apply step).Tells (steps ++ [step]) := by
  cases step with
  | withScope scope =>
    refine h.of_types_eq rfl (fun _ => rfl) rfl ?_
    simpa [Outline.apply, constructedIn_concat, Step.constructed?] using h.ctors
  | declare spec => exact h.declare spec
  | setBase id base => exact h.setBase (hknown id (by simp [Step.handles])) base
  | addConstructor owner spec => exact h.addConstructor owner spec
  | create enclosing target argCount =>
    refine h.of_types_eq rfl (fun _ => rfl) rfl ?_
    simpa [Outline.apply, constructedIn_concat, Step.constructed?] using h.ctors

end Outline.Tells

-- ---------------------------------------------------------------------------
-- Runs that know their handles
-- ---------------------------------------------------------------------------

namespace Draft

variable {file : String} {steps : List Step} {step : Step} {id : TypeId}

theorem after_concat (file : String) (steps : List Step) (step : Step) :
    after file (steps ++ [step]) = ((after file steps).apply step).1 :=
  run_append _ _ _

theorem tells_start (file : String) : (start file).unit.outline.Tells [] where
  names := rfl
  ctors := rfl
  bases _ _ ht := by simp [start, CompilationUnit.outline] at ht
  unbound _ _ := rfl

theorem unknown?_eq_some_iff (h : (after file steps).unit.outline.Tells steps) :
    (after file steps).unknown? step = some id ↔ FirstUnknown steps step id := by
  simp only [unknown?, List.find?_eq_some_iff_append, FirstUnknown, Bool.not_eq_true',
    ← Bool.not_eq_true, Bool.not_not, ← names_iff_knows, h.names_iff_known]
  constructor
  · rintro ⟨hid, known, rest, hsplit, hknown⟩
    exact ⟨known, rest, hsplit, hknown, hid⟩
  · rintro ⟨known, rest, hsplit, hknown, hid⟩
    exact ⟨hid, known, rest, hsplit, hknown⟩

theorem unknown?_eq_none_iff (h : (after file steps).unit.outline.Tells steps) :
    (after file steps).unknown? step = none ↔ ∀ id ∈ step.handles, Known steps id := by
  simp only [unknown?, List.find?_eq_none, Bool.not_eq_true', Bool.not_eq_false,
    ← names_iff_knows, h.names_iff_known]

/-- A program whose handles are known runs without a fault, and its tables tell
what it says. -/
theorem after_of_sound (file : String) (h : Sound steps) :
    (after file steps).faults = [] ∧ (after file steps).unit.outline.Tells steps := by
  induction h with
  | nil => exact ⟨rfl, tells_start file⟩
  | @concat steps step _ hknown ih =>
    obtain ⟨houtline, hfaults⟩ := apply_of_known ((unknown?_eq_none_iff ih.2).mpr hknown)
    rw [after_concat]
    exact ⟨hfaults.trans ih.1, houtline ▸ ih.2.apply hknown⟩

theorem head?_faults_after {before later : List Step} (hsound : Sound before)
    (hfirst : FirstUnknown before step id) :
    (after file (before ++ step :: later)).faults.head? = some (.unknownType id) := by
  obtain ⟨hfaults, htells⟩ := after_of_sound file hsound
  have hnoted : (after file (before ++ [step])).faults = [.unknownType id] := by
    rw [after_concat, faults_apply, (unknown?_eq_some_iff htells).mpr hfirst, hfaults]
    rfl
  have hrun : after file (before ++ step :: later) = (after file (before ++ [step])).run later := by
    rw [after, after, ← run_append, List.append_assoc, List.singleton_append]
  obtain ⟨others, hothers⟩ := faults_prefix_run (after file (before ++ [step])) later
  rw [hrun, ← hothers, hnoted]
  rfl

end Draft

theorem Step.sound_or_firstUnknown (steps : List Step) : Sound steps ∨
    ∃ before step later id, steps = before ++ step :: later ∧ Sound before ∧
      FirstUnknown before step id := by
  induction steps using List.reverseRecOn with
  | nil => exact .inl .nil
  | append_singleton steps step ih =>
    rcases ih with hsound | ⟨before, first, later, id, rfl, hsound, hfirst⟩
    · obtain ⟨-, htells⟩ := Draft.after_of_sound "" hsound
      cases hunknown : (Draft.after "" steps).unknown? step with
      | none => exact .inl (hsound.concat ((Draft.unknown?_eq_none_iff htells).mp hunknown))
      | some id =>
        exact .inr ⟨steps, step, [], id, rfl, hsound,
          (Draft.unknown?_eq_some_iff htells).mp hunknown⟩
    · exact .inr ⟨before, first, later ++ [step], id, by simp, hsound, hfirst⟩

theorem Step.sound_iff (file : String) {steps : List Step} :
    Sound steps ↔ (Draft.after file steps).faults = [] := by
  constructor
  · exact fun hsound => (Draft.after_of_sound file hsound).1
  · intro hfaults
    rcases sound_or_firstUnknown steps with
      hsound | ⟨before, step, later, id, rfl, hsound, hfirst⟩
    · exact hsound
    · have hfault : (Draft.after file (before ++ step :: later)).faults.head? =
          some (.unknownType id) := Draft.head?_faults_after hsound hfirst
      rw [hfaults] at hfault
      cases hfault

theorem Step.Sound.of_append {first second : List Step} (h : Sound (first ++ second)) :
    Sound first := by
  rw [sound_iff ""] at h ⊢
  have hprefix := Draft.faults_prefix_run (Draft.after "" first) second
  have hrun : Draft.after "" (first ++ second) = (Draft.after "" first).run second :=
    Draft.run_append _ _ _
  rw [← hrun, h] at hprefix
  exact List.prefix_nil.mp hprefix

theorem Step.Sound.unknown?_eq_none {before later : List Step} {step : Step}
    (h : Sound (before ++ step :: later)) (file : String) :
    (Draft.after file before).unknown? step = none := by
  have hfirst : Sound (before ++ [step]) := by
    rw [List.append_cons] at h
    exact h.of_append
  have hfaults := (sound_iff file).mp hfirst
  rw [Draft.after_concat, Draft.faults_apply] at hfaults
  simpa using (List.append_eq_nil_iff.mp hfaults).2

-- ---------------------------------------------------------------------------
-- What the last check finds
-- ---------------------------------------------------------------------------

theorem Step.FirstSelfBased.unique {steps : List Step} {id id' : TypeId}
    (h : FirstSelfBased steps id) (h' : FirstSelfBased steps id') : id = id' := by
  apply Handle.index_inj
  rcases Nat.lt_trichotomy id.index id'.index with hlt | heq | hgt
  · exact absurd h.base (h'.lowest id hlt)
  · exact heq
  · exact absurd h'.base (h.lowest id' hgt)

namespace CompilationUnit

variable {u : CompilationUnit} {steps : List Step} {id : TypeId}

theorem name_type? (h : u.outline.Tells steps) (id : TypeId) :
    ((u.type? id).map (·.name)).getD "" = nameIn steps id := by
  have hnames : (u.types.toList.map (·.name))[id.index]? =
      ((declaredIn steps).map (·.name))[id.index]? := by
    rw [← h.names, outline, List.map_map]
    rfl
  cases ha : id.isAbsent
  · simpa [type?, nameIn, specIn?, ha] using congrArg (·.getD "") hnames
  · simp [type?, nameIn, specIn?, ha]

theorem ctorFault?_eq (h : u.outline.Tells steps) : u.ctorFault? =
    (constructedIn steps).findSome? fun c => paramFault? (nameIn steps c.1) c.2.params := by
  have hctors : u.ctors.toList.map (fun c => (c.owner, c.params)) =
      (constructedIn steps).map fun c => (c.1, c.2.params) := by
    rw [← h.ctors, outline, List.map_map]
    rfl
  have hfault := congrArg (List.findSome? fun c => paramFault? (nameIn steps c.1) c.2) hctors
  rw [List.findSome?_map, List.findSome?_map] at hfault
  simpa only [ctorFault?, name_type? h, Function.comp_def] using hfault

theorem ctorFault?_eq_none_iff (h : u.outline.Tells steps) :
    u.ctorFault? = none ↔ ∀ c ∈ constructedIn steps, WellPlaced c.2.params := by
  simp only [ctorFault?_eq h, List.findSome?_eq_none_iff, paramFault?_eq_none_iff]

theorem ctorFault?_eq_some_iff (h : u.outline.Tells steps) {e : ModelError} :
    u.ctorFault? = some e ↔ ∃ before owner spec later,
      constructedIn steps = before ++ (owner, spec) :: later ∧
        (∀ c ∈ before, WellPlaced c.2.params) ∧ ParamFault (nameIn steps owner) spec.params e := by
  rw [ctorFault?_eq h, List.findSome?_eq_some_iff]
  simp only [paramFault?_eq_none_iff, paramFault?_eq_some_iff]
  constructor
  · rintro ⟨before, ⟨owner, spec⟩, later, hsplit, hfault, hbefore⟩
    exact ⟨before, owner, spec, later, hsplit, hbefore, hfault⟩
  · rintro ⟨before, owner, spec, later, hsplit, hbefore, hfault⟩
    exact ⟨before, (owner, spec), later, hsplit, hfault, hbefore⟩

theorem base_of_getElem? (h : u.outline.Tells steps) {i : Nat} {t : TypeDecl}
    (ht : u.types[i]? = some t) :
    t.base = if i < 0xFFFFFFFF then baseIn steps (.ofIndex i) else .noBase :=
  h.bases i t.bare (by simp [outline, ht])

theorem base_of_type? (h : u.outline.Tells steps) {t : TypeDecl} (ht : u.type? id = some t) :
    t.base = baseIn steps id := by
  rw [base_of_getElem? h (getElem?_of_type? ht), if_pos (Handle.index_lt (isAbsent_of_type? ht)),
    Handle.ofIndex_index]

theorem exists_type?_of_base (h : u.outline.Tells steps) {base : TypeId}
    (hbase : baseIn steps id = .declared base) : ∃ t, u.type? id = some t := by
  rw [← Option.isSome_iff_exists, ← names_iff, h.names_iff_known]
  by_contra hunknown
  rw [h.unbound id hunknown] at hbase
  cases hbase

theorem getElem?_namedTypes (u : CompilationUnit) (i : Nat) :
    u.namedTypes[i]? = u.types[i]?.map fun t => (.ofIndex i, t) := by
  simp [namedTypes, List.getElem?_zipIdx, Function.comp_def]

theorem getElem?_namedTypes_index {t : TypeDecl} (ht : u.type? id = some t) :
    u.namedTypes[id.index]? = some (id, t) := by
  rw [getElem?_namedTypes, getElem?_of_type? ht, Option.map_some, Handle.ofIndex_index]

theorem firstSelfBased_of_find? (h : u.outline.Tells steps) {t : TypeDecl}
    (hfind : (u.namedTypes.find? fun (id, t) => t.base == .declared id) = some (id, t)) :
    FirstSelfBased steps id ∧ t.name = nameIn steps id := by
  obtain ⟨hself, i, hi, hentry, hbefore⟩ := List.find?_eq_some_iff_getElem.mp hfind
  have hget := List.getElem?_eq_some_iff.mpr ⟨hi, hentry⟩
  rw [getElem?_namedTypes, Option.map_eq_some_iff] at hget
  obtain ⟨_, ht, ⟨⟩⟩ := hget
  have hbase := base_of_getElem? h ht
  rw [beq_iff_eq.mp hself] at hbase
  -- A type too far out for a handle has no base.
  have hlt : i < 0xFFFFFFFF := by
    by_contra hge
    rw [if_neg hge] at hbase
    cases hbase
  rw [if_pos hlt] at hbase
  have hindex : (Handle.ofIndex i : TypeId).index = i := Handle.index_ofIndex (Nat.le_of_lt hlt)
  have htype : u.type? (.ofIndex i) = some t := by
    rwa [type?, Handle.isAbsent_ofIndex hlt, if_neg Bool.false_ne_true, hindex]
  refine ⟨⟨hbase.symm, fun lower hlower hlowerBase => ?_⟩, ?_⟩
  · obtain ⟨t', ht'⟩ := exists_type?_of_base h hlowerBase
    obtain ⟨hj, hentry'⟩ := List.getElem?_eq_some_iff.mp (getElem?_namedTypes_index ht')
    have hnot := hbefore lower.index (hindex ▸ hlower)
    rw [hentry'] at hnot
    simp [base_of_type? h ht', hlowerBase] at hnot
  · rw [← name_type? h, htype]
    rfl

theorem baseFault?_eq_none_iff (h : u.outline.Tells steps) :
    u.baseFault? = none ↔ ∀ id, baseIn steps id ≠ .declared id := by
  rw [baseFault?, Option.map_eq_none_iff]
  constructor
  · intro hnone id hbase
    obtain ⟨t, ht⟩ := exists_type?_of_base h hbase
    have hnot := List.find?_eq_none.mp hnone (id, t)
      (List.mem_of_getElem? (getElem?_namedTypes_index ht))
    simp [base_of_type? h ht, hbase] at hnot
  · intro hbases
    cases hfind : u.namedTypes.find? fun (id, t) => t.base == .declared id with
    | none => rfl
    | some entry => exact absurd (firstSelfBased_of_find? h hfind).1.base (hbases entry.1)

theorem baseFault?_eq_some_iff (h : u.outline.Tells steps) {e : ModelError} :
    u.baseFault? = some e ↔ ∃ id, FirstSelfBased steps id ∧ e = .selfBase (nameIn steps id) := by
  constructor
  · intro hfault
    obtain ⟨⟨id, t⟩, hfind, rfl⟩ := Option.map_eq_some_iff.mp hfault
    obtain ⟨hfirst, hname⟩ := firstSelfBased_of_find? h hfind
    exact ⟨id, hfirst, congrArg _ hname⟩
  · rintro ⟨id, hfirst, rfl⟩
    cases hfault : u.baseFault? with
    | none => exact absurd hfirst.base ((baseFault?_eq_none_iff h).mp hfault id)
    | some e =>
      obtain ⟨⟨id', t⟩, hfind, rfl⟩ := Option.map_eq_some_iff.mp hfault
      obtain ⟨hfirst', hname⟩ := firstSelfBased_of_find? h hfind
      rw [← hfirst'.unique hfirst]
      exact congrArg (some <| ModelError.selfBase ·) hname

end CompilationUnit

-- ---------------------------------------------------------------------------
-- Finishing a program
-- ---------------------------------------------------------------------------

namespace Draft

variable {file : String} {steps : List Step} {result : Except ModelError CompilationUnit}

theorem finish_of_faults {d : Draft} {e : ModelError} (h : d.faults.head? = some e) :
    d.finish = .error e := by
  rw [finish, h]
  rfl

theorem finish_of_ctorFault {d : Draft} {e : ModelError} (hfaults : d.faults = [])
    (h : d.unit.ctorFault? = some e) : d.finish = .error e := by
  rw [finish, hfaults, h]
  rfl

theorem finish_of_baseFault {d : Draft} {e : ModelError} (hfaults : d.faults = [])
    (hctors : d.unit.ctorFault? = none) (h : d.unit.baseFault? = some e) :
    d.finish = .error e := by
  rw [finish, hfaults, hctors, h]
  rfl

theorem finish_of_verdict (h : Verdict file steps result) : (after file steps).finish = result := by
  cases h with
  | unknownType hsplit hsound hfirst =>
    exact finish_of_faults (hsplit ▸ head?_faults_after hsound hfirst)
  | misplaced hsound hsplit hbefore hfault =>
    obtain ⟨hfaults, htells⟩ := after_of_sound file hsound
    exact finish_of_ctorFault hfaults
      ((CompilationUnit.ctorFault?_eq_some_iff htells).mpr ⟨_, _, _, _, hsplit, hbefore, hfault⟩)
  | selfBase hsound hplaced hfirst =>
    obtain ⟨hfaults, htells⟩ := after_of_sound file hsound
    exact finish_of_baseFault hfaults
      ((CompilationUnit.ctorFault?_eq_none_iff htells).mpr hplaced)
      ((CompilationUnit.baseFault?_eq_some_iff htells).mpr ⟨_, hfirst, rfl⟩)
  | built hsound hplaced hbases =>
    obtain ⟨hfaults, htells⟩ := after_of_sound file hsound
    exact finish_eq_ok.mpr ⟨hfaults, (CompilationUnit.ctorFault?_eq_none_iff htells).mpr hplaced,
      (CompilationUnit.baseFault?_eq_none_iff htells).mpr hbases, rfl⟩

theorem exists_verdict (file : String) (steps : List Step) :
    ∃ result, Verdict file steps result := by
  rcases sound_or_firstUnknown steps with hsound | ⟨_, _, _, _, hsplit, hsound, hfirst⟩
  · obtain ⟨-, htells⟩ := after_of_sound file hsound
    cases hctor : (after file steps).unit.ctorFault? with
    | some e =>
      obtain ⟨_, _, _, _, hsplit, hbefore, hfault⟩ :=
        (CompilationUnit.ctorFault?_eq_some_iff htells).mp hctor
      exact ⟨_, .misplaced hsound hsplit hbefore hfault⟩
    | none =>
      have hplaced := (CompilationUnit.ctorFault?_eq_none_iff htells).mp hctor
      cases hbase : (after file steps).unit.baseFault? with
      | some e =>
        obtain ⟨_, hfirst, -⟩ := (CompilationUnit.baseFault?_eq_some_iff htells).mp hbase
        exact ⟨_, .selfBase hsound hplaced hfirst⟩
      | none =>
        exact ⟨_, .built hsound hplaced ((CompilationUnit.baseFault?_eq_none_iff htells).mp hbase)⟩
  · exact ⟨_, .unknownType hsplit hsound hfirst⟩

/-- Finishing a program gives what it comes to: the first unknown handle, else the
first constructor with bad parameters, else the first type that is its own base in
the end, else the unit. In a unit all parameters are well placed. -/
theorem finish_iff (file : String) (steps : List Step) :
    (∀ result, (after file steps).finish = result ↔ Verdict file steps result) ∧
      ∀ u, (after file steps).finish = .ok u → ∀ c ∈ u.ctors, WellPlaced c.params := by
  constructor
  · intro result
    constructor
    · rintro rfl
      obtain ⟨result, hverdict⟩ := exists_verdict file steps
      rwa [finish_of_verdict hverdict]
    · exact finish_of_verdict
  · intro u hfinish c hc
    obtain ⟨-, hctors, -, rfl⟩ := finish_eq_ok.mp hfinish
    exact paramFault?_eq_none_iff.mp
      (List.findSome?_eq_none_iff.mp hctors c (Array.mem_toList_iff.mpr hc))

/-- A base that a later step replaces is no fault, and of the faults left that of the
lowest type counts. -/
example :
    (after "a.cs" [.topClass "A", .topClass "B", .topClass "C", .extending ⟨2⟩ ⟨2⟩,
      .extending ⟨0⟩ ⟨0⟩, .extending ⟨1⟩ ⟨1⟩, .extendingExternal ⟨0⟩]).finish =
        .error (.selfBase "B") := rfl

/-- Bad parameters come before such a base, and an unknown handle before both. -/
example :
    let steps : List Step := [.topClass "A", .extending ⟨0⟩ ⟨0⟩,
      .addConstructor ⟨0⟩ { params := [⟨"rest", false, true⟩, ⟨"p", false, false⟩] }]
    (after "a.cs" steps).finish = .error (.variadicNotLast "A" "rest") ∧
      (after "a.cs" (steps ++ [.extending ⟨1⟩ ⟨7⟩])).finish = .error (.unknownType ⟨7⟩) :=
  ⟨rfl, rfl⟩

end Draft

end CtorArity
