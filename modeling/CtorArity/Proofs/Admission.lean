import CtorArity.Proofs.Agreement

/-!
# Which dumps can be lowered

Lowering writes steps that know their handles (`knowsAll_steps`), so it never
meets an unknown one, and all types, constructors and creations of a dump get
into the tables (`outline_drafted`). What is left to go wrong is a parameter list
with a misplaced variadic parameter, or a type that is its own base
(`exists_lower_iff`).
-/

namespace CtorArity

open TypeDump CompilationUnit

-- ---------------------------------------------------------------------------
-- Steps that know their handles
-- ---------------------------------------------------------------------------

namespace Outline

variable {o : Outline} {id : TypeId} {steps : List Step}

/-- Each step knows its handles when it is its turn. -/
def KnowsAll (o : Outline) : List Step → Prop
  | [] => True
  | step :: rest => (∀ id ∈ step.handles, o.Names id) ∧ (o.apply step).KnowsAll rest

theorem knowsAll_append (o : Outline) (first second : List Step) :
    o.KnowsAll (first ++ second) ↔
      o.KnowsAll first ∧ (first.foldl Outline.apply o).KnowsAll second := by
  induction first generalizing o with
  | nil => simp [KnowsAll]
  | cons step rest ih => simp [KnowsAll, ih, and_assoc]

theorem knowsAll_of_forall (h : ∀ step ∈ steps, ∀ id ∈ step.handles, o.Names id) :
    o.KnowsAll steps := by
  induction steps generalizing o with
  | nil => trivial
  | cons step rest ih =>
    obtain ⟨hstep, hrest⟩ := List.forall_mem_cons.mp h
    refine ⟨hstep, ih ?_⟩
    intro later hlater id hid
    exact (hrest later hlater id hid).mono (length_types_apply o step)

theorem names_ofIndex {k : Nat} (hk : k < o.types.length) (hsize : k < 0xFFFFFFFF) :
    o.Names (.ofIndex k) := by
  refine ⟨Handle.isAbsent_ofIndex hsize, ?_⟩
  rwa [Handle.index_ofIndex (Nat.le_of_lt hsize)]

end Outline

theorem Draft.faults_run {d : Draft} {steps : List Step} (h : d.unit.outline.KnowsAll steps) :
    (d.run steps).faults = d.faults := by
  induction steps generalizing d with
  | nil => rfl
  | cons step rest ih =>
    obtain ⟨hstep, hrest⟩ := h
    have hknown : d.unknown? step = none := by
      unfold unknown?
      refine List.find?_eq_none.mpr ?_
      intro id hid
      simp [names_iff_knows.mp (hstep id hid)]
    obtain ⟨houtline, hfaults⟩ := apply_of_known hknown
    rw [← houtline] at hrest
    exact (ih hrest).trans hfaults

namespace TypeDump

theorem knowsAll_declareStepsAll (index : Nat) (around : List Nat) (types : List TypeDump)
    (o : Outline) (hlength : o.types.length = index) (haround : ∀ k ∈ around.head?, k < index)
    (hsize : index + countAll types < 0xFFFFFFFF) :
    o.KnowsAll (declareStepsAll index (around.head?.elim .absent .ofIndex) types) := by
  induction types using forest_induction generalizing index around o with
  | nil => trivial
  | cons t rest ihnested ihrest =>
    have hcount := t.count_eq
    have hcountAll := countAll_cons t rest
    have hparent : ∀ id ∈ (Step.declare (t.toSpec (around.head?.elim .absent .ofIndex))).handles,
        o.Names id := by
      intro id hid
      cases hk : around.head? with
      | none => simp [Step.handles, toSpec, Handle.present?, hk] at hid
      | some k =>
        have hlt := haround k hk
        have hpresent : (Handle.ofIndex k : TypeId).isAbsent = false :=
          Handle.isAbsent_ofIndex (by omega)
        simp [Step.handles, toSpec, Handle.present?, hk, hpresent] at hid
        subst hid
        exact Outline.names_ofIndex (by omega) (by omega)
    -- The type stands at `index` now; its constructors leave the types as they are.
    let declared := o.apply (.declare (t.toSpec (around.head?.elim .absent .ofIndex)))
    have hdeclared : declared.types.length = index + 1 := by
      simp [declared, Outline.apply, hlength]
    have hctors : declared.KnowsAll
        (t.constructors.map fun c => .addConstructor (.ofIndex index) c.toSpec) := by
      refine Outline.knowsAll_of_forall ?_
      intro step hstep id hid
      obtain ⟨c, -, rfl⟩ := List.mem_map.mp hstep
      obtain rfl := List.mem_singleton.mp hid
      exact Outline.names_ofIndex (by omega) (by omega)
    have hnested := ihnested (index + 1) (index :: around)
    have hinside := fun o => foldl_declareStepsAll (index + 1) (index :: around) t.nested o
    simp only [List.head?_cons, Option.elim_some] at hnested hinside
    simp only [declareStepsAll_cons, ← List.cons_append, Outline.knowsAll_append,
      List.foldl_append, List.foldl_cons, foldl_addConstructor, hinside]
    refine ⟨⟨⟨hparent, hctors⟩, hnested _ hdeclared ?_ (by omega)⟩, ihrest _ _ _ ?_ ?_ (by omega)⟩
    · simp
    · have hlength' : declared.types.length + countAll t.nested = index + t.count := by omega
      simpa [length_placesAll] using hlength'
    · intro k hk
      have := haround k hk
      omega

end TypeDump

theorem BaseBinding.eq_declared_of_declared? {b : BaseBinding} {id : TypeId}
    (h : b.declared? = some id) : b = .declared id := by
  cases b <;> simp [BaseBinding.declared?] at h ⊢
  exact h

/-- The declarations of a dump are few enough for a handle each. -/
structure UnitDump.Addressable (d : UnitDump) : Prop where
  types : d.allTypes.length < 0xFFFFFFFF
  ctors : (d.allTypes.flatMap (·.constructors)).length < 0xFFFFFFFF
  creations : (d.allTypes.flatMap (·.creations)).length + d.creations.length < 0xFFFFFFFF

namespace UnitDump

variable {d : UnitDump} {p q : Place} {id : TypeId}

theorem Addressable.countAll_lt (h : d.Addressable) : countAll d.types < 0xFFFFFFFF := by
  have hlt := h.types
  rwa [allTypes, length_preorderAll] at hlt

theorem id_mem_places (h : d.Addressable) (hp : p ∈ d.places) :
    p.number < countAll d.types ∧ p.id.index = p.number ∧ p.id.isAbsent = false := by
  have hlt := (number_placesAll hp).2
  have hsize := h.countAll_lt
  rw [Nat.zero_add] at hlt
  exact ⟨hlt, Handle.index_ofIndex (by omega), Handle.isAbsent_ofIndex (by omega)⟩

theorem eq_of_id_eq (h : d.Addressable) (hp : p ∈ d.places) (hq : q ∈ d.places)
    (hid : p.id = q.id) : p = q := by
  have hnumber := congrArg Handle.index hid
  rw [(id_mem_places h hp).2.1, (id_mem_places h hq).2.1] at hnumber
  have hget := Lowered.getElem?_places hp
  rw [hnumber, Lowered.getElem?_places hq] at hget
  exact (Option.some.inj hget).symm

theorem names_of_declared? (h : d.Addressable) {o : Outline}
    (ho : o.types.length = countAll d.types) {name : String}
    (hid : declared? d.allTypes name = some id) : o.Names id := by
  rw [Lowered.declared?_eq] at hid
  obtain ⟨p, hp, rfl⟩ := Option.map_eq_some_iff.mp hid
  obtain ⟨hlt, -, -⟩ := id_mem_places h (Lowered.mem_of_find? hp)
  have hsize := h.countAll_lt
  exact Outline.names_ofIndex (by omega) (by omega)

theorem bindBase_eq_declared_iff {types : List TypeDump} {name : String} :
    bindBase types name = .declared id ↔ name ∉ rootNames ∧ declared? types name = some id := by
  unfold bindBase
  by_cases hroot : name ∈ rootNames
  · simp [hroot]
  · cases declared? types name <;> simp [hroot]

/-- A name of the root class means no base, also where a class of that name is
declared. -/
theorem bindBase_eq_noBase_iff {types : List TypeDump} {name : String} :
    bindBase types name = .noBase ↔
      name = "object" ∨ name = "Object" ∨ name = "System.Object" := by
  rw [← mem_rootNames, bindBase]
  by_cases hroot : name ∈ rootNames
  · simp [hroot]
  · cases declared? types name <;> simp [hroot]

theorem declared?_of_bindTarget {types : List TypeDump} {name : String}
    (h : (bindTarget types name).declared? = some id) : declared? types name = some id := by
  unfold bindTarget at h
  cases hname : declared? types name <;> simp [hname, CreationTarget.declared?] at h ⊢
  exact h

theorem absent_or_lt_of_mem_ownedCreations {entry : TypeId × CreationDump}
    (h : entry ∈ d.ownedCreations) :
    entry.1 = .absent ∨ ∃ k, k < countAll d.types ∧ entry.1 = .ofIndex k := by
  rcases List.mem_append.mp h with h | h
  · obtain ⟨k, -, hlt, hk⟩ := owner_ownedCreationsAll h
    exact .inr ⟨k, by omega, hk⟩
  · obtain ⟨c, -, rfl⟩ := List.mem_map.mp h
    exact .inl rfl

theorem knowsAll_declaringSteps (h : d.Addressable) :
    (Draft.start d.file).unit.outline.KnowsAll d.declaringSteps := by
  have hdeclare := fun o hlength => knowsAll_declareStepsAll 0 [] d.types o hlength (by simp)
    (by simpa using h.countAll_lt)
  simp only [List.head?_nil, Option.elim_none] at hdeclare
  unfold declaringSteps
  cases d.scope with
  | none => exact hdeclare _ rfl
  | some scope => exact ⟨by simp [Step.handles], hdeclare _ rfl⟩

theorem knowsAll_bindingSteps (h : d.Addressable) {o : Outline}
    (ho : o.types.length = countAll d.types) : o.KnowsAll d.bindingSteps := by
  have hsize := h.countAll_lt
  refine Outline.knowsAll_of_forall ?_
  unfold bindingSteps
  refine List.forall_mem_append.mpr ⟨?_, ?_⟩
  · intro step hstep id hid
    obtain ⟨⟨t, i⟩, hentry, hbase⟩ := List.mem_filterMap.mp hstep
    obtain ⟨name, -, rfl⟩ := Option.map_eq_some_iff.mp hbase
    rcases List.mem_append.mp hid with hid | hid
    · have hbound := BaseBinding.eq_declared_of_declared? (Option.mem_toList.mp hid)
      exact names_of_declared? h ho (bindBase_eq_declared_iff.mp hbound).2
    · obtain rfl := List.mem_singleton.mp hid
      have hlt := (List.getElem?_eq_some_iff.mp (List.mem_zipIdx_iff_getElem?.mp hentry)).1
      rw [allTypes, length_preorderAll] at hlt
      exact Outline.names_ofIndex (by omega) (by omega)
  · intro step hstep id hid
    obtain ⟨entry, hentry, rfl⟩ := List.mem_map.mp hstep
    rcases List.mem_append.mp hid with hid | hid
    · have hid := Option.mem_toList.mp hid
      rcases absent_or_lt_of_mem_ownedCreations hentry with howner | ⟨k, hk, howner⟩
      · simp [Handle.present?, howner] at hid
      · have hpresent : (Handle.ofIndex k : TypeId).isAbsent = false :=
          Handle.isAbsent_ofIndex (by omega)
        simp [Handle.present?, howner, hpresent] at hid
        subst hid
        exact Outline.names_ofIndex (by omega) (by omega)
    · exact names_of_declared? h ho (declared?_of_bindTarget (Option.mem_toList.mp hid))

theorem knowsAll_steps (h : d.Addressable) :
    (Draft.start d.file).unit.outline.KnowsAll d.steps := by
  rw [steps_eq, Outline.knowsAll_append, foldl_declaringSteps]
  refine ⟨knowsAll_declaringSteps h, knowsAll_bindingSteps h ?_⟩
  simp [declared, length_places]

/-- The draft that lowering builds, before its last check. -/
def drafted (d : UnitDump) : Draft := (Draft.start d.file).run d.steps

theorem faults_drafted (h : d.Addressable) : d.drafted.faults = [] :=
  Draft.faults_run (knowsAll_steps h)

theorem outline_drafted (h : d.Addressable) : d.drafted.unit.outline = d.outline := by
  unfold drafted
  rw [Draft.outline_run (Draft.faults_run (knowsAll_steps h)), steps_eq, List.foldl_append,
    foldl_declaringSteps, foldl_bindingSteps (Nat.le_of_lt h.countAll_lt)]

end UnitDump

-- ---------------------------------------------------------------------------
-- What the last check finds
-- ---------------------------------------------------------------------------

/-- A variadic parameter that is not the last one, or one of several. -/
def CtorDump.MisplacesVariadic (c : CtorDump) : Prop :=
  1 < c.params.countP (·.isVariadic) ∨
    ∃ i p, c.params[i]? = some p ∧ p.isVariadic = true ∧ i + 1 < c.params.length

theorem mem_dropLast_iff {l : List α} {a : α} :
    a ∈ l.dropLast ↔ ∃ i, l[i]? = some a ∧ i + 1 < l.length := by
  simp only [List.mem_iff_getElem?, List.getElem?_dropLast]
  refine exists_congr fun i => ?_
  by_cases hi : i < l.length - 1
  · simp [hi]
    omega
  · simp [hi]
    omega

theorem isSome_paramFault? (owner : String) (params : List Param) :
    (paramFault? owner params).isSome = true ↔ 1 < params.countP (·.isVariadic) ∨
      ∃ p ∈ params.dropLast, p.isVariadic = true := by
  unfold paramFault?
  split
  · next h => simp [h]
  · next h => simp [h, List.find?_isSome]

theorem ne_unknownType_of_paramFault? {owner : String} {params : List Param} {e : ModelError}
    (h : paramFault? owner params = some e) (id : TypeId) : e ≠ .unknownType id := by
  unfold paramFault? at h
  split at h
  · cases h
    simp
  · obtain ⟨p, -, rfl⟩ := Option.map_eq_some_iff.mp h
    simp

theorem misplacesVariadic_iff (owner : String) (c : CtorDump) :
    c.MisplacesVariadic ↔ (paramFault? owner (c.params.map (·.toParam))).isSome = true := by
  have hvariadic : ∀ p : ParamDump, p.toParam.isVariadic = p.isVariadic := fun _ => rfl
  rw [isSome_paramFault?, List.countP_map, ← List.map_dropLast]
  simp only [CtorDump.MisplacesVariadic, Function.comp_def, hvariadic, List.mem_map,
    exists_exists_and_eq_and, mem_dropLast_iff]
  refine or_congr_right ?_
  constructor
  · rintro ⟨i, p, hp, hv, hi⟩
    exact ⟨p, ⟨i, hp, hi⟩, hv⟩
  · rintro ⟨p, ⟨i, hp, hi⟩, hv⟩
    exact ⟨i, p, hp, hv, hi⟩

namespace CompilationUnit

variable {u : CompilationUnit}

theorem isSome_ctorFault? (u : CompilationUnit) : u.ctorFault?.isSome = true ↔
    ∃ c ∈ u.outline.ctors, (paramFault? "" c.params).isSome = true := by
  simp [ctorFault?, isSome_paramFault?, outline, Ctor.bare]

theorem isSome_baseFault? (u : CompilationUnit) : u.baseFault?.isSome = true ↔
    ∃ (i : Nat) (t : TypeDecl), u.outline.types[i]? = some t ∧ t.base = .declared (.ofIndex i) := by
  simp only [baseFault?, namedTypes, Option.isSome_map, List.find?_isSome, outline,
    List.getElem?_map, Option.map_eq_some_iff]
  constructor
  · rintro ⟨⟨id, t⟩, hmem, hbase⟩
    obtain ⟨⟨t, i⟩, hentry, ⟨⟩⟩ := List.mem_map.mp hmem
    exact ⟨i, t.bare, ⟨t, List.mem_zipIdx_iff_getElem?.mp hentry, rfl⟩, beq_iff_eq.mp hbase⟩
  · rintro ⟨i, _, ⟨t, ht, rfl⟩, hbase⟩
    exact ⟨(.ofIndex i, t), List.mem_map.mpr ⟨(t, i), List.mem_zipIdx_iff_getElem?.mpr ht, rfl⟩,
      beq_iff_eq.mpr hbase⟩

theorem ne_unknownType_of_ctorFault? {e : ModelError} (h : u.ctorFault? = some e) (id : TypeId) :
    e ≠ .unknownType id := by
  obtain ⟨c, -, hc⟩ := List.exists_of_findSome?_eq_some h
  exact ne_unknownType_of_paramFault? hc id

end CompilationUnit

namespace UnitDump

variable {d : UnitDump} {p q : Place}

def MisplacesVariadic (d : UnitDump) : Prop :=
  ∃ t ∈ d.allTypes, ∃ c ∈ t.constructors, c.MisplacesVariadic

/-- Some type names a base other than the root class, and is itself the first
type of that name. -/
def NamesSelf (d : UnitDump) : Prop :=
  ∃ p ∈ d.places, ∃ name, p.type.base = some name ∧ name ∉ rootNames ∧ d.find? name = some p

theorem isSome_ctorFault? (h : d.Addressable) :
    d.drafted.unit.ctorFault?.isSome = true ↔ d.MisplacesVariadic := by
  have hparams : ∀ (c : CtorDump) (owner : TypeId),
      (c.toSpec.bare owner).params = c.params.map (·.toParam) := fun _ _ => rfl
  rw [CompilationUnit.isSome_ctorFault?, outline_drafted h, outline]
  simp only [MisplacesVariadic, ← map_type_places, List.mem_flatMap, List.mem_map, Place.ctors,
    misplacesVariadic_iff ""]
  constructor
  · rintro ⟨_, ⟨p, hp, c, hc, rfl⟩, hfault⟩
    exact ⟨p.type, ⟨p, hp, rfl⟩, c, hc, hparams c p.id ▸ hfault⟩
  · rintro ⟨_, ⟨p, hp, rfl⟩, c, hc, hfault⟩
    exact ⟨_, ⟨p, hp, c, hc, rfl⟩, hparams c p.id ▸ hfault⟩

theorem base_declOf_eq_declared_iff (h : d.Addressable) (p : Place) (hq : q ∈ d.places) :
    (d.declOf p).base = .declared q.id ↔
      ∃ name, p.type.base = some name ∧ name ∉ rootNames ∧ d.find? name = some q := by
  have hbase : (d.declOf p).base = p.type.base.elim .noBase (bindBase d.allTypes) := rfl
  have hfind : ∀ name, declared? d.allTypes name = some q.id ↔ d.find? name = some q := by
    intro name
    rw [Lowered.declared?_eq, Option.map_eq_some_iff]
    constructor
    · rintro ⟨q', hq', hid⟩
      rwa [← eq_of_id_eq h (Lowered.mem_of_find? hq') hq hid]
    · intro hq
      exact ⟨q, hq, rfl⟩
  rw [hbase]
  cases p.type.base with
  | none => simp
  | some name => simp [bindBase_eq_declared_iff, hfind]

theorem isSome_baseFault? (h : d.Addressable) :
    d.drafted.unit.baseFault?.isSome = true ↔ d.NamesSelf := by
  rw [CompilationUnit.isSome_baseFault?, outline_drafted h, outline]
  constructor
  · rintro ⟨i, t, ht, hbase⟩
    rw [List.getElem?_map] at ht
    obtain ⟨p, hi, rfl⟩ := Option.map_eq_some_iff.mp ht
    have hp := List.mem_of_getElem? hi
    rw [← Lowered.number_of_getElem? hi] at hbase
    exact ⟨p, hp, (base_declOf_eq_declared_iff h p hp).mp hbase⟩
  · rintro ⟨p, hp, hself⟩
    refine ⟨p.number, d.declOf p, ?_, (base_declOf_eq_declared_iff h p hp).mpr hself⟩
    simp [Lowered.getElem?_places hp]

/-- A dump cannot be lowered for one of two reasons. -/
theorem exists_lower_iff (h : d.Addressable) :
    (∃ u, d.lower = .ok u) ↔ ¬ d.MisplacesVariadic ∧ ¬ d.NamesSelf := by
  have hlower : ∀ u, d.lower = .ok u ↔ _ := fun u => Draft.finish_eq_ok (d := d.drafted) (u := u)
  simp only [hlower, faults_drafted h, ← isSome_ctorFault? h, ← isSome_baseFault? h]
  simp

theorem lower_ne_unknownType (h : d.Addressable) (id : TypeId) :
    d.lower ≠ .error (.unknownType id) := by
  intro hlower
  have hfinish : d.drafted.finish = .error (.unknownType id) := hlower
  unfold Draft.finish at hfinish
  rw [faults_drafted h] at hfinish
  cases hctor : d.drafted.unit.ctorFault? with
  | some e =>
    simp [hctor] at hfinish
    exact ne_unknownType_of_ctorFault? hctor id hfinish
  | none =>
    simp [hctor, baseFault?] at hfinish
    split at hfinish
    · next e he =>
      obtain ⟨_, -, rfl⟩ := Option.map_eq_some_iff.mp he
      cases hfinish
    · cases hfinish

end UnitDump

end CtorArity
