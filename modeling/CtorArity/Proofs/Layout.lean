import CtorArity.Proofs.Subtrees

/-!
# The spans of two types

Lowering declares all types first. Each creation is added later, at the cursor, and
extends the types around it. So the span of a type with a creation in it reaches
over all types that come later, whether or not they are inside it, and the others
end where their subtree ends. `lower_spans` says how this leaves the spans of any
two types. Where the cursor reaches the last offset, spans may be empty and the
order is lost.
-/

namespace CtorArity

open TypeDump CompilationUnit

-- ---------------------------------------------------------------------------
-- Handles of the types inside a type
-- ---------------------------------------------------------------------------

namespace Lowered

variable {d : UnitDump} {u : CompilationUnit} {p q y : Place} {owner : TypeId}

theorem around_id_iff (h : Lowered d u) (hp : p ∈ d.places) (hy : y ∈ d.places) :
    u.Around p.id y.id ↔ y.within p = true := by
  constructor
  · intro haround
    generalize hid : y.id = id at haround
    induction haround generalizing y with
    | self =>
      rw [within_eq, (h.id_eq_iff hy hp).mp hid]
      exact List.mem_cons_self
    | @parent id t ht haround ih =>
      subst hid
      obtain ⟨t', ht', hbare⟩ := h.type?_id hy
      obtain rfl := Option.some.inj (ht'.symm.trans ht)
      have hparent : t'.parent = y.parent := congrArg TypeDecl.parent hbare
      rcases around_placesAll hy with htop | ⟨r, hr, hinside, -⟩
      · have htop : t'.parent = .absent := by rw [hparent, Place.parent, htop]; rfl
        exact absurd (htop ▸ haround) (not_around_absent (h.isAbsent_id hp))
      · have hr' : r.id = t'.parent := by rw [hparent, Place.parent, hinside]; rfl
        rw [within_eq, hinside]
        exact List.mem_cons_of_mem _ ((within_eq r p).mp (ih hr hr'))
  · intro hwithin
    rw [← h.nestedWithin_id hp hy, nestedWithin, Bool.and_eq_true] at hwithin
    exact around_of_mem_ancestorsWithin (List.contains_iff_mem.mp hwithin.2)

theorem not_around_of_notBefore (h : Lowered d u) (hp : p ∈ d.places) (hq : q ∈ d.places)
    (hlt : p.number < q.number) (hout : q.within p = false)
    (howner : NotBefore q (countAll d.types) owner) : ¬ u.Around p.id owner := by
  intro haround
  obtain ⟨k, rfl, hk⟩ := howner
  have hklt : k < countAll d.types := by
    have hqlt := (number_placesAll hq).2
    rcases hk with hk | hk
    · have hkq := lt_of_mem_around hq k hk
      omega
    · exact hk.2
  obtain ⟨y, hy, rfl⟩ : ∃ y ∈ d.places, y.number = k := by
    have hmem : k ∈ d.places.map (·.number) := by
      rw [UnitDump.places, map_number_placesAll, List.mem_range'_1]
      omega
    exact List.mem_map.mp hmem
  have hwithin := (h.around_id_iff hp hy).mp haround
  -- The owner is around `q`, or comes later and still is inside `p`, with `q` between them.
  have hinside : q.within p = true := by
    rcases hk with hk | hk
    · have hqy : q.within y = true := (within_eq q y).mpr (List.mem_cons_of_mem _ hk)
      exact UnitDump.within_trans hp hy hq hqy hwithin
    · have hrange := (UnitDump.within_iff_range hp hy).mp hwithin
      exact (UnitDump.within_iff_range hp hq).mpr ⟨Nat.le_of_lt hlt, by omega⟩
  rw [hout] at hinside
  cases hinside

end Lowered

-- ---------------------------------------------------------------------------
-- Types with creations in them
-- ---------------------------------------------------------------------------

/-- No offset is in both spans. -/
def Span.Apart (s t : Span) : Prop := s.stop ≤ t.start ∨ t.stop ≤ s.start

/-- A creation stands in the type or in one inside it. -/
def TypeDump.holdsCreation (t : TypeDump) : Bool :=
  (preorder t).any (!·.creations.isEmpty)

namespace UnitDump

variable {d : UnitDump} {p y : Place} {entry : TypeId × CreationDump}

theorem mem_ownedCreations : entry ∈ d.ownedCreations ↔
    (∃ y ∈ d.places, entry.1 = y.id ∧ entry.2 ∈ y.type.creations) ∨
      entry.1 = .absent ∧ entry.2 ∈ d.creations := by
  obtain ⟨owner, c⟩ := entry
  have hplaces : ∀ y, y ∈ innerFirstAll 0 [] d.types ↔ y ∈ d.places := fun y =>
    (innerFirstAll_perm 0 [] d.types).mem_iff
  simp [ownedCreations, ownedCreationsAll_eq 0 [], hplaces, eq_comm, and_comm]

theorem mem_preorder_of_within (hp : p ∈ d.places) (hy : y ∈ d.places)
    (hwithin : y.within p = true) : y.type ∈ preorder p.type := by
  have hmem := type_mem_preorderAll (mem_below_of_within (by simp) hp hy hwithin)
  rwa [preorderAll, preorderAll, List.append_nil] at hmem

theorem exists_within_of_mem_preorder (hp : p ∈ d.places) {t : TypeDump}
    (ht : t ∈ preorder p.type) : ∃ y ∈ d.places, y.within p = true ∧ y.type = t := by
  have hmap := map_type_placesAll p.number p.around [p.type]
  rw [preorderAll, preorderAll, List.append_nil] at hmap
  rw [← hmap] at ht
  obtain ⟨y, hy, rfl⟩ := List.mem_map.mp ht
  exact ⟨y, below_subset hp hy, within_of_mem_below hy, rfl⟩

theorem holdsCreation_iff (hp : p ∈ d.places) : p.type.holdsCreation = true ↔
    ∃ y ∈ d.places, y.within p = true ∧ ∃ c, c ∈ y.type.creations := by
  simp only [holdsCreation, List.any_eq_true, Bool.not_eq_true',
    List.isEmpty_eq_false_iff_exists_mem]
  constructor
  · rintro ⟨t, ht, c, hc⟩
    obtain ⟨y, hy, hwithin, rfl⟩ := exists_within_of_mem_preorder hp ht
    exact ⟨y, hy, hwithin, c, hc⟩
  · rintro ⟨y, hy, hwithin, hc⟩
    exact ⟨y.type, mem_preorder_of_within hp hy hwithin, hc⟩

end UnitDump

namespace Lowered

variable {d : UnitDump} {u : CompilationUnit} {p : Place}

theorem not_around_of_holdsCreation (h : Lowered d u) (hp : p ∈ d.places)
    (hnone : p.type.holdsCreation = false) :
    ∀ step ∈ d.bindingSteps, ∀ owner ∈ step.owner?, ¬ u.Around p.id owner := by
  refine List.forall_mem_append.mpr ⟨?_, ?_⟩
  · intro step hstep owner howner
    obtain ⟨⟨t, i⟩, -, hbase⟩ := List.mem_filterMap.mp hstep
    obtain ⟨name, -, rfl⟩ := Option.map_eq_some_iff.mp hbase
    cases howner
  · intro step hstep owner howner haround
    obtain ⟨entry, hentry, rfl⟩ := List.mem_map.mp hstep
    obtain ⟨hpresent, rfl⟩ : entry.1.isAbsent = false ∧ entry.1 = owner := by
      simpa [creationStep, Step.owner?, Handle.present?] using howner
    rcases UnitDump.mem_ownedCreations.mp hentry with ⟨y, hy, hid, hc⟩ | ⟨habsent, -⟩
    · rw [hid] at haround
      have hwithin := (h.around_id_iff hp hy).mp haround
      have hholds := (UnitDump.holdsCreation_iff hp).mpr ⟨y, hy, hwithin, _, hc⟩
      rw [hnone] at hholds
      cases hholds
    · rw [habsent] at hpresent
      cases hpresent

end Lowered

-- ---------------------------------------------------------------------------
-- Spans where the steps are cut
-- ---------------------------------------------------------------------------

theorem Outline.length_types_run (steps : List Step) (o : Outline) :
    (steps.foldl Outline.apply o).types.length = o.types.length + steps.countP (·.declares) := by
  induction steps generalizing o with
  | nil => rfl
  | cons step rest ih =>
    have hstep : (o.apply step).types.length = o.types.length + if step.declares then 1 else 0 := by
      cases step <;> simp [Outline.apply, Step.declares]
    rw [List.foldl_cons, ih, hstep, List.countP_cons]
    omega

theorem Draft.outline_run_left {d : Draft} {first second : List Step}
    (h : (d.run (first ++ second)).faults = d.faults) :
    (d.run first).unit.outline = first.foldl Outline.apply d.unit.outline := by
  rw [run_append] at h
  have hfirst := faults_prefix_run d first
  have hsecond := faults_prefix_run (d.run first) second
  rw [h] at hsecond
  exact outline_run (hsecond.eq_of_length (Nat.le_antisymm hsecond.length_le hfirst.length_le))

theorem CompilationUnit.LaidOut.encloses_of_around {u : CompilationUnit} {outer id : TypeId}
    {s t : TypeDecl} (h : u.LaidOut) (haround : u.Around outer id) (hs : u.type? outer = some s)
    (ht : u.type? id = some t) : s.span.encloses t.span = true := by
  cases haround with
  | self =>
    obtain rfl := Option.some.inj (hs.symm.trans ht)
    exact Span.encloses_iff.mpr ⟨UInt32.le_refl _, UInt32.le_refl _⟩
  | parent hid houter =>
    obtain rfl := Option.some.inj (hid.symm.trans ht)
    exact (h.inPlace.types _ (Array.mem_of_getElem? (getElem?_of_type? ht))).held outer s houter hs

/-- The dump lowers to the unit before the cursor reaches the last offset. -/
structure UnitDump.Fits (d : UnitDump) (u : CompilationUnit) : Prop where
  lower : d.lower = .ok u
  cursor : d.drafted.cursor ≠ 0xFFFFFFFF

namespace UnitDump.Fits

variable {d : UnitDump} {u : CompilationUnit} {p q y : Place} {s t : TypeDecl} {id : TypeId}
  {first second : List Step} {c : Creation}

theorem unit_drafted (h : d.Fits u) : d.drafted.unit = u :=
  (Draft.finish_eq_ok.mp h.lower).2.2.2

theorem lowered (h : d.Fits u) : Lowered d u := by
  refine d.lowered h.lower ?_
  rw [← h.unit_drafted]
  exact (Draft.roomy_run (Draft.roomy_start d.file) d.steps).addressable h.cursor

theorem laidOut (h : d.Fits u) : u.LaidOut :=
  h.unit_drafted ▸ Draft.laidOut_after d.file d.steps

theorem type_start_lt_stop (h : d.Fits u) (ht : u.type? id = some t) :
    t.span.start < t.span.stop := by
  rw [← h.unit_drafted] at ht
  exact (Draft.typesBehind_run (Draft.typesBehind_start d.file) d.steps _ _ ht).2 h.cursor

theorem creation_start_lt_stop (h : d.Fits u) (hc : c ∈ u.creations) :
    c.span.start < c.span.stop := by
  rw [← h.unit_drafted] at hc
  exact Draft.creationsTakeRoom_run (Draft.creationsTakeRoom_start d.file) d.steps h.cursor c hc

theorem run_draftAt (hsteps : d.steps = first ++ second) :
    (d.draftAt first).run second = d.drafted := by
  rw [drafted, hsteps, Draft.run_append, draftAt]

theorem outline_draftAt (h : d.Fits u) (hsteps : d.steps = first ++ second) :
    (d.draftAt first).unit.outline =
      first.foldl Outline.apply (Draft.start d.file).unit.outline := by
  have hfaults := (Draft.finish_eq_ok.mp h.lower).1
  rw [hsteps] at hfaults
  exact Draft.outline_run_left hfaults

theorem start_draftAt (h : d.Fits u) (hsteps : d.steps = first ++ second) (hq : q ∈ d.places)
    (ht : u.type? q.id = some t) :
    (q.number < (d.draftAt first).unit.outline.types.length →
        t.span.start < (d.draftAt first).cursor) ∧
      ((d.draftAt first).unit.outline.types.length ≤ q.number →
        (d.draftAt first).cursor ≤ t.span.start) := by
  obtain ⟨later, hlater, hle⟩ := Draft.typeStarts_run (d.draftAt first) second
  have hcursor : (d.draftAt first).cursor ≠ 0xFFFFFFFF := by
    refine ne_last_of_le (Draft.cursor_le_run _ second) ?_
    rw [run_draftAt hsteps]
    exact h.cursor
  have hget : d.drafted.typeStarts[q.number]? = some t.span.start := by
    have hget := getElem?_of_type? ht
    rw [h.lowered.index_id hq] at hget
    rw [Draft.typeStarts, h.unit_drafted, Array.getElem?_map, hget]
    rfl
  have hsize : (d.draftAt first).typeStarts.size =
      (d.draftAt first).unit.outline.types.length := by
    rw [length_outline_types, Draft.typeStarts, Array.size_map]
  rw [← run_draftAt hsteps, hlater] at hget
  rw [← hsize]
  constructor
  · intro hlt
    rw [Array.getElem?_append_left hlt] at hget
    exact Draft.startsBehind_run (Draft.startsBehind_start d.file) first hcursor _
      (Array.mem_of_getElem? hget)
  · intro hge
    rw [Array.getElem?_append_right hge] at hget
    exact hle _ (Array.mem_of_getElem? hget)

theorem stop_draftAt (h : d.Fits u) (hsteps : d.steps = first ++ second) (hp : p ∈ d.places)
    (hknown : p.number < (d.draftAt first).unit.outline.types.length)
    (hout : ∀ step ∈ second, ∀ owner ∈ step.owner?, ¬ u.Around p.id owner)
    (ht : u.type? p.id = some t) : t.span.stop ≤ (d.draftAt first).cursor := by
  have hid : (d.draftAt first).knows p.id = true := by
    rw [← Draft.names_iff_knows]
    exact ⟨h.lowered.isAbsent_id hp, by rwa [h.lowered.index_id hp]⟩
  rw [← h.unit_drafted, ← run_draftAt hsteps] at hout ht
  obtain ⟨old, hold, hspan⟩ := Draft.span_run hid hout ht
  rw [hspan]
  exact (Draft.typesBehind_run (Draft.typesBehind_start d.file) first _ _ hold).1

theorem le_start_creation (h : d.Fits u) (hsteps : d.steps = first ++ second)
    (hc : c ∈ u.creations.toList.drop (d.draftAt first).unit.outline.creations.length) :
    (d.draftAt first).cursor ≤ c.span.start := by
  obtain ⟨later, hlater, hle⟩ := Draft.creationStarts_run (d.draftAt first) second
  have hsize : (d.draftAt first).unit.outline.creations.length =
      (d.draftAt first).creationStarts.toList.length := by
    rw [length_outline_creations, Draft.creationStarts, Array.length_toList, Array.size_map]
  rw [run_draftAt hsteps, Draft.creationStarts, h.unit_drafted] at hlater
  have hlist := congrArg Array.toList hlater
  rw [Array.toList_map, Array.toList_append] at hlist
  have hmem := List.mem_map_of_mem (f := fun c : Creation => c.span.start) hc
  rw [List.map_drop, hlist, hsize, List.drop_left] at hmem
  exact hle _ (Array.mem_toList_iff.mp hmem)

-- ---------------------------------------------------------------------------
-- The cut where a type is declared
-- ---------------------------------------------------------------------------

theorem exists_cut (h : d.Fits u) (hq : q ∈ d.places) :
    ∃ first second, d.steps = first ++ second ∧
      (d.draftAt first).unit.outline.types.length = q.number ∧
      ∀ step ∈ second, step ∈ d.bindingSteps ∨
        ∀ owner ∈ step.owner?, NotBefore q (countAll d.types) owner := by
  obtain ⟨before, after, hsplit, hcount, hafter⟩ := split_declareStepsAll hq
  rw [Nat.zero_add] at hcount hafter
  let first := (d.scope.map fun scope => Step.withScope ⟨scope⟩).toList ++ before
  have hsteps : d.steps = first ++ (after ++ d.bindingSteps) := by
    have hsplit : declareStepsAll 0 .absent d.types = before ++ after := hsplit
    simp only [first, steps_eq, declaringSteps, hsplit, List.append_assoc]
  refine ⟨first, _, hsteps, ?_, fun step hstep => ?_⟩
  · rw [h.outline_draftAt hsteps, Outline.length_types_run, List.countP_append, hcount]
    cases d.scope <;> simp [Draft.start, CompilationUnit.outline, Step.declares]
  · exact (List.mem_append.mp hstep).symm.imp_right (hafter step)

theorem start_lt_start (h : d.Fits u) (hp : p ∈ d.places) (hq : q ∈ d.places)
    (hlt : p.number < q.number) (hs : u.type? p.id = some s) (ht : u.type? q.id = some t) :
    s.span.start < t.span.start := by
  obtain ⟨first, second, hsteps, hlength, -⟩ := h.exists_cut hq
  refine UInt32.lt_of_lt_of_le ((h.start_draftAt hsteps hp hs).1 (hlength ▸ hlt)) ?_
  exact (h.start_draftAt hsteps hq ht).2 (Nat.le_of_eq hlength)

/-- A type in which no creation stands ends before the types that come later and are
not inside it. -/
theorem stop_le_start (h : d.Fits u) (hp : p ∈ d.places) (hq : q ∈ d.places)
    (hlt : p.number < q.number) (hout : q.within p = false)
    (hnone : p.type.holdsCreation = false) (hs : u.type? p.id = some s)
    (ht : u.type? q.id = some t) : s.span.stop ≤ t.span.start := by
  obtain ⟨first, second, hsteps, hlength, hsecond⟩ := h.exists_cut hq
  have hnotAround : ∀ step ∈ second, ∀ owner ∈ step.owner?, ¬ u.Around p.id owner := by
    intro step hstep owner howner
    rcases hsecond step hstep with hbinding | hnotBefore
    · exact h.lowered.not_around_of_holdsCreation hp hnone step hbinding owner howner
    · exact h.lowered.not_around_of_notBefore hp hq hlt hout (hnotBefore owner howner)
  refine UInt32.le_trans (h.stop_draftAt hsteps hp (hlength ▸ hlt) hnotAround hs) ?_
  exact (h.start_draftAt hsteps hq ht).2 (Nat.le_of_eq hlength)

-- ---------------------------------------------------------------------------
-- The cut where all types are declared
-- ---------------------------------------------------------------------------

theorem number_lt_typed (h : d.Fits u) (hp : p ∈ d.places) :
    p.number < d.typed.unit.outline.types.length := by
  have houtline := h.outline_draftAt d.steps_eq
  rw [foldl_declaringSteps] at houtline
  have hlt := (number_placesAll hp).2
  rw [typed, houtline, declared, List.length_map, length_places]
  omega

theorem start_lt_typed (h : d.Fits u) (hp : p ∈ d.places) (ht : u.type? p.id = some t) :
    t.span.start < d.typed.cursor :=
  (h.start_draftAt d.steps_eq hp ht).1 (h.number_lt_typed hp)

theorem stop_le_typed (h : d.Fits u) (hp : p ∈ d.places) (hnone : p.type.holdsCreation = false)
    (ht : u.type? p.id = some t) : t.span.stop ≤ d.typed.cursor :=
  h.stop_draftAt d.steps_eq hp (h.number_lt_typed hp)
    (h.lowered.not_around_of_holdsCreation hp hnone) ht

theorem exists_creation (h : d.Fits u) {before after : List (TypeId × CreationDump)}
    (hsplit : d.ownedCreations = before ++ after) {entry : TypeId × CreationDump}
    (hentry : entry ∈ after) :
    ∃ c ∈ u.creations.toList.drop before.length, c.enclosing = entry.1 := by
  have hcreations : u.creations.toList.map (·.bare) =
      d.ownedCreations.map fun entry => d.creationOf entry.1 entry.2 :=
    congrArg Outline.creations h.lowered.outline
  have hdrop := congrArg (List.drop before.length) hcreations
  rw [hsplit, ← List.map_drop, ← List.map_drop, List.drop_left] at hdrop
  have hmem := List.mem_map_of_mem (f := fun e => d.creationOf e.1 e.2) hentry
  rw [← hdrop] at hmem
  obtain ⟨c, hc, hbare⟩ := List.mem_map.mp hmem
  exact ⟨c, hc, congrArg Creation.enclosing hbare⟩

theorem creation_stop_le (h : d.Fits u) (hp : p ∈ d.places) (hy : y ∈ d.places)
    (hwithin : y.within p = true) (hc : c ∈ u.creations) (hid : c.enclosing = y.id)
    (ht : u.type? p.id = some t) : c.span.stop ≤ t.span.stop := by
  have haround := (h.lowered.around_id_iff hp hy).mpr hwithin
  have hheld := (h.laidOut.inPlace.creations c hc).held p.id t (hid ▸ haround) ht
  exact (Span.encloses_iff.mp hheld).2

/-- A type in which a creation stands ends behind all types. -/
theorem typed_le_stop (h : d.Fits u) (hp : p ∈ d.places) (hholds : p.type.holdsCreation = true)
    (ht : u.type? p.id = some t) : d.typed.cursor ≤ t.span.stop := by
  obtain ⟨y, hy, hwithin, c, hc⟩ := (holdsCreation_iff hp).mp hholds
  have hentry : (y.id, c) ∈ d.ownedCreations := mem_ownedCreations.mpr (.inl ⟨y, hy, rfl, hc⟩)
  obtain ⟨c, hc, hid⟩ := h.exists_creation (List.nil_append _).symm hentry
  have hc : c ∈ u.creations := Array.mem_toList_iff.mp hc
  calc d.typed.cursor ≤ c.span.start := cursor_typed_le h.lower c hc
    _ ≤ c.span.stop := UInt32.le_of_lt (h.creation_start_lt_stop hc)
    _ ≤ t.span.stop := h.creation_stop_le hp hy hwithin hc hid ht

-- ---------------------------------------------------------------------------
-- The cut where the creations of a subtree begin
-- ---------------------------------------------------------------------------

theorem exists_creations_cut (h : d.Fits u) (hq : q ∈ d.places) :
    ∃ first second before after, d.steps = first ++ second ∧
      (d.draftAt first).unit.outline.types.length = countAll d.types ∧
      (d.draftAt first).unit.outline.creations.length = before.length ∧
      d.ownedCreations = before ++ after ∧
      (∀ entry ∈ before, ∃ k, entry.1 = Handle.ofIndex k ∧ k < q.number) ∧
      ∀ step ∈ second, ∀ owner ∈ step.owner?, NotBefore q (countAll d.types) owner := by
  obtain ⟨before, after, hsplit, hbefore, hafter⟩ := split_ownedCreationsAll hq
  rw [Nat.zero_add] at hafter
  let step (entry : TypeId × CreationDump) := creationStep d.allTypes entry.1 entry.2
  let rest := after ++ d.creations.map (Handle.absent, ·)
  have howned : d.ownedCreations = before ++ rest := by
    simp only [rest, ownedCreations, hsplit, List.append_assoc]
  let first := d.declaringSteps ++ (baseSteps d.allTypes ++ before.map step)
  have hsteps : d.steps = first ++ rest.map step := by
    simp only [first, step, steps_eq, bindingSteps, howned, List.map_append, List.append_assoc]
  have hsize : countAll d.types ≤ 0xFFFFFFFF := by
    rw [h.lowered.countAll_types]
    exact Nat.le_of_lt h.lowered.addressable.types
  have houtline := h.outline_draftAt hsteps
  rw [List.foldl_append, foldl_declaringSteps, List.foldl_append, foldl_baseSteps_declared hsize,
    foldl_create] at houtline
  refine ⟨first, _, before, rest, hsteps, ?_, ?_, howned, hbefore, ?_⟩
  · rw [houtline, List.length_map, length_places]
  · rw [houtline]
    simp [declared]
  · intro s hs owner howner
    obtain ⟨entry, hentry, rfl⟩ := List.mem_map.mp hs
    obtain ⟨hpresent, rfl⟩ : entry.1.isAbsent = false ∧ entry.1 = owner := by
      simpa [step, creationStep, Step.owner?, Handle.present?] using howner
    rcases List.mem_append.mp hentry with hentry | hentry
    · exact hafter entry hentry
    · obtain ⟨c, -, rfl⟩ := List.mem_map.mp hentry
      cases hpresent

/-- A type ends before a later one in which a creation stands, unless that one is
inside it. -/
theorem stop_lt_stop (h : d.Fits u) (hp : p ∈ d.places) (hq : q ∈ d.places)
    (hlt : p.number < q.number) (hout : q.within p = false)
    (hholds : q.type.holdsCreation = true) (hs : u.type? p.id = some s)
    (ht : u.type? q.id = some t) : s.span.stop < t.span.stop := by
  obtain ⟨first, second, before, after, hsteps, htypes, hcreations, howned, hbefore, hsecond⟩ :=
    h.exists_creations_cut hq
  obtain ⟨y, hy, hwithin, c, hc⟩ := (holdsCreation_iff hq).mp hholds
  have hentry : (y.id, c) ∈ d.ownedCreations := mem_ownedCreations.mpr (.inl ⟨y, hy, rfl, hc⟩)
  -- Before the cut there are only creations of types that come before `q`.
  have hentry : (y.id, c) ∈ after := by
    rw [howned] at hentry
    refine (List.mem_append.mp hentry).resolve_left fun hmem => ?_
    obtain ⟨k, hk, hkq⟩ := hbefore _ hmem
    have hqy := ((within_iff_range hq hy).mp hwithin).1
    have hysize := h.lowered.number_lt hy
    have hky := (Handle.ofIndex_inj (Nat.le_of_lt hysize) (by omega)).mp hk
    omega
  obtain ⟨c, hlater, hid⟩ := h.exists_creation howned hentry
  have hc : c ∈ u.creations := Array.mem_toList_iff.mp (List.mem_of_mem_drop hlater)
  have hknown : p.number < (d.draftAt first).unit.outline.types.length := by
    have hnumber := (number_placesAll hp).2
    omega
  have hnotAround : ∀ step ∈ second, ∀ owner ∈ step.owner?, ¬ u.Around p.id owner :=
    fun step hstep owner howner =>
      h.lowered.not_around_of_notBefore hp hq hlt hout (hsecond step hstep owner howner)
  have hbehind : s.span.stop ≤ c.span.start := by
    calc s.span.stop ≤ (d.draftAt first).cursor := h.stop_draftAt hsteps hp hknown hnotAround hs
      _ ≤ c.span.start := h.le_start_creation hsteps (hcreations ▸ hlater)
  have hinside : c.span.start < t.span.stop :=
    UInt32.lt_of_lt_of_le (h.creation_start_lt_stop hc) (h.creation_stop_le hq hy hwithin hc hid ht)
  exact UInt32.lt_of_le_of_lt hbehind hinside

-- ---------------------------------------------------------------------------
-- Two types of a dump
-- ---------------------------------------------------------------------------

theorem encloses_of_within (h : d.Fits u) (hp : p ∈ d.places) (hq : q ∈ d.places)
    (hwithin : q.within p = true) (hs : u.type? p.id = some s) (ht : u.type? q.id = some t) :
    s.span.encloses t.span = true :=
  h.laidOut.encloses_of_around ((h.lowered.around_id_iff hp hq).mpr hwithin) hs ht

theorem encloses_iff (h : d.Fits u) (hp : p ∈ d.places) (hq : q ∈ d.places)
    (hlt : p.number < q.number) (hs : u.type? p.id = some s) (ht : u.type? q.id = some t) :
    s.span.encloses t.span = true ↔
      q.within p = true ∨ p.type.holdsCreation = true ∧ q.type.holdsCreation = false := by
  constructor
  · intro hencloses
    have hstop := (Span.encloses_iff.mp hencloses).2
    cases hout : q.within p with
    | true => exact .inl rfl
    | false =>
      refine .inr ⟨?_, ?_⟩
      · by_contra hnone
        have hle := h.stop_le_start hp hq hlt hout (Bool.eq_false_iff.mpr hnone) hs ht
        exact UInt32.lt_irrefl _
          (UInt32.lt_of_lt_of_le (h.type_start_lt_stop ht) (UInt32.le_trans hstop hle))
      · by_contra hholds
        have hstops := h.stop_lt_stop hp hq hlt hout (Bool.not_eq_false _ ▸ hholds) hs ht
        exact UInt32.lt_irrefl _ (UInt32.lt_of_lt_of_le hstops hstop)
  · rintro (hwithin | ⟨hholds, hnone⟩)
    · exact h.encloses_of_within hp hq hwithin hs ht
    · refine Span.encloses_iff.mpr ⟨UInt32.le_of_lt (h.start_lt_start hp hq hlt hs ht), ?_⟩
      exact UInt32.le_trans (h.stop_le_typed hq hnone ht) (h.typed_le_stop hp hholds hs)

theorem apart_iff (h : d.Fits u) (hp : p ∈ d.places) (hq : q ∈ d.places)
    (hlt : p.number < q.number) (hs : u.type? p.id = some s) (ht : u.type? q.id = some t) :
    s.span.Apart t.span ↔ q.within p = false ∧ p.type.holdsCreation = false := by
  have hroom := h.type_start_lt_stop ht
  constructor
  · intro hapart
    have hle : s.span.stop ≤ t.span.start := by
      refine hapart.resolve_right fun hle => ?_
      have hstart := h.start_lt_start hp hq hlt hs ht
      exact UInt32.lt_irrefl _ (UInt32.lt_of_lt_of_le (UInt32.lt_trans hstart hroom) hle)
    refine ⟨?_, ?_⟩
    · by_contra hwithin
      have hencloses := h.encloses_of_within hp hq (Bool.not_eq_false _ ▸ hwithin) hs ht
      have hstop := (Span.encloses_iff.mp hencloses).2
      exact UInt32.lt_irrefl _ (UInt32.lt_of_lt_of_le hroom (UInt32.le_trans hstop hle))
    · by_contra hholds
      have hstop := h.typed_le_stop hp (Bool.not_eq_false _ ▸ hholds) hs
      have hbefore := h.start_lt_typed hq ht
      exact UInt32.lt_irrefl _ (UInt32.lt_of_lt_of_le hbefore (UInt32.le_trans hstop hle))
  · exact fun ⟨hout, hnone⟩ => .inl (h.stop_le_start hp hq hlt hout hnone hs ht)

end UnitDump.Fits

namespace UnitDump

variable {d : UnitDump} {u : CompilationUnit} {p q : Place}

/-- The spans of two types of a lowered dump, given in document order. That of the
first holds that of the second if the second is inside the first, or if a creation
stands in the first and none in the second. They are apart if the second is not
inside the first and no creation stands in the first. The span of the second never
holds that of the first. -/
theorem lower_spans (h : d.lower = .ok u) (hcursor : d.drafted.cursor ≠ 0xFFFFFFFF)
    (hp : p ∈ d.places) (hq : q ∈ d.places) (hlt : p.number < q.number) :
    ∃ s t, u.type? p.id = some s ∧ u.type? q.id = some t ∧
      t.span.encloses s.span = false ∧
      (s.span.encloses t.span = true ↔ q.within p = true ∨
        p.type.holdsCreation = true ∧ q.type.holdsCreation = false) ∧
      (s.span.Apart t.span ↔ q.within p = false ∧ p.type.holdsCreation = false) := by
  have hfits : d.Fits u := ⟨h, hcursor⟩
  obtain ⟨s, hs, -⟩ := hfits.lowered.type?_id hp
  obtain ⟨t, ht, -⟩ := hfits.lowered.type?_id hq
  refine ⟨s, t, hs, ht, ?_, hfits.encloses_iff hp hq hlt hs ht,
    hfits.apart_iff hp hq hlt hs ht⟩
  rw [Bool.eq_false_iff, ne_eq, Span.encloses_iff]
  have hstart := hfits.start_lt_start hp hq hlt hs ht
  exact fun hencloses => UInt32.lt_irrefl _ (UInt32.lt_of_lt_of_le hstart hencloses.1)

/-- A class with a creation in a class inside it, and a class after it. -/
def overlapping : UnitDump where
  file := "a.cs"
  types := [
    { name := "A", nested := [{ name := "I", creations := [⟨"B", 0⟩] }] },
    { name := "B" }]

theorem lower_spans_overlapping : overlapping.lower = .ok overlapping.drafted.unit ∧
    overlapping.drafted.cursor ≠ 0xFFFFFFFF ∧
    ∃ p ∈ overlapping.places, ∃ q ∈ overlapping.places, p.number < q.number ∧
      ∃ s t, overlapping.drafted.unit.type? p.id = some s ∧
        overlapping.drafted.unit.type? q.id = some t ∧
        s.span.encloses t.span = true ∧ q.within p = false := by
  have hlower : overlapping.lower = .ok overlapping.drafted.unit := rfl
  have hcursor : overlapping.drafted.cursor ≠ 0xFFFFFFFF := by decide
  have hfirst : overlapping.places[0] ∈ overlapping.places := List.getElem_mem _
  have hlast : overlapping.places[2] ∈ overlapping.places := List.getElem_mem _
  obtain ⟨s, t, hs, ht, -, hencloses, -⟩ := lower_spans hlower hcursor hfirst hlast (by decide)
  exact ⟨hlower, hcursor, _, hfirst, _, hlast, by decide, s, t, hs, ht,
    hencloses.mpr (.inr ⟨by decide, by decide⟩), by decide⟩

/-- Two types need not have spans that are apart where neither is inside the other, and
the span of a type may hold that of a type that is not inside it. -/
theorem not_lower_spans :
    (¬ ∀ (d : UnitDump) (u : CompilationUnit), d.lower = .ok u →
      d.drafted.cursor ≠ 0xFFFFFFFF → ∀ p ∈ d.places, ∀ q ∈ d.places,
        p.within q = false → q.within p = false → ∀ s t, u.type? p.id = some s →
          u.type? q.id = some t → s.span.Apart t.span) ∧
    ¬ ∀ (d : UnitDump) (u : CompilationUnit), d.lower = .ok u →
      d.drafted.cursor ≠ 0xFFFFFFFF → ∀ p ∈ d.places, ∀ q ∈ d.places, ∀ s t,
        u.type? p.id = some s → u.type? q.id = some t →
          (s.span.encloses t.span = true ↔ q.within p = true) := by
  have hlower : overlapping.lower = .ok overlapping.drafted.unit := rfl
  have hcursor : overlapping.drafted.cursor ≠ 0xFFFFFFFF := by decide
  have hfirst : overlapping.places[0] ∈ overlapping.places := List.getElem_mem _
  have hlast : overlapping.places[2] ∈ overlapping.places := List.getElem_mem _
  constructor
  · intro hclaim
    have hapart := hclaim overlapping _ hlower hcursor _ hfirst _ hlast rfl rfl _ _ rfl rfl
    revert hapart
    unfold Span.Apart
    decide
  · intro hclaim
    have hinside := (hclaim overlapping _ hlower hcursor _ hfirst _ hlast _ _ rfl rfl).mp rfl
    revert hinside
    decide

end UnitDump

end CtorArity
