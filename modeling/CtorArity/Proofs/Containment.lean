import CtorArity.Proofs.Lowering
import CtorArity.Proofs.Walk

/-!
# Spans of declarations

Every step lays its declaration out behind the cursor and then extends the type
that owns it, and all types around that one, to the new cursor. So a type's span
holds the spans of all that it owns, whatever the order of the steps and also
where offsets have reached the last one (`inPlace_run`). `laidOut_after` says
what this means for types that stand inside others at any depth.
-/

namespace CtorArity

-- ---------------------------------------------------------------------------
-- The types around a type
-- ---------------------------------------------------------------------------

namespace CompilationUnit

variable {u : CompilationUnit} {id a : TypeId} {t : TypeDecl}

theorem mem_ancestorsWithin_succ {steps : Nat} :
    a ∈ u.ancestorsWithin (steps + 1) id ↔ id.isAbsent = false ∧
      (a = id ∨ ∃ t, u.type? id = some t ∧ a ∈ u.ancestorsWithin steps t.parent) := by
  cases hid : id.isAbsent
  · simp only [ancestorsWithin, hid, Bool.false_eq_true, if_false, List.mem_cons, true_and]
    cases u.type? id <;> simp
  · simp [ancestorsWithin, hid]

theorem self_mem_ancestorsAndSelf (u : CompilationUnit) (h : id.isAbsent = false) :
    id ∈ u.ancestorsAndSelf id :=
  mem_ancestorsWithin_succ.mpr ⟨h, .inl rfl⟩

theorem isAbsent_of_mem_ancestorsWithin {steps : Nat} (h : a ∈ u.ancestorsWithin steps id) :
    a.isAbsent = false := by
  induction steps generalizing id with
  | zero => cases h
  | succ steps ih =>
    rcases mem_ancestorsWithin_succ.mp h with ⟨hid, rfl | ⟨t, -, ha⟩⟩
    · exact hid
    · exact ih ha

theorem names_parent (h : u.outline.Closed) (ht : u.type? id = some t)
    (hp : t.parent.isAbsent = false) :
    u.outline.Names t.parent ∧ t.parent.index < id.index := by
  have hget : u.outline.types[id.index]? = some t.bare := by
    simp [outline, getElem?_of_type? ht]
  exact (h.parents id.index t.bare hget).resolve_left (Handle.ne_absent hp)

theorem parent_index_lt (h : u.outline.Closed) (ht : u.type? id = some t)
    (hp : t.parent.isAbsent = false) : t.parent.index < id.index :=
  (names_parent h ht hp).2

/-- A chain of parents does not end before its last type has no parent: along it
the places in the table go down, so the steps are not used up. -/
theorem parent_mem_ancestorsWithin (h : u.outline.Closed) {steps : Nat}
    (hsteps : id.index + 2 ≤ steps) (ha : a ∈ u.ancestorsWithin steps id)
    (ht : u.type? a = some t) (hp : t.parent.isAbsent = false) :
    t.parent ∈ u.ancestorsWithin steps id := by
  induction steps generalizing id with
  | zero => cases ha
  | succ steps ih =>
    rcases mem_ancestorsWithin_succ.mp ha with ⟨hid, rfl | ⟨s, hs, ha⟩⟩
    · obtain ⟨more, rfl⟩ : ∃ more, steps = more + 1 := ⟨steps - 1, by omega⟩
      have hself : t.parent ∈ u.ancestorsWithin (more + 1) t.parent :=
        mem_ancestorsWithin_succ.mpr ⟨hp, .inl rfl⟩
      exact mem_ancestorsWithin_succ.mpr ⟨hid, .inr ⟨t, ht, hself⟩⟩
    · have hsp : s.parent.isAbsent = false := by
        cases steps with
        | zero => cases ha
        | succ more => exact (mem_ancestorsWithin_succ.mp ha).1
      have hlt := parent_index_lt h hs hsp
      exact mem_ancestorsWithin_succ.mpr ⟨hid, .inr ⟨s, hs, ih (by omega) ha⟩⟩

theorem parent_mem_ancestorsAndSelf (h : u.outline.Closed) (hid : (u.type? id).isSome = true)
    (ha : a ∈ u.ancestorsAndSelf id) (ht : u.type? a = some t) (hp : t.parent.isAbsent = false) :
    t.parent ∈ u.ancestorsAndSelf id := by
  obtain ⟨s, hs⟩ := Option.isSome_iff_exists.mp hid
  have hlt := (Array.getElem?_eq_some_iff.mp (getElem?_of_type? hs)).1
  exact parent_mem_ancestorsWithin h (by omega) ha ht hp

end CompilationUnit

-- ---------------------------------------------------------------------------
-- What lies where
-- ---------------------------------------------------------------------------

/-- No span of the type is inverted, its name lies in it, and what is around it
holds it. -/
structure TypeDecl.InPlace (holds : TypeId → Span → Prop) (t : TypeDecl) : Prop where
  ordered : t.span.Ordered
  name_ordered : t.nameSpan.Ordered
  name : t.span.encloses t.nameSpan = true
  held : holds t.parent t.span

structure Ctor.InPlace (holds : TypeId → Span → Prop) (c : Ctor) : Prop where
  ordered : c.span.Ordered
  initializer : ∀ i ∈ c.initializer, i.span.Ordered ∧ c.span.encloses i.span = true
  held : holds c.owner c.span

structure Creation.InPlace (holds : TypeId → Span → Prop) (c : Creation) : Prop where
  ordered : c.span.Ordered
  held : holds c.enclosing c.span

namespace CompilationUnit

structure InPlace (u : CompilationUnit) (holds : TypeId → Span → Prop) : Prop where
  types : ∀ t ∈ u.types, t.InPlace holds
  ctors : ∀ c ∈ u.ctors, c.InPlace holds
  creations : ∀ c ∈ u.creations, c.InPlace holds

def Holds (u : CompilationUnit) (owner : TypeId) (s : Span) : Prop :=
  owner.isAbsent = true ∨ ∃ t, u.type? owner = some t ∧ t.span.encloses s = true

section

variable {u : CompilationUnit} {holds holds' : TypeId → Span → Prop}

theorem InPlace.imp (h : u.InPlace holds) (himp : ∀ owner s, holds owner s → holds' owner s) :
    u.InPlace holds' where
  types t ht := { h.types t ht with held := himp _ _ (h.types t ht).held }
  ctors c hc := { h.ctors c hc with held := himp _ _ (h.ctors c hc).held }
  creations c hc := { h.creations c hc with held := himp _ _ (h.creations c hc).held }

theorem InPlace.pushType {t : TypeDecl} (h : u.InPlace holds) (ht : t.InPlace holds) :
    { u with types := u.types.push t }.InPlace holds where
  types p hp := by
    rcases Array.mem_push.mp hp with hp | rfl
    · exact h.types p hp
    · exact ht
  ctors := h.ctors
  creations := h.creations

theorem InPlace.pushCtor {c : Ctor} (h : u.InPlace holds) (hc : c.InPlace holds) :
    { u with ctors := u.ctors.push c }.InPlace holds where
  types := h.types
  ctors p hp := by
    rcases Array.mem_push.mp hp with hp | rfl
    · exact h.ctors p hp
    · exact hc
  creations := h.creations

theorem InPlace.pushCreation {c : Creation} (h : u.InPlace holds) (hc : c.InPlace holds) :
    { u with creations := u.creations.push c }.InPlace holds where
  types := h.types
  ctors := h.ctors
  creations p hp := by
    rcases Array.mem_push.mp hp with hp | rfl
    · exact h.creations p hp
    · exact hc

end

end CompilationUnit

-- ---------------------------------------------------------------------------
-- Extending an owner and all around it
-- ---------------------------------------------------------------------------

namespace Draft

variable {d : Draft} {id owner : TypeId} {t : TypeDecl} {s : Span}

/-- The owner holds the span already, or will once `id` is extended. -/
def HoldsOnceClosed (d : Draft) (id owner : TypeId) (s : Span) : Prop :=
  owner.isAbsent = true ∨ ∃ t, d.unit.type? owner = some t ∧ t.span.start ≤ s.start ∧
    (s.stop ≤ t.span.stop ∨ owner = id ∧ s.stop ≤ d.cursor)

theorem reach_eq (offset : UInt32) (t : TypeDecl) :
    reach offset t = { t with span := t.span.extend offset } := rfl

theorem reach_reach (offset : UInt32) (t : TypeDecl) :
    reach offset (reach offset t) = reach offset t := by
  simp only [reach_eq, Span.extend_extend]

theorem getElem?_reachAll (offset : UInt32) (ids : List TypeId) (types : Array TypeDecl) (i : Nat) :
    (reachAll offset ids types)[i]? =
      (types[i]?).map fun t => if ∃ a ∈ ids, a.index = i then reach offset t else t := by
  unfold reachAll
  induction ids generalizing types with
  | nil => simp
  | cons id rest ih =>
    rw [List.foldl_cons, ih, Array.getElem?_modify]
    cases types[i]? with
    | none => simp
    | some t =>
      by_cases hi : id.index = i <;> by_cases hrest : ∃ a ∈ rest, a.index = i <;>
        simp [hi, hrest, reach_reach]

theorem type?_closeOwner (id owner : TypeId) (d : Draft) :
    (d.closeOwner id).unit.type? owner = (d.unit.type? owner).map fun t =>
      if owner ∈ d.unit.ancestorsAndSelf id then reach d.cursor t else t := by
  rw [closeOwner_eq]
  unfold CompilationUnit.type?
  cases owner.isAbsent
  · have hmem : (∃ a ∈ d.unit.ancestorsAndSelf id, a.index = owner.index) ↔
        owner ∈ d.unit.ancestorsAndSelf id := by
      constructor
      · rintro ⟨a, ha, hindex⟩
        rwa [← Handle.index_inj hindex]
      · intro howner
        exact ⟨owner, howner, rfl⟩
    simp [getElem?_reachAll, hmem]
  · rfl

theorem holds_closeOwner (h : d.HoldsOnceClosed id owner s) :
    (d.closeOwner id).unit.Holds owner s := by
  rcases h with habsent | ⟨t, ht, hstart, hstop⟩
  · exact .inl habsent
  · refine .inr ⟨_, (type?_closeOwner id owner d).trans (congrArg _ ht), ?_⟩
    split
    · have hextend := Span.le_stop_extend d.cursor t.span
      refine Span.encloses_iff.mpr ⟨hstart, ?_⟩
      rcases hstop with hstop | ⟨-, hstop⟩
      · exact UInt32.le_trans hstop hextend.1
      · exact UInt32.le_trans hstop hextend.2
    · next hout =>
      rcases hstop with hstop | ⟨rfl, -⟩
      · exact Span.encloses_iff.mpr ⟨hstart, hstop⟩
      · have hpresent := CompilationUnit.isAbsent_of_type? ht
        exact absurd (d.unit.self_mem_ancestorsAndSelf hpresent) hout

theorem holds_closeOwner_extend (h : d.HoldsOnceClosed id owner s)
    (howner : owner.isAbsent = false → owner ∈ d.unit.ancestorsAndSelf id) :
    (d.closeOwner id).unit.Holds owner (s.extend d.cursor) := by
  rcases h with habsent | ⟨t, ht, hstart, hstop⟩
  · exact .inl habsent
  · have hmem := howner (CompilationUnit.isAbsent_of_type? ht)
    refine .inr ⟨_, (type?_closeOwner id owner d).trans (congrArg _ ht), ?_⟩
    simp only [if_pos hmem]
    exact Span.extend_encloses_extend hstart (hstop.imp_right And.right)

theorem inPlace_closeOwner (hclosed : d.unit.outline.Closed) (hid : d.knows id = true)
    (h : d.unit.InPlace (d.HoldsOnceClosed id)) :
    (d.closeOwner id).unit.InPlace (d.closeOwner id).unit.Holds where
  types t' ht' := by
    obtain ⟨i, hi⟩ := Array.mem_iff_getElem?.mp ht'
    have htypes : (d.closeOwner id).unit.types =
        reachAll d.cursor (d.unit.ancestorsAndSelf id) d.unit.types := by rw [closeOwner_eq]
    rw [htypes, getElem?_reachAll] at hi
    obtain ⟨t, ht, rfl⟩ := Option.map_eq_some_iff.mp hi
    obtain ⟨hordered, hname_ordered, hname, hheld⟩ := h.types t (Array.mem_of_getElem? ht)
    split
    · -- What grows is on the chain of owners, and so is the type around it.
      next hgrown =>
      obtain ⟨a, ha, rfl⟩ := hgrown
      have hpresent := CompilationUnit.isAbsent_of_mem_ancestorsWithin ha
      have hta : d.unit.type? a = some t := by
        simp [CompilationUnit.type?, hpresent, ht]
      have hparent : t.parent.isAbsent = false → t.parent ∈ d.unit.ancestorsAndSelf id :=
        CompilationUnit.parent_mem_ancestorsAndSelf hclosed hid ha hta
      exact ⟨Span.ordered_extend d.cursor hordered, hname_ordered,
        Span.encloses_extend d.cursor hname, holds_closeOwner_extend hheld hparent⟩
    · exact ⟨hordered, hname_ordered, hname, holds_closeOwner hheld⟩
  ctors c hc := by
    have hctors : (d.closeOwner id).unit.ctors = d.unit.ctors := by rw [closeOwner_eq]
    have hold := h.ctors c (hctors ▸ hc)
    exact { hold with held := holds_closeOwner hold.held }
  creations c hc := by
    have hcreations : (d.closeOwner id).unit.creations = d.unit.creations := by
      rw [closeOwner_eq]
    have hold := h.creations c (hcreations ▸ hc)
    exact { hold with held := holds_closeOwner hold.held }

-- ---------------------------------------------------------------------------
-- Adding what the cursor has been moved past
-- ---------------------------------------------------------------------------

structure KeepsPlace (f : TypeDecl → TypeDecl) : Prop where
  parent : ∀ t, (f t).parent = t.parent
  span : ∀ t, (f t).span = t.span
  nameSpan : ∀ t, (f t).nameSpan = t.nameSpan

theorem exists_type?_modifyType {f : TypeDecl → TypeDecl} (id : TypeId) (hf : KeepsPlace f)
    (h : d.unit.type? owner = some t) :
    ∃ t', (d.modifyType id f).unit.type? owner = some t' ∧ t'.span = t.span := by
  have hpresent := CompilationUnit.isAbsent_of_type? h
  have hget := CompilationUnit.getElem?_of_type? h
  by_cases hi : id.index = owner.index
  · refine ⟨f t, ?_, hf.span t⟩
    simp [CompilationUnit.type?, hpresent, modifyType, Array.getElem?_modify, hi, hget]
  · refine ⟨t, ?_, rfl⟩
    simp [CompilationUnit.type?, hpresent, modifyType, Array.getElem?_modify, hi, hget]

theorem inPlace_modifyType {holds : TypeId → Span → Prop} {f : TypeDecl → TypeDecl}
    (hf : KeepsPlace f) (h : d.unit.InPlace holds) : (d.modifyType id f).unit.InPlace holds where
  types t' ht' := by
    obtain ⟨i, hi⟩ := Array.mem_iff_getElem?.mp ht'
    simp only [modifyType, Array.getElem?_modify] at hi
    split at hi
    · obtain ⟨t, ht, rfl⟩ := Option.map_eq_some_iff.mp hi
      obtain ⟨hordered, hname_ordered, hname, hheld⟩ := h.types t (Array.mem_of_getElem? ht)
      constructor
      · rw [hf.span]
        exact hordered
      · rw [hf.nameSpan]
        exact hname_ordered
      · rw [hf.span, hf.nameSpan]
        exact hname
      · rw [hf.span, hf.parent]
        exact hheld
    · exact h.types t' (Array.mem_of_getElem? hi)
  ctors := h.ctors
  creations := h.creations

theorem inPlace_owned {f : TypeDecl → TypeDecl} (hf : KeepsPlace f)
    (hclosed : ((d.modifyType id f).closeOwner id).unit.outline.Closed) (hid : d.knows id = true)
    (h : d.unit.InPlace (d.HoldsOnceClosed id)) :
    ((d.modifyType id f).closeOwner id).unit.InPlace
      ((d.modifyType id f).closeOwner id).unit.Holds := by
  rw [outline_closeOwner] at hclosed
  refine inPlace_closeOwner hclosed ?_ ((inPlace_modifyType hf h).imp ?_)
  · obtain ⟨t, ht⟩ := knows_iff.mp hid
    obtain ⟨t', ht', -⟩ := exists_type?_modifyType id hf ht
    exact knows_iff.mpr ⟨t', ht'⟩
  · rintro owner s (habsent | ⟨t, ht, hholds⟩)
    · exact .inl habsent
    · obtain ⟨t', ht', hspan⟩ := exists_type?_modifyType id hf ht
      rw [← hspan] at hholds
      exact .inr ⟨t', ht', hholds⟩

end Draft

/-- Everything is where it belongs, and no type starts behind the cursor. -/
structure Draft.InPlace (d : Draft) : Prop where
  unit : d.unit.InPlace d.unit.Holds
  started : ∀ s ∈ d.typeStarts, s ≤ d.cursor

namespace Draft

variable {d d' : Draft} {id owner : TypeId} {s : Span} {cursor : UInt32}

theorem onceClosed_of_holds
    (hmore : ∀ id t, d.unit.type? id = some t → d'.unit.type? id = some t)
    (h : d.unit.Holds owner s) : d'.HoldsOnceClosed id owner s := by
  rcases h with habsent | ⟨t, ht, hencloses⟩
  · exact .inl habsent
  · rw [Span.encloses_iff] at hencloses
    exact .inr ⟨t, hmore owner t ht, hencloses.1, .inl hencloses.2⟩

theorem onceClosed_of_writes (h : d.InPlace) (hwrites : d.Writes s cursor)
    (hcursor : d'.cursor = cursor) (hid : d.knows id = true)
    (hmore : ∀ id t, d.unit.type? id = some t → d'.unit.type? id = some t) :
    d'.HoldsOnceClosed id id s := by
  obtain ⟨t, ht⟩ := knows_iff.mp hid
  have hstart : t.span.start ∈ d.typeStarts :=
    Array.mem_map_of_mem (Array.mem_of_getElem? (CompilationUnit.getElem?_of_type? ht))
  refine .inr ⟨t, hmore id t ht, ?_, .inr ⟨rfl, hcursor ▸ hwrites.stop⟩⟩
  rw [hwrites.start]
  exact h.started _ hstart

theorem type?_pushType {u : CompilationUnit} {p : TypeDecl} (t : TypeDecl)
    (h : u.type? id = some p) : { u with types := u.types.push t }.type? id = some p := by
  have hlt := (Array.getElem?_eq_some_iff.mp (CompilationUnit.getElem?_of_type? h)).1
  simp only [CompilationUnit.type?, Array.getElem?_push_lt hlt] at h ⊢
  simpa [hlt] using h

theorem inPlace_addType {t : TypeDecl} (h : d.InPlace) (hwrites : d.Writes t.span cursor)
    (hname : t.nameSpan.Ordered) (hencloses : t.span.encloses t.nameSpan = true)
    (hparent : t.parent.isAbsent = true ∨ d.knows t.parent = true)
    (hclosed : ({ d with cursor }.addType t).1.unit.outline.Closed) :
    ({ d with cursor }.addType t).1.unit.InPlace ({ d with cursor }.addType t).1.unit.Holds := by
  let pushed : Draft :=
    { d with cursor := cursor, unit := { d.unit with types := d.unit.types.push t } }
  have hmore : ∀ id p, d.unit.type? id = some p → pushed.unit.type? id = some p :=
    fun _ _ => type?_pushType t
  cases hp : t.parent.isAbsent
  · have hknows : d.knows t.parent = true := by simpa [hp] using hparent
    rw [addType_nested hp] at hclosed ⊢
    refine inPlace_owned (d := pushed) ⟨fun _ => rfl, fun _ => rfl, fun _ => rfl⟩ hclosed
      (knows_pushType hknows) ((h.unit.imp ?_).pushType ⟨hwrites.ordered, hname, hencloses, ?_⟩)
    · exact fun _ _ => onceClosed_of_holds hmore
    · exact onceClosed_of_writes h hwrites rfl hknows hmore
  · have hheld : ∀ owner s, d.unit.Holds owner s → pushed.unit.Holds owner s := by
      rintro owner s (habsent | ⟨p, hp, hencloses⟩)
      · exact .inl habsent
      · exact .inr ⟨p, hmore owner p hp, hencloses⟩
    have hunit : pushed.unit.InPlace pushed.unit.Holds :=
      (h.unit.imp hheld).pushType ⟨hwrites.ordered, hname, hencloses, .inl hp⟩
    rw [addType_top hp]
    exact ⟨hunit.types, hunit.ctors, hunit.creations⟩

theorem inPlace_addCtor {c : Ctor} (h : d.InPlace) (hwrites : d.Writes c.span cursor)
    (hinitializer : ∀ i ∈ c.initializer, i.span.Ordered ∧ c.span.encloses i.span = true)
    (howner : d.knows c.owner = true)
    (hclosed : ({ d with cursor }.addCtor c).1.unit.outline.Closed) :
    ({ d with cursor }.addCtor c).1.unit.InPlace ({ d with cursor }.addCtor c).1.unit.Holds := by
  let pushed : Draft :=
    { d with cursor := cursor, unit := { d.unit with ctors := d.unit.ctors.push c } }
  have hmore : ∀ id p, d.unit.type? id = some p → pushed.unit.type? id = some p :=
    fun _ _ hp => hp
  rw [addCtor_eq] at hclosed ⊢
  refine inPlace_owned (d := pushed) ⟨fun _ => rfl, fun _ => rfl, fun _ => rfl⟩ hclosed howner
    ((h.unit.imp ?_).pushCtor ⟨hwrites.ordered, hinitializer, ?_⟩)
  · exact fun _ _ => onceClosed_of_holds hmore
  · exact onceClosed_of_writes h hwrites rfl howner hmore

theorem inPlace_addCreation {c : Creation} (h : d.InPlace) (hwrites : d.Writes c.span cursor)
    (henclosing : c.enclosing.isAbsent = true ∨ d.knows c.enclosing = true)
    (hclosed : ({ d with cursor }.addCreation c).1.unit.outline.Closed) :
    ({ d with cursor }.addCreation c).1.unit.InPlace
      ({ d with cursor }.addCreation c).1.unit.Holds := by
  let pushed : Draft :=
    { d with cursor := cursor, unit := { d.unit with creations := d.unit.creations.push c } }
  have hmore : ∀ id p, d.unit.type? id = some p → pushed.unit.type? id = some p :=
    fun _ _ hp => hp
  cases hc : c.enclosing.isAbsent
  · have hknows : d.knows c.enclosing = true := by simpa [hc] using henclosing
    rw [addCreation_enclosed hc] at hclosed ⊢
    refine inPlace_owned (d := pushed) ⟨fun _ => rfl, fun _ => rfl, fun _ => rfl⟩ hclosed hknows
      ((h.unit.imp ?_).pushCreation ⟨hwrites.ordered, ?_⟩)
    · exact fun _ _ => onceClosed_of_holds hmore
    · exact onceClosed_of_writes h hwrites rfl hknows hmore
  · have hunit := h.unit.pushCreation ⟨hwrites.ordered, .inl hc⟩
    rw [addCreation_top hc]
    exact ⟨hunit.types, hunit.ctors, hunit.creations⟩

-- ---------------------------------------------------------------------------
-- Steps and runs
-- ---------------------------------------------------------------------------

theorem inPlace_start (file : String) : (start file).InPlace := by
  constructor
  · constructor <;> simp [start]
  · simp [typeStarts, start]

theorem inPlace_apply {step : Step} (hlinked : d.unit.Linked) (h : d.InPlace) :
    (d.apply step).1.InPlace := by
  refine ⟨?_, fun s hs =>
    UInt32.le_trans (typeStarts_apply_le h.started s hs) (starts_apply d step).1⟩
  have hclosed : (d.apply step).1.unit.outline.Closed := (linked_apply hlinked).closed
  cases hs : d.unknown? step with
  | some id =>
    rw [apply_of_unknown hs]
    exact h.unit
  | none =>
    cases step with
    | withScope scope => exact ⟨h.unit.types, h.unit.ctors, h.unit.creations⟩
    | declare spec =>
      have hp := (unknown?_declare d spec).mp hs
      obtain ⟨cursor, t, heq, hbare, -, -, -, hwrites, hname, hencloses, -⟩ := declare_eq hp
      have hparent : t.parent = spec.parent := congrArg TypeDecl.parent hbare
      simp only [apply, heq] at hclosed ⊢
      exact inPlace_addType h hwrites hname hencloses (hparent ▸ Bool.or_eq_true_iff.mp hp)
        hclosed
    | setBase id base =>
      obtain ⟨hbase, hid⟩ := (unknown?_setBase d id base).mp hs
      have hf : KeepsPlace fun t => { t with base := base } :=
        ⟨fun _ => rfl, fun _ => rfl, fun _ => rfl⟩
      simp only [apply, setBase, hbase, hid, if_true]
      refine (inPlace_modifyType hf h.unit).imp ?_
      rintro owner s (habsent | ⟨t, ht, hencloses⟩)
      · exact .inl habsent
      · obtain ⟨t', ht', hspan⟩ := exists_type?_modifyType id hf ht
        exact .inr ⟨t', ht', hspan ▸ hencloses⟩
    | addConstructor owner spec =>
      have hown := (unknown?_addConstructor d owner spec).mp hs
      obtain ⟨cursor, c, heq, hbare, hwrites, hinitializer⟩ := addConstructor_eq spec hown
      have howner : c.owner = owner := congrArg Ctor.owner hbare
      simp only [apply, heq] at hclosed ⊢
      exact inPlace_addCtor h hwrites hinitializer (howner ▸ hown) hclosed
    | create enclosing target argCount =>
      have hknown := (unknown?_create d enclosing target argCount).symm.trans hs
      obtain ⟨cursor, c, heq, hbare, hwrites⟩ := create_eq argCount hknown
      have henclosing : c.enclosing = enclosing := congrArg Creation.enclosing hbare
      simp only [apply, heq] at hclosed ⊢
      exact inPlace_addCreation h hwrites (henclosing ▸ knows_enclosing hs) hclosed

theorem inPlace_run (hlinked : d.unit.Linked) (h : d.InPlace) (steps : List Step) :
    (d.run steps).InPlace := by
  induction steps generalizing d with
  | nil => exact h
  | cons step rest ih => exact ih (linked_apply hlinked) (inPlace_apply hlinked h)

end Draft

-- ---------------------------------------------------------------------------
-- Finished units
-- ---------------------------------------------------------------------------

namespace CompilationUnit

variable {u : CompilationUnit} {owner outer : TypeId} {t : TypeDecl} {s : Span}

/-- The first handle is the second one, or that of a type around it. -/
inductive Around (u : CompilationUnit) (outer : TypeId) : TypeId → Prop
  | self : Around u outer outer
  | parent {id : TypeId} {t : TypeDecl} : u.type? id = some t → Around u outer t.parent →
      Around u outer id

def HeldAround (u : CompilationUnit) (owner : TypeId) (s : Span) : Prop :=
  ∀ outer t, u.Around outer owner → u.type? outer = some t → t.span.encloses s = true

theorem InPlace.heldAround (h : u.InPlace u.Holds) (hheld : u.Holds owner s) :
    u.HeldAround owner s := by
  intro outer t haround ht
  induction haround generalizing s with
  | self =>
    rcases hheld with habsent | ⟨t', ht', hencloses⟩
    · rw [isAbsent_of_type? ht] at habsent
      cases habsent
    · obtain rfl : t' = t := Option.some.inj (ht'.symm.trans ht)
      exact hencloses
  | parent hp _ ih =>
    rcases hheld with habsent | ⟨p, hp', hencloses⟩
    · rw [isAbsent_of_type? hp] at habsent
      cases habsent
    · obtain rfl := Option.some.inj (hp'.symm.trans hp)
      have hmem := Array.mem_of_getElem? (getElem?_of_type? hp)
      exact Span.encloses_trans (ih (h.types p hmem).held) hencloses

def spanOf? (u : CompilationUnit) : Item → Option Span
  | .type id => (u.type? id).map (·.span)
  | .creation id => (u.creation? id).map (·.span)

/-- No span of the unit is inverted, and a type holds all that names it as its
owner and all that its lists name. -/
structure LaidOut (u : CompilationUnit) : Prop where
  inPlace : u.InPlace u.HeldAround
  inside : u.Addressable → ∀ item id t s, u.Inside item id → u.type? id = some t →
    u.spanOf? item = some s → t.span.encloses s = true
  constructors : u.Addressable → ∀ id t c, u.type? id = some t → c ∈ u.constructorsOf id →
    t.span.encloses c.2.span = true

theorem Inside.exists_around (h : u.Linked) (hu : u.Addressable) {item : Item} {id : TypeId}
    (hin : u.Inside item id) : ∃ owner, item ∈ u.bodyItems owner ∧ u.Around id owner := by
  induction hin with
  | direct hitem => exact ⟨_, hitem, .self⟩
  | @deeper item id nested hitem _ ih =>
    obtain ⟨owner, hnested, haround⟩ := ih
    obtain ⟨-, howner⟩ := (mem_bodyItems h hu).mp hnested
    obtain ⟨t, ht, rfl⟩ := Option.map_eq_some_iff.mp howner
    exact ⟨nested, hitem, .parent ht haround⟩

theorem InPlace.heldAround_bodyItems (h : u.InPlace u.HeldAround) (hlinked : u.Linked)
    (hu : u.Addressable) {item : Item} (hitem : item ∈ u.bodyItems owner)
    (hs : u.spanOf? item = some s) : u.HeldAround owner s := by
  obtain ⟨-, howner⟩ := (mem_bodyItems hlinked hu).mp hitem
  cases item with
  | type id =>
    obtain ⟨t, ht, rfl⟩ := Option.map_eq_some_iff.mp howner
    obtain ⟨_, ht', rfl⟩ := Option.map_eq_some_iff.mp hs
    obtain rfl := Option.some.inj (ht.symm.trans ht')
    exact (h.types t (Array.mem_of_getElem? (getElem?_of_type? ht))).held
  | creation id =>
    obtain ⟨c, hc, rfl⟩ := Option.map_eq_some_iff.mp howner
    obtain ⟨_, hc', rfl⟩ := Option.map_eq_some_iff.mp hs
    obtain rfl := Option.some.inj (hc.symm.trans hc')
    exact (h.creations c (Array.mem_of_getElem? (getElem?_of_creation? hc))).held

theorem owner_of_mem_constructorsOf (h : u.Linked) (hu : u.Addressable) {id : TypeId}
    {c : CtorId × Ctor} (hc : c ∈ u.constructorsOf id) : c.2 ∈ u.ctors ∧ c.2.owner = id := by
  rw [constructorsOf] at hc
  split at hc
  · cases hc
  · next t ht =>
    obtain ⟨cid, hlisted, hsome⟩ := List.mem_filterMap.mp hc
    obtain ⟨ctor, hctor, rfl⟩ := Option.map_eq_some_iff.mp hsome
    have hget := getElem?_of_ctor? hctor
    have hcontents : cid ∈ (u.contents id).ctors := by
      simpa [contents, TypeDecl.contents, isAbsent_of_type? ht, ht] using hlisted
    have howner : id ∈ u.owners := mem_owners (.inr (names_iff.mpr (Option.isSome_of_eq_some ht)))
    obtain ⟨ctor', hget', rfl⟩ := ((h.wellFormed hu).ctors.mem_iff id howner cid).mp hcontents
    obtain rfl := Option.some.inj (hget.symm.trans hget')
    exact ⟨Array.mem_of_getElem? hget, rfl⟩

theorem Linked.laidOut (h : u.Linked) (hplace : u.InPlace u.Holds) : u.LaidOut := by
  have haround : u.InPlace u.HeldAround := hplace.imp fun _ _ => hplace.heldAround
  refine ⟨haround, ?_, ?_⟩
  · intro hu item id t s hin ht hs
    obtain ⟨owner, hitem, houter⟩ := hin.exists_around h hu
    exact haround.heldAround_bodyItems h hu hitem hs id t houter ht
  · intro hu id t c ht hc
    obtain ⟨hmem, rfl⟩ := owner_of_mem_constructorsOf h hu hc
    exact (haround.ctors c.2 hmem).held c.2.owner t .self ht

end CompilationUnit

theorem Draft.laidOut_after (file : String) (steps : List Step) :
    (after file steps).unit.LaidOut := by
  have hlinked := linked_start file
  exact (linked_run hlinked steps).laidOut (inPlace_run hlinked (inPlace_start file) steps).unit

end CtorArity
