import CtorArity.Proofs.Outline
import Mathlib.Data.List.Nodup

/-!
# Links

A unit keeps each declaration twice: in the table of its kind and, by handle,
in the list of its owner. `linked_run`: after every run of steps the lists are
those that the tables imply, and every handle in a table names a type of the
unit. `after_wellFormed` says what this means entry by entry, and what a step
does that is given an unknown handle.
-/

namespace CtorArity

/-- The handles of what stands directly in a type, or at the top level. -/
structure Contents where
  types : List TypeId := []
  ctors : List CtorId := []
  creations : List CreationId := []
  deriving DecidableEq, Repr

namespace Contents

instance : Append Contents :=
  ⟨fun a b => ⟨a.types ++ b.types, a.ctors ++ b.ctors, a.creations ++ b.creations⟩⟩

theorem append_def (a b : Contents) :
    a ++ b = ⟨a.types ++ b.types, a.ctors ++ b.ctors, a.creations ++ b.creations⟩ := rfl

@[simp] theorem append_empty (a : Contents) : a ++ ({} : Contents) = a := by
  simp [append_def]

end Contents

def TypeDecl.contents (t : TypeDecl) : Contents := ⟨t.nested, t.constructors, t.creations⟩

/-- What the lists of a unit put under an owner, the absent one standing for the
top level. -/
def CompilationUnit.contents (u : CompilationUnit) (owner : TypeId) : Contents :=
  if owner.isAbsent then ⟨u.roots, [], u.topLevelCreations⟩
  else ((u.type? owner).map (·.contents)).getD {}

/-- What the tables imply for an owner: the declarations that name it, in table
order. -/
def Outline.contents (o : Outline) (owner : TypeId) : Contents where
  types := handlesWhere (·.parent == owner) o.types
  ctors := handlesWhere (·.owner == owner) o.ctors
  creations := handlesWhere (·.enclosing == owner) o.creations

namespace Outline

def Names (o : Outline) (id : TypeId) : Prop := id.isAbsent = false ∧ id.index < o.types.length

/-- Declarations refer to types of the outline, and a type stands after the one
around it. -/
structure Closed (o : Outline) : Prop where
  parents : ∀ i (t : TypeDecl), o.types[i]? = some t →
    t.parent = .absent ∨ o.Names t.parent ∧ t.parent.index < i
  bases : ∀ t ∈ o.types, ∀ base, t.base = .declared base → o.Names base
  owners : ∀ c ∈ o.ctors, o.Names c.owner
  enclosers : ∀ c ∈ o.creations, c.enclosing = .absent ∨ o.Names c.enclosing
  targets : ∀ c ∈ o.creations, ∀ target, c.target = .declared target → o.Names target

end Outline

namespace CompilationUnit

structure Linked (u : CompilationUnit) : Prop where
  contents : ∀ owner, u.contents owner = u.outline.contents owner
  closed : u.outline.Closed

theorem map_outline_types {f : TypeDecl → β} (hbare : ∀ t, f t.bare = f t)
    (u : CompilationUnit) : u.outline.types.map f = u.types.toList.map f := by
  rw [outline, List.map_map]
  exact List.map_congr_left fun t _ => hbare t

@[simp] theorem length_outline_types (u : CompilationUnit) :
    u.outline.types.length = u.types.size := by
  simp [outline]

@[simp] theorem length_outline_ctors (u : CompilationUnit) :
    u.outline.ctors.length = u.ctors.size := by
  simp [outline]

@[simp] theorem length_outline_creations (u : CompilationUnit) :
    u.outline.creations.length = u.creations.size := by
  simp [outline]

end CompilationUnit

-- ---------------------------------------------------------------------------
-- Lists after an addition
-- ---------------------------------------------------------------------------

namespace Draft

variable {d : Draft} {id owner : TypeId}

theorem names_iff_knows : d.unit.outline.Names id ↔ d.knows id = true := by
  simp only [Outline.Names, CompilationUnit.length_outline_types, knows, CompilationUnit.type?]
  cases id.isAbsent <;> simp

theorem contents_of_present (u : CompilationUnit) (h : owner.isAbsent = false) :
    u.contents owner = ((u.types.map (·.contents))[owner.index]?).getD {} := by
  simp [CompilationUnit.contents, CompilationUnit.type?, h]

theorem contents_closeOwner (id : TypeId) (d : Draft) (owner : TypeId) :
    (d.closeOwner id).unit.contents owner = d.unit.contents owner := by
  rw [closeOwner_eq]
  cases h : owner.isAbsent
  · simp only [contents_of_present _ h]
    rw [map_reachAll fun _ _ => rfl]
  · simp [CompilationUnit.contents, h]

theorem contents_modifyType {f : TypeDecl → TypeDecl} (added : Contents)
    (h : ∀ t, (f t).contents = t.contents ++ added) (hid : d.knows id = true) (owner : TypeId) :
    (d.modifyType id f).unit.contents owner =
      d.unit.contents owner ++ if id == owner then added else {} := by
  have hpresent := isAbsent_of_knows hid
  cases ho : owner.isAbsent
  · simp only [contents_of_present _ ho, modifyType, Array.getElem?_map, Array.getElem?_modify]
    by_cases hi : id = owner
    · subst hi
      obtain ⟨t, ht⟩ := knows_iff.mp hid
      rw [CompilationUnit.type?, hpresent] at ht
      simp at ht
      simp [ht, h]
    · have hindex : ¬ id.index = owner.index := fun he => hi (Handle.index_inj he)
      simp [hi, hindex]
  · have hne : ¬ id = owner := Handle.isAbsent_iff.mp ho ▸ Handle.ne_absent hpresent
    simp [CompilationUnit.contents, modifyType, ho, hne]

theorem contents_pushType {t : TypeDecl} (h : t.contents = {}) (u : CompilationUnit)
    (owner : TypeId) :
    { u with types := u.types.push t }.contents owner = u.contents owner := by
  cases ho : owner.isAbsent
  · simp only [contents_of_present _ ho, Array.map_push, Array.getElem?_push, Array.size_map]
    split
    · next hi => simp [h, hi]
    · rfl
  · simp [CompilationUnit.contents, ho]

theorem knows_pushType {t : TypeDecl} (h : d.knows id = true) :
    ({ d with unit := { d.unit with types := d.unit.types.push t } } : Draft).knows id = true := by
  rw [← names_iff_knows] at h ⊢
  refine ⟨h.1, ?_⟩
  have := h.2
  simp only [CompilationUnit.length_outline_types, Array.size_push] at this ⊢
  omega

theorem contents_addType {t : TypeDecl} (h : t.contents = {})
    (hp : t.parent.isAbsent = true ∨ d.knows t.parent = true) (owner : TypeId) :
    (d.addType t).1.unit.contents owner = d.unit.contents owner ++
      if t.parent == owner then { types := [.ofIndex d.unit.types.size] } else {} := by
  cases ht : t.parent.isAbsent
  · have hk : d.knows t.parent = true := by simpa [ht] using hp
    rw [addType_nested ht, contents_closeOwner,
      contents_modifyType { types := [.ofIndex d.unit.types.size] } _ (knows_pushType hk),
      contents_pushType h]
    exact fun p => by simp [TypeDecl.contents, Contents.append_def]
  · rw [addType_top ht, Handle.isAbsent_iff.mp ht]
    cases ho : owner.isAbsent
    · have hne : (Handle.absent == owner) = false :=
        beq_eq_false_iff_ne.mpr (Handle.ne_absent ho).symm
      simp only [hne, Bool.false_eq_true, if_false, Contents.append_empty]
      rw [← contents_pushType h d.unit owner]
      simp [CompilationUnit.contents, CompilationUnit.type?, ho]
    · simp [CompilationUnit.contents, Handle.isAbsent_iff.mp ho, Contents.append_def]

theorem contents_addCtor {c : Ctor} (hc : d.knows c.owner = true) (owner : TypeId) :
    (d.addCtor c).1.unit.contents owner = d.unit.contents owner ++
      if c.owner == owner then { ctors := [.ofIndex d.unit.ctors.size] } else {} := by
  rw [addCtor_eq, contents_closeOwner]
  refine contents_modifyType { ctors := [.ofIndex d.unit.ctors.size] } (fun t => ?_) hc owner
  simp [TypeDecl.contents, Contents.append_def]

theorem contents_addCreation {c : Creation}
    (hc : c.enclosing.isAbsent = true ∨ d.knows c.enclosing = true) (owner : TypeId) :
    (d.addCreation c).1.unit.contents owner = d.unit.contents owner ++
      if c.enclosing == owner then { creations := [.ofIndex d.unit.creations.size] } else {} := by
  cases he : c.enclosing.isAbsent
  · have hk : d.knows c.enclosing = true := by simpa [he] using hc
    rw [addCreation_enclosed he, contents_closeOwner]
    refine contents_modifyType { creations := [.ofIndex d.unit.creations.size] } (fun t => ?_) hk
      owner
    simp [TypeDecl.contents, Contents.append_def]
  · rw [addCreation_top he, Handle.isAbsent_iff.mp he]
    cases ho : owner.isAbsent
    · have hne := (Handle.ne_absent ho).symm
      simp [CompilationUnit.contents, CompilationUnit.type?, ho, hne]
    · simp [CompilationUnit.contents, Handle.isAbsent_iff.mp ho, Contents.append_def]

end Draft

-- ---------------------------------------------------------------------------
-- The same on outlines
-- ---------------------------------------------------------------------------

namespace Outline

variable {o : Outline} {id : TypeId}

theorem contents_addType (o : Outline) (t : TypeDecl) (owner : TypeId) :
    { o with types := o.types ++ [t] }.contents owner = o.contents owner ++
      if t.parent == owner then { types := [.ofIndex o.types.length] } else {} := by
  cases h : t.parent == owner <;>
    simp [contents, Contents.append_def, handlesWhere_concat, h]

theorem contents_addCtor (o : Outline) (c : Ctor) (owner : TypeId) :
    { o with ctors := o.ctors ++ [c] }.contents owner = o.contents owner ++
      if c.owner == owner then { ctors := [.ofIndex o.ctors.length] } else {} := by
  cases h : c.owner == owner <;>
    simp [contents, Contents.append_def, handlesWhere_concat, h]

theorem contents_addCreation (o : Outline) (c : Creation) (owner : TypeId) :
    { o with creations := o.creations ++ [c] }.contents owner = o.contents owner ++
      if c.enclosing == owner then { creations := [.ofIndex o.creations.length] } else {} := by
  cases h : c.enclosing == owner <;>
    simp [contents, Contents.append_def, handlesWhere_concat, h]

theorem getElem?_setBase {base : BaseBinding}
    (h : (o.apply (.setBase id base)).types[i]? = some t) :
    ∃ old, o.types[i]? = some old ∧
      t = if id.index = i then { old with base := base } else old := by
  simp only [Outline.apply, List.getElem?_modify] at h
  obtain ⟨old, hold, ht⟩ := Option.map_eq_some_iff.mp h
  exact ⟨old, hold, ht.symm⟩

theorem map_types_setBase {f : TypeDecl → β} (o : Outline) (id : TypeId) (base : BaseBinding)
    (hf : ∀ t, f { t with base := base } = f t) :
    (o.apply (.setBase id base)).types.map f = o.types.map f := by
  have h := congrArg Array.toList (Draft.map_modify hf o.types.toArray id.index)
  simpa [apply, Array.toList_map, Array.toList_modify] using h

theorem contents_setBase (o : Outline) (id : TypeId) (base : BaseBinding) (owner : TypeId) :
    (o.apply (.setBase id base)).contents owner = o.contents owner := by
  have hmap := map_types_setBase (f := TypeDecl.parent) o id base fun _ => rfl
  simp only [apply] at hmap
  simp only [contents, apply]
  rw [← handlesWhere_map (· == owner) TypeDecl.parent, hmap, handlesWhere_map]

theorem Names.mono {o' : Outline} (h : o.Names id) (hle : o.types.length ≤ o'.types.length) :
    o'.Names id :=
  ⟨h.1, Nat.lt_of_lt_of_le h.2 hle⟩

theorem length_types_apply (o : Outline) (step : Step) :
    o.types.length ≤ (o.apply step).types.length := by
  cases step <;> simp [apply]

theorem Closed.apply {step : Step} (ho : o.Closed) (h : ∀ id ∈ step.handles, o.Names id) :
    (o.apply step).Closed := by
  have hmono : ∀ {id}, o.Names id → (o.apply step).Names id :=
    fun hid => hid.mono (length_types_apply o step)
  cases step with
  | withScope scope => exact ⟨ho.parents, ho.bases, ho.owners, ho.enclosers, ho.targets⟩
  | declare spec =>
    refine ⟨?_, ?_, fun c hc => hmono (ho.owners c hc),
      fun c hc => (ho.enclosers c hc).imp_right hmono,
      fun c hc target ht => hmono (ho.targets c hc target ht)⟩
    · intro i t ht
      simp only [Outline.apply, List.getElem?_append] at ht
      split at ht
      · exact (ho.parents i t ht).imp_right fun hp => ⟨hmono hp.1, hp.2⟩
      · next hge =>
        obtain ⟨hlt, rfl⟩ := List.getElem?_eq_some_iff.mp ht
        obtain rfl : i = o.types.length := by
          rw [List.length_singleton] at hlt
          omega
        rw [List.getElem_singleton]
        by_cases hp : spec.parent.isAbsent = true
        · exact .inl (Handle.isAbsent_iff.mp hp)
        · have hn := h spec.parent (by simp [Step.handles, Handle.present?, hp])
          exact .inr ⟨hmono hn, hn.2⟩
    · intro t ht base hbase
      rcases List.mem_append.mp ht with ht | ht
      · exact hmono (ho.bases t ht base hbase)
      · rw [List.mem_singleton.mp ht] at hbase
        cases hbase
  | setBase id base =>
    refine ⟨?_, ?_, fun c hc => hmono (ho.owners c hc),
      fun c hc => (ho.enclosers c hc).imp_right hmono,
      fun c hc target ht => hmono (ho.targets c hc target ht)⟩
    · intro i t ht
      obtain ⟨old, hold, rfl⟩ := getElem?_setBase ht
      have hparent := (ho.parents i old hold).imp_right fun hp => And.intro (hmono hp.1) hp.2
      split <;> exact hparent
    · intro t ht target hbase
      obtain ⟨i, hi⟩ := List.mem_iff_getElem?.mp ht
      obtain ⟨old, hold, rfl⟩ := getElem?_setBase hi
      split at hbase
      · obtain rfl : base = .declared target := hbase
        exact hmono (h target (by simp [Step.handles, BaseBinding.declared?]))
      · exact hmono (ho.bases old (List.mem_of_getElem? hold) target hbase)
  | addConstructor owner spec =>
    refine ⟨ho.parents, ho.bases, ?_, ho.enclosers, ho.targets⟩
    intro c hc
    rcases List.mem_append.mp hc with hc | hc
    · exact ho.owners c hc
    · rw [List.mem_singleton.mp hc]
      exact h owner (List.mem_singleton_self owner)
  | create enclosing target argCount =>
    refine ⟨ho.parents, ho.bases, ho.owners, ?_, ?_⟩
    · intro c hc
      rcases List.mem_append.mp hc with hc | hc
      · exact ho.enclosers c hc
      · rw [List.mem_singleton.mp hc]
        by_cases he : enclosing.isAbsent = true
        · exact .inl (Handle.isAbsent_iff.mp he)
        · exact .inr (h enclosing (by simp [Step.handles, Handle.present?, he]))
    · intro c hc id hid
      rcases List.mem_append.mp hc with hc | hc
      · exact ho.targets c hc id hid
      · rw [List.mem_singleton.mp hc] at hid
        obtain rfl : target = .declared id := hid
        exact h id (by simp [Step.handles, CreationTarget.declared?])

end Outline

-- ---------------------------------------------------------------------------
-- Every run keeps a unit linked
-- ---------------------------------------------------------------------------

namespace Draft

open CompilationUnit (Linked Addressable)

variable {d : Draft} {step : Step}

theorem linked_start (file : String) : Linked (start file).unit where
  contents owner := by
    cases h : owner.isAbsent <;>
      simp [start, CompilationUnit.contents, CompilationUnit.type?, CompilationUnit.outline,
        Outline.contents, h]
  closed := by
    constructor <;> simp [start, CompilationUnit.outline]

theorem knows_enclosing {enclosing : TypeId} {target : CreationTarget} {argCount : UInt32}
    (h : d.unknown? (.create enclosing target argCount) = none) :
    enclosing.isAbsent = true ∨ d.knows enclosing = true := by
  by_cases he : enclosing.isAbsent = true
  · exact .inl he
  · have hknown := List.find?_eq_none.mp h enclosing (by simp [Step.handles, Handle.present?, he])
    exact .inr (by simpa using hknown)

theorem contents_apply (h : d.unknown? step = none)
    (hd : ∀ owner, d.unit.contents owner = d.unit.outline.contents owner) (owner : TypeId) :
    (d.apply step).1.unit.contents owner = (d.unit.outline.apply step).contents owner := by
  cases step with
  | withScope scope => exact hd owner
  | declare spec =>
    have hp := (unknown?_declare d spec).mp h
    obtain ⟨cursor, t, heq, hbare, hn, hc, hcr, -⟩ := declare_eq hp
    have hparent : t.parent = spec.parent := congrArg TypeDecl.parent hbare
    rw [Outline.apply, Outline.contents_addType, ← hd, CompilationUnit.length_outline_types]
    simp only [apply, heq]
    rw [contents_addType (by simp [TypeDecl.contents, hn, hc, hcr])
      (hparent ▸ Bool.or_eq_true_iff.mp hp), hparent]
    rfl
  | setBase id base =>
    obtain ⟨hbase, hid⟩ := (unknown?_setBase d id base).mp h
    simp only [apply, setBase, hbase, hid, if_true]
    rw [Outline.contents_setBase, ← hd, contents_modifyType {} _ hid]
    · simp
    · exact fun t => (Contents.append_empty _).symm
  | addConstructor owner' spec =>
    have hown := (unknown?_addConstructor d owner' spec).mp h
    obtain ⟨cursor, c, heq, hbare, -⟩ := addConstructor_eq spec hown
    have howner : c.owner = owner' := congrArg Ctor.owner hbare
    rw [Outline.apply, Outline.contents_addCtor, ← hd, CompilationUnit.length_outline_ctors]
    simp only [apply, heq]
    rw [contents_addCtor (by rw [howner]; exact hown), howner]
    rfl
  | create enclosing target argCount =>
    have hu := (unknown?_create d enclosing target argCount).symm.trans h
    obtain ⟨cursor, c, heq, hbare, -⟩ := create_eq argCount hu
    have hencl : c.enclosing = enclosing := congrArg Creation.enclosing hbare
    rw [Outline.apply, Outline.contents_addCreation, ← hd,
      CompilationUnit.length_outline_creations]
    simp only [apply, heq]
    rw [contents_addCreation (hencl ▸ knows_enclosing h), hencl]

theorem linked_apply (h : Linked d.unit) : Linked (d.apply step).1.unit := by
  cases hs : d.unknown? step with
  | some id => exact (apply_of_unknown hs).symm ▸ h
  | none =>
    have houtline := (apply_of_known hs).1
    refine ⟨fun owner => ?_, ?_⟩
    · rw [houtline]
      exact contents_apply hs h.contents owner
    · rw [houtline]
      refine h.closed.apply fun id hid => names_iff_knows.mpr ?_
      simpa using List.find?_eq_none.mp hs id hid

theorem map_types_prefix_apply {f : TypeDecl → β} (hbare : ∀ t, f t.bare = f t)
    (hbase : ∀ t base, f { t with base := base } = f t) (d : Draft) (step : Step) :
    d.unit.types.toList.map f <+: (d.apply step).1.unit.types.toList.map f := by
  rw [← CompilationUnit.map_outline_types hbare, ← CompilationUnit.map_outline_types hbare]
  cases hs : d.unknown? step with
  | some id =>
    rw [apply_of_unknown hs]
    exact List.prefix_rfl
  | none =>
    rw [(apply_of_known hs).1]
    cases step with
    | declare spec => simp [Outline.apply]
    | setBase id base =>
      exact (Outline.map_types_setBase _ id base (hbase · base)) ▸ List.prefix_rfl
    | withScope | addConstructor | create => exact List.prefix_rfl

theorem map_types_prefix_run {f : TypeDecl → β} (hbare : ∀ t, f t.bare = f t)
    (hbase : ∀ t base, f { t with base := base } = f t) (d : Draft) (steps : List Step) :
    d.unit.types.toList.map f <+: (d.run steps).unit.types.toList.map f := by
  induction steps generalizing d with
  | nil => exact List.prefix_rfl
  | cons step rest ih => exact (map_types_prefix_apply hbare hbase d step).trans (ih _)

theorem knows_apply {id : TypeId} (h : d.knows id = true) :
    (d.apply step).1.knows id = true := by
  rw [← names_iff_knows] at h ⊢
  have hle := (map_types_prefix_apply (f := fun _ => ()) (fun _ => rfl) (fun _ _ => rfl) d
    step).length_le
  exact h.mono (by simpa using hle)

theorem linked_run (h : Linked d.unit) (steps : List Step) : Linked (d.run steps).unit :=
  run_of_apply (P := fun d => Linked d.unit) (fun _ _ => linked_apply) h steps

end Draft

-- ---------------------------------------------------------------------------
-- Well-formed units
-- ---------------------------------------------------------------------------

theorem count_flatMap_eq_count [BEq α] [LawfulBEq α] [DecidableEq β] {f : β → List α} {a : α}
    {b : β} {l : List β} (h : ∀ x ∈ l, (f x).count a = if x = b then 1 else 0) :
    (l.flatMap f).count a = l.count b := by
  induction l with
  | nil => rfl
  | cons x rest ih =>
    rw [List.flatMap_cons, List.count_append, h x List.mem_cons_self,
      ih fun y hy => h y (List.mem_cons_of_mem x hy), List.count_cons, Nat.add_comm]
    simp

/-- How the entries of a table are listed under their owners. -/
structure Listed (table : Array α) (owner : α → TypeId) (owners : List TypeId)
    (listed : TypeId → List (Handle entity)) : Prop where
  /-- The list of an owner holds the entries that name it. -/
  mem_iff : ∀ o ∈ owners, ∀ id, id ∈ listed o ↔ ∃ a, table[id.index]? = some a ∧ owner a = o
  /-- An entry stands once in all the lists together. -/
  once : ∀ i (a : α), table[i]? = some a → (owners.flatMap listed).count (.ofIndex i) = 1
  increasing : ∀ o ∈ owners, (listed o).Pairwise (·.index < ·.index)

theorem listed_of_handlesWhere {table : Array α} {owner : α → TypeId} {owners : List TypeId}
    {listed : TypeId → List (Handle entity)} (hsize : table.size ≤ 0xFFFFFFFF)
    (hnodup : owners.Nodup) (hown : ∀ a ∈ table, owner a ∈ owners)
    (h : ∀ o, listed o = handlesWhere (owner · == o) table.toList) :
    Listed table owner owners listed where
  mem_iff o _ id := by
    rw [h, mem_handlesWhere (by simpa using hsize)]
    simp
  once i a ha := by
    have hlt := (Array.getElem?_eq_some_iff.mp ha).1
    have hcount : ∀ o ∈ owners, (listed o).count (.ofIndex i) = if o = owner a then 1 else 0 := by
      intro o _
      rw [h, count_handlesWhere (by simpa using hsize), Handle.index_ofIndex (by omega)]
      simp [ha, eq_comm (a := o)]
    rw [count_flatMap_eq_count hcount]
    exact List.count_eq_one_of_mem hnodup (hown a (Array.mem_of_getElem? ha))
  increasing o _ := by
    rw [h]
    exact pairwise_handlesWhere (by simpa using hsize)

namespace CompilationUnit

variable {u : CompilationUnit} {id : TypeId}

instance : Decidable u.Addressable :=
  decidable_of_iff (u.types.size < 0xFFFFFFFF ∧ u.ctors.size < 0xFFFFFFFF ∧
    u.creations.size < 0xFFFFFFFF) ⟨fun h => ⟨h.1, h.2.1, h.2.2⟩, fun h => ⟨h.1, h.2, h.3⟩⟩

/-- Whatever a declaration can stand in: the top level, or a type of the unit. -/
def owners (u : CompilationUnit) : List TypeId :=
  .absent :: (List.range u.types.size).map .ofIndex

/-- The tables and lists of a unit agree, and every handle in a table names a
type. The roots and the top-level creations are the contents of the absent
handle. -/
structure WellFormed (u : CompilationUnit) : Prop where
  types : Listed u.types (·.parent) u.owners fun owner => (u.contents owner).types
  ctors : Listed u.ctors (·.owner) u.owners fun owner => (u.contents owner).ctors
  creations : Listed u.creations (·.enclosing) u.owners fun owner => (u.contents owner).creations
  parent_lt : ∀ i (t : TypeDecl), u.types[i]? = some t →
    t.parent = .absent ∨ (u.type? t.parent).isSome ∧ t.parent.index < i
  owner_declared : ∀ c ∈ u.ctors, (u.type? c.owner).isSome
  base_declared : ∀ t ∈ u.types, ∀ base, t.base = .declared base → (u.type? base).isSome
  target_declared : ∀ c ∈ u.creations, ∀ target, c.target = .declared target →
    (u.type? target).isSome

theorem names_iff : u.outline.Names id ↔ (u.type? id).isSome = true :=
  Draft.names_iff_knows (d := ⟨u, 0, []⟩)

theorem mem_owners (h : id = .absent ∨ u.outline.Names id) : id ∈ u.owners := by
  rcases h with rfl | h
  · exact List.mem_cons_self
  · have hlt : id.index < u.types.size := by simpa using h.2
    exact List.mem_cons_of_mem _ (List.mem_map.mpr ⟨id.index, List.mem_range.mpr hlt,
      id.ofIndex_index⟩)

theorem nodup_owners (h : u.types.size < 0xFFFFFFFF) : u.owners.Nodup := by
  refine List.nodup_cons.mpr ⟨?_, ?_⟩
  · intro hmem
    obtain ⟨i, hi, he⟩ := List.mem_map.mp hmem
    have hi := List.mem_range.mp hi
    have ha : (Handle.ofIndex i : TypeId).isAbsent = false := Handle.isAbsent_ofIndex (by omega)
    rw [he] at ha
    simp at ha
  · refine List.Nodup.map_on ?_ List.nodup_range
    intro i hi j hj he
    have hi := List.mem_range.mp hi
    have hj := List.mem_range.mp hj
    exact (Handle.ofIndex_inj (by omega) (by omega)).mp he

theorem mem_outline_types {t : TypeDecl} (h : t ∈ u.types) : t.bare ∈ u.outline.types :=
  List.mem_map_of_mem h.val

theorem mem_outline_ctors {c : Ctor} (h : c ∈ u.ctors) : c.bare ∈ u.outline.ctors :=
  List.mem_map_of_mem h.val

theorem mem_outline_creations {c : Creation} (h : c ∈ u.creations) :
    c.bare ∈ u.outline.creations :=
  List.mem_map_of_mem h.val

theorem Linked.wellFormed (h : u.Linked) (hu : u.Addressable) : u.WellFormed where
  types := by
    refine listed_of_handlesWhere (Nat.le_of_lt hu.types) (nodup_owners hu.types) ?_ ?_
    · intro t ht
      obtain ⟨i, hi⟩ := List.mem_iff_getElem?.mp (mem_outline_types ht)
      exact mem_owners ((h.closed.parents i t.bare hi).imp_right And.left)
    · intro o
      rw [h.contents]
      simp only [Outline.contents, outline, handlesWhere_map]
      rfl
  ctors := by
    refine listed_of_handlesWhere (Nat.le_of_lt hu.ctors) (nodup_owners hu.types) ?_ ?_
    · intro c hc
      exact mem_owners (.inr (h.closed.owners c.bare (mem_outline_ctors hc)))
    · intro o
      rw [h.contents]
      simp only [Outline.contents, outline, handlesWhere_map]
      rfl
  creations := by
    refine listed_of_handlesWhere (Nat.le_of_lt hu.creations) (nodup_owners hu.types) ?_ ?_
    · intro c hc
      exact mem_owners (h.closed.enclosers c.bare (mem_outline_creations hc))
    · intro o
      rw [h.contents]
      simp only [Outline.contents, outline, handlesWhere_map]
      rfl
  parent_lt i t ht :=
    (h.closed.parents i t.bare (by simp [outline, ht])).imp_right fun hp =>
      ⟨names_iff.mp hp.1, hp.2⟩
  owner_declared c hc := names_iff.mp (h.closed.owners c.bare (mem_outline_ctors hc))
  base_declared t ht base hbase :=
    names_iff.mp (h.closed.bases t.bare (mem_outline_types ht) base hbase)
  target_declared c hc target htarget :=
    names_iff.mp (h.closed.targets c.bare (mem_outline_creations hc) target htarget)

end CompilationUnit

-- ---------------------------------------------------------------------------
-- Runs from the start
-- ---------------------------------------------------------------------------

namespace Draft

def after (file : String) (steps : List Step) : Draft := (start file).run steps

/-- The step notes one handle that names no type, hands out no handle but the
absent one, and leaves the unit and the cursor as they are. -/
def Refuses (d : Draft) (step : Step) : Prop :=
  ∃ id ∈ step.handles, d.unit.type? id = none ∧
    (d.apply step).1 = { d with faults := d.faults ++ [.unknownType id] } ∧
    ∀ reply, (d.apply step).2 = some reply → reply.raw = 0xFFFFFFFF

theorem refuses_of_unknown {d : Draft} {step : Step}
    (h : ∃ id ∈ step.handles, d.unit.type? id = none) : d.Refuses step := by
  obtain ⟨id, hid, hnone⟩ := h
  cases hs : d.unknown? step with
  | none =>
    have hk := List.find?_eq_none.mp hs id hid
    simp [knows, hnone] at hk
  | some first =>
    refine ⟨first, List.mem_of_find?_eq_some hs, ?_, ?_, ?_⟩
    · simpa [knows] using List.find?_some hs
    · rw [apply_of_unknown hs]
      rfl
    · rw [apply_of_unknown hs]
      intro reply hreply
      cases step <;> cases hreply <;> rfl

/-- After any steps the unit is well formed, and a step that is given the handle
of no type is refused. -/
theorem after_wellFormed (file : String) (steps : List Step)
    (h : (after file steps).unit.Addressable) :
    (after file steps).unit.WellFormed ∧
      ∀ step, (∃ id ∈ step.handles, (after file steps).unit.type? id = none) →
        (after file steps).Refuses step :=
  ⟨(linked_run (linked_start file) steps).wellFormed h, fun _ => refuses_of_unknown⟩

/-- Steps of every kind, some with handles of nothing: one names a type that is
not there, the next ones use its absent answer as a parent and as owners. -/
def tangled : List Step :=
  [.topClass "A", .nestedClass ⟨0⟩ "B", .nestedClass ⟨7⟩ "Lost", .nestedClass .absent "C",
    .addConstructor .absent {}, .instantiating .absent ⟨1⟩ 2, .extending ⟨1⟩ ⟨2⟩,
    .extending ⟨2⟩ .absent, .addConstructor ⟨1⟩ { params := [⟨"p", false, false⟩] },
    .withScope ⟨4⟩, .nestedClass ⟨1⟩ "D", .instantiating ⟨3⟩ ⟨0⟩ 1, .create ⟨3⟩ .unresolved 0,
    .instantiating ⟨0⟩ .absent 1]

theorem after_tangled_wellFormed :
    (after "a.cs" tangled).unit.Addressable ∧ (after "a.cs" tangled).unit.WellFormed ∧
      (after "a.cs" tangled).Refuses (.extending ⟨9⟩ ⟨1⟩) := by
  have haddr : (after "a.cs" tangled).unit.Addressable := by decide
  obtain ⟨hwf, hrefuses⟩ := after_wellFormed "a.cs" tangled haddr
  exact ⟨haddr, hwf, hrefuses _ ⟨⟨9⟩, by decide, by decide⟩⟩

end Draft

end CtorArity
