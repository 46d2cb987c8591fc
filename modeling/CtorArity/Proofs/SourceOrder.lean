import CtorArity.Proofs.Cursor
import CtorArity.Proofs.Walk
import Mathlib.Data.List.TakeWhile

/-!
# Source order

The items of a body, or of the top level, come from two lists, one of types and
one of creations, and are merged by their starts. What steps add to an owner starts
further and further on, since the cursor never goes back, so both lists are sorted
and so is what they merge to. While the cursor has not run out of offsets the
starts even differ, and the items stand in the order of the steps that added them
(`items_inSourceOrder`).
-/

namespace CtorArity

namespace Item

def type? : Item → Option TypeId
  | .type id => some id
  | .creation _ => none

def creation? : Item → Option CreationId
  | .type _ => none
  | .creation id => some id

@[simp] theorem type?_type (id : TypeId) : (Item.type id).type? = some id := rfl

@[simp] theorem type?_creation (id : CreationId) : (Item.creation id).type? = none := rfl

@[simp] theorem creation?_type (id : TypeId) : (Item.type id).creation? = none := rfl

@[simp] theorem creation?_creation (id : CreationId) :
    (Item.creation id).creation? = some id := rfl

end Item

def Step.itemOwner? : Step → Option TypeId
  | .declare spec => some spec.parent
  | .create enclosing .. => some enclosing
  | .withScope _ | .setBase .. | .addConstructor .. => none

def Declared.item? : Declared → Option Item
  | .type id => some (.type id)
  | .creation id => some (.creation id)
  | .ctor _ => none

namespace Draft

def added (d : Draft) (owner : TypeId) (step : Step) : List Item :=
  if step.itemOwner? = some owner then ((d.apply step).2.bind (·.item?)).toList else []

/-- What the steps add to an owner, in the order of the steps. -/
def additions (d : Draft) (owner : TypeId) : List Step → List Item
  | [] => []
  | step :: rest => d.added owner step ++ (d.apply step).1.additions owner rest

end Draft

namespace CompilationUnit

/-- The order of a body: by start, and on equal starts types before creations. -/
def Precedes (u : CompilationUnit) : Item → Item → Prop
  | .creation c, .type t => u.startOf (.creation c) < u.startOf (.type t)
  | a, b => u.startOf a ≤ u.startOf b

/-- The items of a body, or for the absent handle those of the top level. -/
def placed (u : CompilationUnit) (owner : TypeId) : List Item :=
  if owner.isAbsent then u.topLevelItems else u.bodyItems owner

variable {u : CompilationUnit} {owner : TypeId} {types : List TypeId}
  {creations : List CreationId} {items : List Item} {a b : Item}

theorem Precedes.le (h : u.Precedes a b) : u.startOf a ≤ u.startOf b := by
  cases a <;> cases b
  case creation.type => exact UInt32.le_of_lt h
  all_goals exact h

theorem placed_eq_itemsOf (u : CompilationUnit) (owner : TypeId) :
    u.placed owner = u.itemsOf owner := by
  unfold placed
  cases h : owner.isAbsent
  · exact bodyItems_eq h
  · rw [Handle.isAbsent_iff.mp h]
    exact topLevelItems_eq u

-- ---------------------------------------------------------------------------
-- Merging two lists
-- ---------------------------------------------------------------------------

theorem filterMap_type?_mergeByStart (u : CompilationUnit) (types : List TypeId)
    (creations : List CreationId) :
    (u.mergeByStart types creations).filterMap (·.type?) = types := by
  induction types generalizing creations with
  | nil => simp [mergeByStart, List.filterMap_map]
  | cons t rest ih => simp [mergeByStart, List.filterMap_map, ih]

theorem filterMap_creation?_mergeByStart (u : CompilationUnit) (types : List TypeId)
    (creations : List CreationId) :
    (u.mergeByStart types creations).filterMap (·.creation?) = creations := by
  induction types generalizing creations with
  | nil => simp [mergeByStart, List.filterMap_map, Function.comp_def]
  | cons t rest ih =>
    simp [mergeByStart, List.filterMap_map, List.filterMap_cons, Function.comp_def, ih]

theorem perm_filterMap_items (items : List Item) :
    items.Perm ((items.filterMap (·.type?)).map .type ++
      (items.filterMap (·.creation?)).map .creation) := by
  induction items with
  | nil => exact .refl _
  | cons item rest ih =>
    cases item with
    | type id => exact ih.cons _
    | creation id => exact (ih.cons _).trans List.perm_middle.symm

theorem mem_mergeByStart {item : Item} :
    item ∈ u.mergeByStart types creations ↔
      (∃ t ∈ types, .type t = item) ∨ ∃ c ∈ creations, .creation c = item := by
  rw [(mergeByStart_perm u types creations).mem_iff, List.mem_append, List.mem_map, List.mem_map]

theorem startOf_le_of_mem_dropWhile {t : TypeId} {c : CreationId}
    (hcreations : (creations.dropWhile (u.startsBefore t)).Pairwise fun a b =>
      u.startOf (.creation a) ≤ u.startOf (.creation b))
    (hc : c ∈ creations.dropWhile (u.startsBefore t)) :
    u.startOf (.type t) ≤ u.startOf (.creation c) := by
  have hhead := List.head?_dropWhile_not (u.startsBefore t) creations
  generalize creations.dropWhile (u.startsBefore t) = rest at hcreations hc hhead
  cases rest with
  | nil => cases hc
  | cons first later =>
    have hfirst := UInt32.not_lt.mp (of_decide_eq_false hhead)
    rcases List.mem_cons.mp hc with rfl | hc
    · exact hfirst
    · exact UInt32.le_trans hfirst ((List.pairwise_cons.mp hcreations).1 c hc)

theorem pairwise_mergeByStart
    (htypes : types.Pairwise fun a b => u.startOf (.type a) ≤ u.startOf (.type b))
    (hcreations : creations.Pairwise fun a b =>
      u.startOf (.creation a) ≤ u.startOf (.creation b)) :
    (u.mergeByStart types creations).Pairwise u.Precedes := by
  induction types generalizing creations with
  | nil => exact List.pairwise_map.mpr hcreations
  | cons t rest ih =>
    obtain ⟨hfirst, hrest⟩ := List.pairwise_cons.mp htypes
    -- The creations before the type, and those from it on.
    rw [← List.takeWhile_append_dropWhile (p := u.startsBefore t) (l := creations)] at hcreations
    obtain ⟨hbefore, hafter, hcross⟩ := List.pairwise_append.mp hcreations
    have hlt : ∀ c ∈ creations.takeWhile (u.startsBefore t),
        u.startOf (.creation c) < u.startOf (.type t) := fun c hc =>
      of_decide_eq_true (List.mem_takeWhile_imp (p := u.startsBefore t) hc)
    refine List.pairwise_append.mpr ⟨List.pairwise_map.mpr hbefore,
      List.pairwise_cons.mpr ⟨?_, ih hrest hafter⟩, ?_⟩
    · intro item hitem
      rcases mem_mergeByStart.mp hitem with ⟨t', ht', rfl⟩ | ⟨c, hc, rfl⟩
      · exact hfirst t' ht'
      · exact startOf_le_of_mem_dropWhile hafter hc
    · intro item hitem other hother
      obtain ⟨c, hc, rfl⟩ := List.mem_map.mp hitem
      rcases List.mem_cons.mp hother with rfl | hother
      · exact hlt c hc
      · rcases mem_mergeByStart.mp hother with ⟨t', ht', rfl⟩ | ⟨c', hc', rfl⟩
        · exact UInt32.lt_of_lt_of_le (hlt c hc) (hfirst t' ht')
        · exact hcross c hc c' hc'

/-- Items that start further and further on are what their types and their creations
merge to. -/
theorem mergeByStart_filterMap
    (h : items.Pairwise fun a b => u.startOf a < u.startOf b) :
    u.mergeByStart (items.filterMap (·.type?)) (items.filterMap (·.creation?)) = items := by
  have hle : items.Pairwise fun a b => u.startOf a ≤ u.startOf b :=
    h.imp fun hab => UInt32.le_of_lt hab
  have hmerged : (u.mergeByStart (items.filterMap (·.type?))
      (items.filterMap (·.creation?))).Pairwise fun a b => u.startOf a ≤ u.startOf b := by
    refine (pairwise_mergeByStart ?_ ?_).imp fun hab => hab.le
    · refine List.pairwise_filterMap.mpr (hle.imp fun {a b} hab t ht t' ht' => ?_)
      cases a <;> cases ht
      cases b <;> cases ht'
      exact hab
    · refine List.pairwise_filterMap.mpr (hle.imp fun {a b} hab c hc c' hc' => ?_)
      cases a <;> cases hc
      cases b <;> cases hc'
      exact hab
  have hnodup : (items.map u.startOf).Nodup :=
    List.pairwise_map.mpr (h.imp fun hab => UInt32.ne_of_lt hab)
  have hperm := (mergeByStart_perm u _ _).trans (perm_filterMap_items items).symm
  refine hperm.eq_of_pairwise (fun a b ha hb hab hba => ?_) hmerged hle
  exact List.inj_on_of_nodup_map hnodup (hperm.mem_iff.mp ha) hb (UInt32.le_antisymm hab hba)

end CompilationUnit

-- ---------------------------------------------------------------------------
-- Starts ascend
-- ---------------------------------------------------------------------------

namespace Draft

variable {d : Draft} {step : Step} {steps : List Step} {owner : TypeId} {item : Item}

/-- The starts in a table never go back, and none is behind this offset. -/
def Ascends (starts : Array UInt32) (cursor : UInt32) : Prop :=
  starts.toList.Pairwise (· ≤ ·) ∧ ∀ s ∈ starts, s ≤ cursor

theorem Ascends.push {starts starts' : Array UInt32} {cursor cursor' : UInt32}
    (h : Ascends starts cursor) (hle : cursor ≤ cursor')
    (hstep : starts' = starts ∨ starts' = starts.push cursor) : Ascends starts' cursor' := by
  rcases hstep with rfl | rfl
  · exact ⟨h.1, fun s hs => UInt32.le_trans (h.2 s hs) hle⟩
  · refine ⟨?_, fun s hs => ?_⟩
    · rw [Array.toList_push]
      refine List.pairwise_append.mpr ⟨h.1, List.pairwise_singleton _ _, fun s hs s' hs' => ?_⟩
      rw [List.mem_singleton.mp hs']
      exact h.2 s (Array.mem_toList_iff.mp hs)
    · rcases Array.mem_push.mp hs with hs | rfl
      · exact UInt32.le_trans (h.2 s hs) hle
      · exact hle

theorem ascends_run (file : String) (steps : List Step) :
    Ascends (after file steps).typeStarts (after file steps).cursor ∧
      Ascends (after file steps).creationStarts (after file steps).cursor := by
  refine run_of_apply (P := fun d => Ascends d.typeStarts d.cursor ∧
    Ascends d.creationStarts d.cursor) (fun d step h => ?_) ?_ steps
  · obtain ⟨hle, htypes, hcreations⟩ := starts_apply d step
    exact ⟨h.1.push hle (htypes.imp_right And.right), h.2.push hle (hcreations.imp_right And.right)⟩
  · simp [Ascends, start, typeStarts, creationStarts]

theorem startOf_type {id : TypeId} (hid : id.isAbsent = false) (d : Draft) :
    d.unit.startOf (.type id) = d.typeStarts[id.index]?.getD 0xFFFFFFFF := by
  simp [CompilationUnit.startOf, CompilationUnit.type?, hid, typeStarts]

theorem startOf_creation {id : CreationId} (hid : id.isAbsent = false) (d : Draft) :
    d.unit.startOf (.creation id) = d.creationStarts[id.index]?.getD 0xFFFFFFFF := by
  simp [CompilationUnit.startOf, CompilationUnit.creation?, hid, creationStarts]

theorem pairwise_startOf_handlesWhere {entity : Entity} {item : Handle entity → Item}
    {starts : Array UInt32} {test : α → Bool} {table : List α}
    (hitem : ∀ id, id.isAbsent = false →
      d.unit.startOf (item id) = starts[id.index]?.getD 0xFFFFFFFF)
    (hstarts : starts.toList.Pairwise (· ≤ ·)) (hlength : table.length = starts.size)
    (hsize : table.length < 0xFFFFFFFF) :
    (handlesWhere test table).Pairwise fun a b =>
      d.unit.startOf (item a) ≤ d.unit.startOf (item b) := by
  have hstart : ∀ id ∈ (handlesWhere test table : List (Handle entity)),
      ∃ h : id.index < starts.toList.length, d.unit.startOf (item id) = starts.toList[id.index] := by
    intro id hid
    obtain ⟨a, ha, -⟩ := (mem_handlesWhere (Nat.le_of_lt hsize)).mp hid
    have hlt := (List.getElem?_eq_some_iff.mp ha).1
    have hpresent : id.isAbsent = false :=
      id.ofIndex_index ▸ Handle.isAbsent_ofIndex (Nat.lt_trans hlt hsize)
    have hlt' : id.index < starts.size := hlength ▸ hlt
    exact ⟨hlt', by simp [hitem id hpresent, hlt']⟩
  refine (pairwise_handlesWhere (Nat.le_of_lt hsize)).imp_of_mem fun {a b} ha hb hab => ?_
  obtain ⟨hlta, ha⟩ := hstart a ha
  obtain ⟨hltb, hb⟩ := hstart b hb
  rw [ha, hb]
  exact List.pairwise_iff_getElem.mp hstarts _ _ hlta hltb hab

theorem pairwise_itemsOf (file : String) (steps : List Step)
    (haddr : (after file steps).unit.Addressable) (owner : TypeId) :
    ((after file steps).unit.itemsOf owner).Pairwise (after file steps).unit.Precedes := by
  obtain ⟨htypes, hcreations⟩ := ascends_run file steps
  have hlinked : CompilationUnit.Linked (after file steps).unit :=
    linked_run (linked_start file) steps
  rw [CompilationUnit.itemsOf, hlinked.contents]
  refine CompilationUnit.pairwise_mergeByStart ?_ ?_ <;> simp only [Outline.contents]
  · refine pairwise_startOf_handlesWhere (fun _ hid => startOf_type hid _) htypes.1 ?_ ?_
    · simp [typeStarts]
    · simpa using haddr.types
  · refine pairwise_startOf_handlesWhere (fun _ hid => startOf_creation hid _) hcreations.1 ?_ ?_
    · simp [creationStarts]
    · simpa using haddr.creations

-- ---------------------------------------------------------------------------
-- What a step adds
-- ---------------------------------------------------------------------------

theorem added_declare {spec : TypeSpec} (h : d.unknown? (.declare spec) = none) (owner : TypeId) :
    d.added owner (.declare spec) =
      if spec.parent = owner then [.type (.ofIndex d.unit.types.size)] else [] := by
  obtain ⟨cursor, t, heq, -⟩ := declare_eq ((unknown?_declare d spec).mp h)
  simp [added, Step.itemOwner?, apply, heq, addType_reply, Declared.item?]

theorem added_create {enclosing : TypeId} {target : CreationTarget} {argCount : UInt32}
    (h : d.unknown? (.create enclosing target argCount) = none) (owner : TypeId) :
    d.added owner (.create enclosing target argCount) =
      if enclosing = owner then [.creation (.ofIndex d.unit.creations.size)] else [] := by
  obtain ⟨cursor, c, heq, -⟩ := create_eq argCount
    ((unknown?_create d enclosing target argCount).symm.trans h)
  simp [added, Step.itemOwner?, apply, heq, addCreation_reply, Declared.item?]

theorem contents_added (hd : CompilationUnit.Linked d.unit) (hs : d.unknown? step = none)
    (owner : TypeId) :
    ((d.apply step).1.unit.contents owner).types =
        (d.unit.contents owner).types ++ (d.added owner step).filterMap (·.type?) ∧
      ((d.apply step).1.unit.contents owner).creations =
        (d.unit.contents owner).creations ++ (d.added owner step).filterMap (·.creation?) := by
  rw [contents_apply hs hd.contents, hd.contents]
  cases step with
  | withScope scope => simp [added, Step.itemOwner?, Outline.apply, Outline.contents]
  | declare spec =>
    rw [added_declare hs, Outline.apply, Outline.contents_addType]
    by_cases hparent : spec.parent = owner <;> simp [hparent, Contents.append_def, TypeSpec.bare]
  | setBase id base =>
    simp [added, Step.itemOwner?, Outline.contents_setBase]
  | addConstructor owner' spec =>
    rw [Outline.apply, Outline.contents_addCtor]
    by_cases howner : owner' = owner <;>
      simp [added, Step.itemOwner?, howner, Contents.append_def, CtorSpec.bare]
  | create enclosing target argCount =>
    rw [added_create hs, Outline.apply, Outline.contents_addCreation]
    by_cases henclosing : enclosing = owner <;> simp [henclosing, Contents.append_def]

theorem contents_additions (hd : CompilationUnit.Linked d.unit)
    (hfaults : (d.run steps).faults = d.faults) (owner : TypeId) :
    ((d.run steps).unit.contents owner).types =
        (d.unit.contents owner).types ++ (d.additions owner steps).filterMap (·.type?) ∧
      ((d.run steps).unit.contents owner).creations =
        (d.unit.contents owner).creations ++
          (d.additions owner steps).filterMap (·.creation?) := by
  induction steps generalizing d with
  | nil => simp [run, additions]
  | cons step rest ih =>
    obtain ⟨hs, hrest⟩ := known_of_run hfaults
    obtain ⟨htypes, hcreations⟩ := contents_added hd hs owner
    obtain ⟨htypes', hcreations'⟩ := ih (linked_apply hd) hrest
    rw [htypes, List.append_assoc, ← List.filterMap_append] at htypes'
    rw [hcreations, List.append_assoc, ← List.filterMap_append] at hcreations'
    exact ⟨htypes', hcreations'⟩

-- ---------------------------------------------------------------------------
-- While there are offsets left
-- ---------------------------------------------------------------------------

/-- Whenever a step adds to the owner, there are offsets left for what it adds. -/
def HasRoom (d : Draft) (owner : TypeId) (steps : List Step) : Prop :=
  ∀ before step later, steps = before ++ step :: later → step.itemOwner? = some owner →
    (d.run before).cursor ≠ 0xFFFFFFFF

theorem HasRoom.head {rest : List Step} (h : d.HasRoom owner (step :: rest))
    (howner : step.itemOwner? = some owner) : d.cursor ≠ 0xFFFFFFFF :=
  h [] step rest rfl howner

theorem HasRoom.tail {rest : List Step} (h : d.HasRoom owner (step :: rest)) :
    (d.apply step).1.HasRoom owner rest :=
  fun before next later hsplit => h (step :: before) next later (hsplit ▸ rfl)

theorem hasRoom_of_cursor (h : (d.run steps).cursor ≠ 0xFFFFFFFF) (owner : TypeId) :
    d.HasRoom owner steps := by
  rintro before step later rfl -
  rw [run_append] at h
  exact ne_last_of_le (cursor_le_run _ _) h

theorem itemOwner_of_mem_added (h : item ∈ d.added owner step) :
    step.itemOwner? = some owner := by
  by_contra hne
  rw [added, if_neg hne] at h
  cases h

theorem typeStarts_declare {spec : TypeSpec} (h : d.unknown? (.declare spec) = none) :
    (d.apply (.declare spec)).1.typeStarts = d.typeStarts.push d.cursor := by
  obtain ⟨cursor, t, heq, -, -, -, -, hwrites, -⟩ := declare_eq ((unknown?_declare d spec).mp h)
  simp only [apply, heq, ← hwrites.start]
  exact (starts_addType t { d with cursor }).1

theorem creationStarts_create {enclosing : TypeId} {target : CreationTarget} {argCount : UInt32}
    (h : d.unknown? (.create enclosing target argCount) = none) :
    (d.apply (.create enclosing target argCount)).1.creationStarts =
      d.creationStarts.push d.cursor := by
  obtain ⟨cursor, c, heq, -, hwrites⟩ := create_eq argCount
    ((unknown?_create d enclosing target argCount).symm.trans h)
  simp only [apply, heq, ← hwrites.start]
  exact (starts_addCreation c { d with cursor }).2.1

theorem startOf_added (hs : d.unknown? step = none) (haddr : d.unit.Addressable)
    (hitem : item ∈ d.added owner step) (rest : List Step) :
    ((d.apply step).1.run rest).unit.startOf item = d.cursor := by
  cases step with
  | declare spec =>
    rw [added_declare hs] at hitem
    obtain ⟨-, rfl⟩ : spec.parent = owner ∧ item = .type (.ofIndex d.unit.types.size) := by
      simpa using hitem
    obtain ⟨later, hlater, -⟩ := typeStarts_run (d.apply (.declare spec)).1 rest
    have hsize : d.typeStarts.size = d.unit.types.size := by simp [typeStarts]
    rw [startOf_type (Handle.isAbsent_ofIndex haddr.types),
      Handle.index_ofIndex (Nat.le_of_lt haddr.types), hlater, typeStarts_declare hs, ← hsize,
      Array.getElem?_append_left (by simp), Array.getElem?_push_size, Option.getD_some]
  | create enclosing target argCount =>
    rw [added_create hs] at hitem
    obtain ⟨-, rfl⟩ : enclosing = owner ∧ item = .creation (.ofIndex d.unit.creations.size) := by
      simpa using hitem
    obtain ⟨later, hlater, -⟩ :=
      creationStarts_run (d.apply (.create enclosing target argCount)).1 rest
    have hsize : d.creationStarts.size = d.unit.creations.size := by simp [creationStarts]
    rw [startOf_creation (Handle.isAbsent_ofIndex haddr.creations),
      Handle.index_ofIndex (Nat.le_of_lt haddr.creations), hlater, creationStarts_create hs,
      ← hsize, Array.getElem?_append_left (by simp), Array.getElem?_push_size, Option.getD_some]
  | withScope | setBase | addConstructor => cases itemOwner_of_mem_added hitem

theorem lt_cursor_of_mem_added (hs : d.unknown? step = none) (hitem : item ∈ d.added owner step)
    (hcursor : d.cursor ≠ 0xFFFFFFFF) : d.cursor < (d.apply step).1.cursor := by
  by_cases hlast : (d.apply step).1.cursor = 0xFFFFFFFF
  · have hle := (starts_apply d step).1
    rw [hlast] at hle ⊢
    exact UInt32.lt_of_le_of_ne hle hcursor
  · refine lt_cursor_apply hs ?_ hlast
    have howner := itemOwner_of_mem_added hitem
    cases step <;> simp [Step.itemOwner?, Step.adds] at howner ⊢

theorem additions_ascend (hroomy : d.Roomy) (hfaults : (d.run steps).faults = d.faults)
    (hroom : d.HasRoom owner steps) :
    (∀ item ∈ d.additions owner steps, d.cursor ≤ (d.run steps).unit.startOf item) ∧
      (d.additions owner steps).Pairwise fun a b =>
        (d.run steps).unit.startOf a < (d.run steps).unit.startOf b := by
  induction steps generalizing d with
  | nil => simp [additions]
  | cons step rest ih =>
    obtain ⟨hs, hrest⟩ := known_of_run hfaults
    obtain ⟨hbehind, hpairwise⟩ := ih (roomy_apply hroomy) hrest hroom.tail
    -- What this step adds starts at the cursor, and the rest behind it.
    have hfirst : ∀ item ∈ d.added owner step, d.cursor ≠ 0xFFFFFFFF ∧
        (d.run (step :: rest)).unit.startOf item = d.cursor := by
      intro item hitem
      have hcursor := hroom.head (itemOwner_of_mem_added hitem)
      exact ⟨hcursor, startOf_added hs (hroomy.addressable hcursor) hitem rest⟩
    refine ⟨?_, List.pairwise_append.mpr ⟨?_, hpairwise, ?_⟩⟩
    · intro item hitem
      rcases List.mem_append.mp hitem with hitem | hitem
      · exact UInt32.le_of_eq (hfirst item hitem).2.symm
      · exact UInt32.le_trans (starts_apply d step).1 (hbehind item hitem)
    · unfold added
      split
      · cases (d.apply step).2.bind (·.item?) <;> simp
      · exact .nil
    · intro a ha b hb
      obtain ⟨hcursor, hstart⟩ := hfirst a ha
      rw [hstart]
      exact UInt32.lt_of_lt_of_le (lt_cursor_of_mem_added hs ha hcursor) (hbehind b hb)

/-- In a finished unit the items of each body, and of the top level, are its types
and its creations, each in its order. As long as every declaration has a handle of
its own, each item stands there once and they are sorted by start, types before
creations on equal starts. And if there were offsets left whenever a step added an
item, the items stand in the order of these steps. -/
theorem items_inSourceOrder {file : String} {steps : List Step} {u : CompilationUnit}
    (h : (after file steps).finish = .ok u) (owner : TypeId) :
    ((u.placed owner).filterMap (·.type?) = (u.contents owner).types ∧
        (u.placed owner).filterMap (·.creation?) = (u.contents owner).creations) ∧
      (u.Addressable →
        (∀ item, (u.placed owner).count item = if u.ownerOf? item = some owner then 1 else 0) ∧
          (u.placed owner).Pairwise u.Precedes) ∧
      ((start file).HasRoom owner steps →
        u.placed owner = (start file).additions owner steps) := by
  obtain ⟨hfaults, -, -, rfl⟩ := finish_eq_ok.mp h
  rw [CompilationUnit.placed_eq_itemsOf]
  refine ⟨⟨?_, ?_⟩, fun haddr => ⟨fun item => ?_, ?_⟩, fun hroom => ?_⟩
  · exact CompilationUnit.filterMap_type?_mergeByStart _ _ _
  · exact CompilationUnit.filterMap_creation?_mergeByStart _ _ _
  · exact CompilationUnit.count_itemsOf (linked_run (linked_start file) steps) haddr item owner
  · exact pairwise_itemsOf file steps haddr owner
  · obtain ⟨htypes, hcreations⟩ := contents_additions (linked_start file) hfaults owner
    obtain ⟨-, hascend⟩ := additions_ascend (roomy_start file) hfaults hroom
    have hempty : (start file).unit.contents owner = {} := by
      rw [(linked_start file).contents]
      rfl
    rw [hempty, List.nil_append] at htypes hcreations
    rw [CompilationUnit.itemsOf]
    exact htypes ▸ hcreations ▸ CompilationUnit.mergeByStart_filterMap hascend

/-- Once a call has used up all offsets, what follows starts where the last offset
is, and types come first there. -/
example :
    let steps : List Step := [.create .absent .unresolved 0xFFFFFFFF,
      .create .absent .unresolved 0, .topClass "A"]
    (after "a.cs" steps).unit.topLevelItems = [.creation ⟨0⟩, .type ⟨0⟩, .creation ⟨1⟩] ∧
      (start "a.cs").additions .absent steps = [.creation ⟨0⟩, .creation ⟨1⟩, .type ⟨0⟩] :=
  ⟨rfl, rfl⟩

/-- Types and creations, at the top level and in two types by turns. -/
def inTurns : List Step :=
  [.topClass "A", .create .absent .unresolved 0, .create ⟨0⟩ .unresolved 1, .nestedClass ⟨0⟩ "B",
    .topClass "C", .create ⟨1⟩ .unresolved 0, .instantiating ⟨0⟩ ⟨2⟩ 0,
    .create .absent .unresolved 0, .nestedClass ⟨0⟩ "D"]

theorem items_inSourceOrder_inTurns :
    (after "a.cs" inTurns).finish = .ok (after "a.cs" inTurns).unit ∧
      (after "a.cs" inTurns).unit.Addressable ∧
      (∀ owner, (start "a.cs").HasRoom owner inTurns) ∧
      (∀ owner, ((after "a.cs" inTurns).unit.placed owner).Pairwise
        (after "a.cs" inTurns).unit.Precedes) ∧
      (after "a.cs" inTurns).unit.bodyItems ⟨0⟩ =
        [.creation ⟨1⟩, .type ⟨1⟩, .creation ⟨3⟩, .type ⟨3⟩] ∧
      (after "a.cs" inTurns).unit.topLevelItems =
        [.type ⟨0⟩, .creation ⟨0⟩, .type ⟨2⟩, .creation ⟨4⟩] := by
  have hfinish : (after "a.cs" inTurns).finish = .ok (after "a.cs" inTurns).unit := rfl
  have haddr : (after "a.cs" inTurns).unit.Addressable := by decide
  have hroom : ∀ owner, (start "a.cs").HasRoom owner inTurns :=
    hasRoom_of_cursor (by decide +kernel)
  exact ⟨hfinish, haddr, hroom, fun owner => ((items_inSourceOrder hfinish owner).2.1 haddr).2,
    (items_inSourceOrder hfinish ⟨0⟩).2.2 (hroom ⟨0⟩),
    (items_inSourceOrder hfinish .absent).2.2 (hroom .absent)⟩

end Draft

end CtorArity
