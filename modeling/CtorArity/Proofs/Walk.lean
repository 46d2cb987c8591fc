import CtorArity.Check
import CtorArity.Proofs.Links
import Mathlib.Data.List.Count

/-!
# Walks

A walk lists the items of a unit in the order of their visits: a body before
its type. `Walked` is the recursion of the check as a relation, so a derivation
of it is a run that ends. In a linked unit the walk of the top-level items
exists (`walked_visits`), holds every type and every creation once
(`Walked.count_type`, `Walked.count_creation`), and no type before what is
inside it (`Walked.pairwise`).
-/

namespace CtorArity

namespace CompilationUnit

/-- The walk of a list of items. -/
inductive Walked (u : CompilationUnit) : List Item → List Item → Prop
  | nil : Walked u [] []
  | creation (id : CreationId) {rest walk : List Item} : Walked u rest walk →
      Walked u (.creation id :: rest) (.creation id :: walk)
  | type (id : TypeId) {inside rest walk : List Item} : Walked u (u.bodyItems id) inside →
      Walked u rest walk → Walked u (.type id :: rest) (inside ++ .type id :: walk)

/-- An item stands in the body of a type, at any depth. -/
inductive Inside (u : CompilationUnit) : Item → TypeId → Prop
  | direct {item : Item} {id : TypeId} : item ∈ u.bodyItems id → Inside u item id
  | deeper {item : Item} {id nested : TypeId} : item ∈ u.bodyItems nested →
      Inside u (.type nested) id → Inside u item id

def body (u : CompilationUnit) : Item → List Item
  | .type id => u.bodyItems id
  | .creation _ => []

def ownerOf? (u : CompilationUnit) : Item → Option TypeId
  | .type id => (u.type? id).map (·.parent)
  | .creation id => (u.creation? id).map (·.enclosing)

variable {u : CompilationUnit} {id owner : TypeId} {item : Item} {items walk : List Item}

-- ---------------------------------------------------------------------------
-- Bodies
-- ---------------------------------------------------------------------------

theorem mergeByStart_perm (u : CompilationUnit) (types : List TypeId)
    (creations : List CreationId) :
    (u.mergeByStart types creations).Perm (types.map .type ++ creations.map .creation) := by
  induction types generalizing creations with
  | nil => exact .refl _
  | cons t rest ih =>
    have hsplit := List.takeWhile_append_dropWhile (p := u.startsBefore t) (l := creations)
    calc u.mergeByStart (t :: rest) creations
      _ = (creations.takeWhile (u.startsBefore t)).map .creation ++
            .type t :: u.mergeByStart rest (creations.dropWhile (u.startsBefore t)) := rfl
      _ |>.Perm ((creations.takeWhile (u.startsBefore t)).map .creation ++
            .type t :: (rest.map .type ++
              (creations.dropWhile (u.startsBefore t)).map .creation)) :=
          ((ih _).cons _).append_left _
      _ |>.Perm (.type t :: (rest.map .type ++ ((creations.takeWhile (u.startsBefore t)).map
            .creation ++ (creations.dropWhile (u.startsBefore t)).map .creation))) :=
          List.perm_middle.trans ((List.perm_append_comm_assoc _ _ _).cons _)
      _ = (t :: rest).map .type ++ creations.map .creation := by
          rw [← List.map_append, hsplit]
          rfl

theorem mergeByStart_eq {types : List TypeId} {creations : List CreationId}
    (h : ∀ t ∈ types, ∀ c ∈ creations, u.startsBefore t c = false) :
    u.mergeByStart types creations = types.map .type ++ creations.map .creation := by
  induction types with
  | nil => rfl
  | cons t rest ih =>
    obtain ⟨hnone, hrest⟩ := List.forall_mem_cons.mp h
    have htake : creations.takeWhile (u.startsBefore t) = [] := by
      cases creations with
      | nil => rfl
      | cons c rest => simp [hnone c List.mem_cons_self]
    have hdrop : creations.dropWhile (u.startsBefore t) = creations := by
      cases creations with
      | nil => rfl
      | cons c rest => simp [hnone c List.mem_cons_self]
    rw [mergeByStart, htake, hdrop, ih hrest]
    rfl

def itemsOf (u : CompilationUnit) (owner : TypeId) : List Item :=
  u.mergeByStart (u.contents owner).types (u.contents owner).creations

theorem topLevelItems_eq (u : CompilationUnit) : u.topLevelItems = u.itemsOf .absent := by
  simp [topLevelItems, itemsOf, contents]

theorem bodyItems_eq (h : id.isAbsent = false) : u.bodyItems id = u.itemsOf id := by
  simp only [bodyItems, itemsOf, contents, h]
  cases u.type? id <;> rfl

theorem bodyItems_absent (u : CompilationUnit) : u.bodyItems .absent = [] := by
  simp [bodyItems, type?]

theorem count_map_type (types : List TypeId) (creations : List CreationId) (id : TypeId) :
    (types.map Item.type ++ creations.map Item.creation).count (.type id) = types.count id := by
  have hnone : (creations.map Item.creation).count (.type id) = 0 :=
    List.count_eq_zero.mpr (by simp)
  rw [List.count_append, hnone, Nat.add_zero,
    List.count_map_of_injective _ _ fun _ _ h => Item.type.inj h]

theorem count_map_creation (types : List TypeId) (creations : List CreationId)
    (id : CreationId) :
    (types.map Item.type ++ creations.map Item.creation).count (.creation id) =
      creations.count id := by
  have hnone : (types.map Item.type).count (.creation id) = 0 :=
    List.count_eq_zero.mpr (by simp)
  rw [List.count_append, hnone, Nat.zero_add,
    List.count_map_of_injective _ _ fun _ _ h => Item.creation.inj h]

theorem count_itemsOf (h : u.Linked) (hu : u.Addressable) (item : Item) (owner : TypeId) :
    (u.itemsOf owner).count item = if u.ownerOf? item = some owner then 1 else 0 := by
  rw [itemsOf, (mergeByStart_perm u _ _).count_eq, h.contents]
  have htypes := hu.types
  have hcreations := hu.creations
  cases item with
  | type id =>
    rw [count_map_type, Outline.contents, count_handlesWhere (by simp; omega), ownerOf?,
      type?_eq_getElem? (by omega)]
    cases ht : u.types[id.index]? <;> simp [outline, ht, TypeDecl.bare]
  | creation id =>
    rw [count_map_creation, Outline.contents, count_handlesWhere (by simp; omega), ownerOf?,
      creation?_eq_getElem? (by omega)]
    cases hc : u.creations[id.index]? <;> simp [outline, hc, Creation.bare]

theorem mem_itemsOf (h : u.Linked) (hu : u.Addressable) :
    item ∈ u.itemsOf owner ↔ u.ownerOf? item = some owner := by
  rw [← List.count_pos_iff, count_itemsOf h hu]
  split <;> simp [*]

theorem mem_bodyItems (h : u.Linked) (hu : u.Addressable) :
    item ∈ u.bodyItems id ↔ id.isAbsent = false ∧ u.ownerOf? item = some id := by
  cases ha : id.isAbsent
  · rw [bodyItems_eq ha, mem_itemsOf h hu]
    simp
  · rw [Handle.isAbsent_iff.mp ha, bodyItems_absent]
    simp

theorem index_lt_of_mem_bodyItems (h : u.Linked) (hu : u.Addressable) {nested : TypeId}
    (hmem : .type nested ∈ u.bodyItems id) : id.index < nested.index := by
  obtain ⟨ha, howner⟩ := (mem_bodyItems h hu).mp hmem
  obtain ⟨t, ht, rfl⟩ := Option.map_eq_some_iff.mp howner
  rcases (h.wellFormed hu).parent_lt _ _ (getElem?_of_type? ht) with hp | hp
  · simp [hp] at ha
  · exact hp.2

-- ---------------------------------------------------------------------------
-- The walk of the top-level items
-- ---------------------------------------------------------------------------

theorem Walked.unique (h : u.Walked items walk) (h' : u.Walked items walk') : walk = walk' := by
  induction h generalizing walk' with
  | nil =>
    cases h'
    rfl
  | creation id _ ih =>
    cases h' with
    | creation _ hrest => rw [ih hrest]
  | type id _ _ ihinside ihrest =>
    cases h' with
    | type _ hinside hrest => rw [ihinside hinside, ihrest hrest]

theorem Walked.append_single (h : u.Walked [item] walk) (hrest : u.Walked items rest) :
    u.Walked (item :: items) (walk ++ rest) := by
  cases h with
  | creation id hnil =>
    cases hnil
    exact .creation id hrest
  | type id hinside hnil =>
    cases hnil
    simpa using Walked.type id hinside hrest

theorem walked_append {items' : List Item} (h : u.Walked (items ++ items') walk) :
    ∃ first last, u.Walked items first ∧ u.Walked items' last ∧ walk = first ++ last := by
  induction items generalizing walk with
  | nil => exact ⟨[], walk, .nil, h, rfl⟩
  | cons item rest ih =>
    cases h with
    | creation id hrest =>
      obtain ⟨first, last, hfirst, hlast, rfl⟩ := ih hrest
      exact ⟨_, last, .creation id hfirst, hlast, rfl⟩
    | type id hinside hrest =>
      obtain ⟨first, last, hfirst, hlast, rfl⟩ := ih hrest
      exact ⟨_, last, .type id hinside hfirst, hlast, by simp⟩

theorem Walked.of_creations {creations : List CreationId}
    (h : u.Walked (creations.map .creation) walk) : walk = creations.map .creation := by
  induction creations generalizing walk with
  | nil =>
    cases h
    rfl
  | cons c rest ih =>
    cases h with
    | creation _ hrest => rw [ih hrest, List.map_cons]

theorem walked_flatMap {f : Item → List Item} (h : ∀ item ∈ items, u.Walked [item] (f item)) :
    u.Walked items (items.flatMap f) := by
  induction items with
  | nil => exact .nil
  | cons item rest ih =>
    exact (h item List.mem_cons_self).append_single
      (ih fun other hother => h other (List.mem_cons_of_mem item hother))

theorem walked_visitsWithin (h : u.Linked) (hu : u.Addressable) (depth : Nat) (item : Item)
    (hdepth : ∀ id, item = .type id → u.types.size ≤ depth + id.index) :
    u.Walked [item] (u.visitsWithin depth item) := by
  -- The depth is not used up: each level goes to a later place of the table.
  induction depth generalizing item with
  | zero =>
    cases item with
    | creation id => exact .creation id .nil
    | type id =>
      have hnone : u.type? id = none := by
        rw [type?_eq_getElem? (Nat.le_of_lt hu.types)]
        exact Array.getElem?_eq_none (by simpa using hdepth id rfl)
      have hbody : u.bodyItems id = [] := by simp [bodyItems, hnone]
      have hnil : u.Walked (u.bodyItems id) [] := hbody.symm ▸ .nil
      exact .type id hnil .nil
  | succ depth ih =>
    cases item with
    | creation id => exact .creation id .nil
    | type id =>
      refine .type id (walked_flatMap fun inner hinner => ih inner ?_) .nil
      rintro nested rfl
      have hlt := index_lt_of_mem_bodyItems h hu hinner
      have hle := hdepth id rfl
      omega

theorem walked_visits (h : u.Linked) (hu : u.Addressable) (items : List Item) :
    u.Walked items (items.flatMap u.visits) :=
  walked_flatMap fun item _ => walked_visitsWithin h hu _ item fun _ _ => Nat.le_add_right _ _

-- ---------------------------------------------------------------------------
-- Each item once
-- ---------------------------------------------------------------------------

/-- A walk holds its items and the bodies of what it holds, and nothing else. -/
theorem Walked.perm (h : u.Walked items walk) : walk.Perm (items ++ walk.flatMap u.body) := by
  induction h with
  | nil => exact .refl _
  | creation id _ ih => exact ih.cons _
  | @type id inside rest walk _ _ hinside hrest =>
    calc inside ++ .type id :: walk
      _ |>.Perm ((u.bodyItems id ++ inside.flatMap u.body) ++
            .type id :: (rest ++ walk.flatMap u.body)) :=
          hinside.append (hrest.cons _)
      _ |>.Perm (.type id :: (rest ++ (u.bodyItems id ++ inside.flatMap u.body ++
            walk.flatMap u.body))) :=
          List.perm_middle.trans ((List.perm_append_comm_assoc _ _ _).cons _)
      _ |>.Perm (.type id :: (rest ++ (inside.flatMap u.body ++ (u.bodyItems id ++
            walk.flatMap u.body)))) := by
          rw [List.append_assoc]
          exact ((List.perm_append_comm_assoc _ _ _).append_left rest).cons _
      _ = .type id :: rest ++ (inside ++ .type id :: walk).flatMap u.body := by
          simp [body]

theorem count_body_eq_zero (h : u.Linked) (hu : u.Addressable)
    (hnone : ∀ owner, u.ownerOf? item = some owner → owner.isAbsent = true) (other : Item) :
    (u.body other).count item = 0 := by
  refine List.count_eq_zero.mpr fun hmem => ?_
  cases other with
  | creation id => cases hmem
  | type id =>
    obtain ⟨ha, howner⟩ := (mem_bodyItems h hu).mp hmem
    rw [hnone id howner] at ha
    cases ha

theorem count_body (h : u.Linked) (hu : u.Addressable) (howner : u.ownerOf? item = some owner)
    (ha : owner.isAbsent = false) (other : Item) :
    (u.body other).count item = if other = .type owner then 1 else 0 := by
  cases other with
  | creation id => rfl
  | type id =>
    cases hid : id.isAbsent
    · simp [body, bodyItems_eq hid, count_itemsOf h hu, howner, eq_comm (a := owner)]
    · have hne := (Handle.ne_absent ha).symm
      simp [body, Handle.isAbsent_iff.mp hid, bodyItems_absent, hne]

/-- A type or creation that is there is walked as often as the type around it,
and once if there is none around it. -/
theorem Walked.count_eq (h : u.Linked) (hu : u.Addressable) (hw : u.Walked u.topLevelItems walk)
    (item : Item) : walk.count item = match u.ownerOf? item with
      | none => 0
      | some owner => if owner.isAbsent then 1 else walk.count (.type owner) := by
  rw [hw.perm.count_eq, List.count_append, topLevelItems_eq, count_itemsOf h hu]
  cases howner : u.ownerOf? item with
  | none =>
    have hzero : ∀ other, (u.body other).count item = 0 :=
      count_body_eq_zero h hu (by simp [howner])
    simp [List.count_flatMap, Function.comp_def, hzero]
  | some owner =>
    cases ha : owner.isAbsent
    · rw [if_neg fun he => Handle.ne_absent ha (Option.some.inj he), Nat.zero_add]
      simp only [ha, Bool.false_eq_true, if_false]
      exact count_flatMap_eq_count fun other _ => count_body h hu howner ha other
    · have hzero : ∀ other, (u.body other).count item = 0 :=
        count_body_eq_zero h hu (by simp [howner, ha])
      simp [List.count_flatMap, Function.comp_def, hzero, Handle.isAbsent_iff.mp ha]

theorem Walked.count_type (h : u.Linked) (hu : u.Addressable)
    (hw : u.Walked u.topLevelItems walk) (id : TypeId) :
    walk.count (.type id) = if (u.type? id).isSome then 1 else 0 := by
  induction hn : id.index using Nat.strongRecOn generalizing id with
  | _ n ih =>
    subst hn
    rw [hw.count_eq h hu, ownerOf?]
    cases ht : u.type? id with
    | none => rfl
    | some t =>
      rcases (h.wellFormed hu).parent_lt _ _ (getElem?_of_type? ht) with hp | ⟨hsome, hlt⟩
      · simp [hp]
      · have hpresent : t.parent.isAbsent = false := by
          obtain ⟨p, hp⟩ := Option.isSome_iff_exists.mp hsome
          exact isAbsent_of_type? hp
        simp [hpresent, ih _ hlt t.parent rfl, hsome]

theorem Walked.count_creation (h : u.Linked) (hu : u.Addressable)
    (hw : u.Walked u.topLevelItems walk) (id : CreationId) :
    walk.count (.creation id) = if (u.creation? id).isSome then 1 else 0 := by
  rw [hw.count_eq h hu, ownerOf?]
  cases hc : u.creation? id with
  | none => rfl
  | some c =>
    have hmem := mem_outline_creations (Array.mem_of_getElem? (getElem?_of_creation? hc))
    rcases h.closed.enclosers c.bare hmem with he | he
    · have he : c.enclosing = .absent := he
      simp [he]
    · have he : u.outline.Names c.enclosing := he
      simp [he.1, hw.count_type h hu, names_iff.mp he]

theorem Walked.nodup (h : u.Linked) (hu : u.Addressable)
    (hw : u.Walked u.topLevelItems walk) : walk.Nodup := by
  refine List.nodup_iff_count_le_one.mpr fun item => ?_
  cases item with
  | type id =>
    rw [hw.count_type h hu]
    split <;> decide
  | creation id =>
    rw [hw.count_creation h hu]
    split <;> decide

-- ---------------------------------------------------------------------------
-- Bodies before their types
-- ---------------------------------------------------------------------------

theorem Walked.forall_mem {P : Item → Prop} (h : u.Walked items walk)
    (hitems : ∀ item ∈ items, P item)
    (hbody : ∀ id, P (.type id) → ∀ item ∈ u.bodyItems id, P item) : ∀ item ∈ walk, P item := by
  induction h with
  | nil => exact hitems
  | creation id _ ih =>
    obtain ⟨hid, hrest⟩ := List.forall_mem_cons.mp hitems
    exact List.forall_mem_cons.mpr ⟨hid, ih hrest⟩
  | type id _ _ ihinside ihrest =>
    obtain ⟨hid, hrest⟩ := List.forall_mem_cons.mp hitems
    exact List.forall_mem_append.mpr
      ⟨ihinside (hbody id hid), List.forall_mem_cons.mpr ⟨hid, ihrest hrest⟩⟩

theorem Walked.inside (h : u.Walked (u.bodyItems id) walk) : ∀ item ∈ walk, u.Inside item id :=
  h.forall_mem (fun _ => .direct) fun _ hnested _ hitem => .deeper hitem hnested

theorem Walked.mem_of_inside (h : u.Walked (u.bodyItems id) walk) (hin : u.Inside item id) :
    item ∈ walk := by
  induction hin with
  | direct hmem => exact h.perm.mem_iff.mpr (List.mem_append_left _ hmem)
  | @deeper item id nested hmem _ ih =>
    exact h.perm.mem_iff.mpr (List.mem_append_right _
      (List.mem_flatMap.mpr ⟨.type nested, ih h, hmem⟩))

theorem Inside.trans {nested : TypeId} (h : u.Inside item nested)
    (hin : u.Inside (.type nested) id) : u.Inside item id := by
  induction h with
  | direct hmem => exact .deeper hmem hin
  | deeper hmem _ ih => exact .deeper hmem (ih hin)

theorem Inside.index_lt (h : u.Linked) (hu : u.Addressable) {nested : TypeId}
    (hin : u.Inside (.type nested) id) : id.index < nested.index := by
  generalize hitem : Item.type nested = item at hin
  induction hin generalizing nested with
  | direct hmem => exact index_lt_of_mem_bodyItems h hu (hitem ▸ hmem)
  | deeper hmem _ ih =>
    exact Nat.lt_trans (ih rfl) (index_lt_of_mem_bodyItems h hu (hitem ▸ hmem))

/-- No type is walked before an item inside it. -/
theorem Walked.pairwise (h : u.Linked) (hu : u.Addressable) (hw : u.Walked items walk)
    (hnodup : walk.Nodup) :
    walk.Pairwise fun a b => ∀ id, a = .type id → ¬ u.Inside b id := by
  induction hw with
  | nil => exact .nil
  | creation id _ ih =>
    refine .cons (fun _ _ _ he => ?_) (ih (List.nodup_cons.mp hnodup).2)
    cases he
  | @type id inside rest walk hinside _ ihinside ihrest =>
    obtain ⟨hn, hnrest, hdisjoint⟩ := List.nodup_append.mp hnodup
    have hlater : ∀ b ∈ walk, ¬ u.Inside b id := fun b hb hin =>
      hdisjoint b (hinside.mem_of_inside hin) b (List.mem_cons_of_mem _ hb) rfl
    refine List.pairwise_append.mpr
      ⟨ihinside hn, .cons ?_ (ihrest (List.nodup_cons.mp hnrest).2), ?_⟩
    · rintro b hb _ ⟨⟩
      exact hlater b hb
    · rintro a ha b hb nested rfl hin
      have hnested := hinside.inside _ ha
      rcases List.mem_cons.mp hb with rfl | hb
      · exact Nat.lt_asymm (hnested.index_lt h hu) (hin.index_lt h hu)
      · exact hlater b hb (hin.trans hnested)

end CompilationUnit

end CtorArity
