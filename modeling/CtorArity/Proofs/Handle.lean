import CtorArity.CompilationUnit
import Mathlib.Data.List.Basic

/-!
# Handles and tables

The handles of a table's entries that pass a test, in table order. As long as
the table has fewer entries than there are words, a handle names one entry, so
such a list holds each of its handles once and is strictly increasing.
-/

namespace CtorArity

namespace Handle

variable {entity : Entity} {id : Handle entity}

theorem ofIndex_index (id : Handle entity) : ofIndex id.index = id := by
  apply index_inj
  apply index_ofIndex
  have := id.raw.toNat_lt
  simp only [index]
  omega

theorem ofIndex_inj (hm : m ≤ 0xFFFFFFFF) (hn : n ≤ 0xFFFFFFFF) :
    (ofIndex m : Handle entity) = ofIndex n ↔ m = n := by
  constructor
  · intro h
    have h := congrArg index h
    rwa [index_ofIndex hm, index_ofIndex hn] at h
  · rintro rfl
    rfl

theorem isAbsent_iff : id.isAbsent = true ↔ id = absent := by
  simp [isAbsent]

@[simp] theorem isAbsent_absent : (absent : Handle entity).isAbsent = true := by
  simp [isAbsent]

@[simp] theorem index_absent : (absent : Handle entity).index = 0xFFFFFFFF := rfl

theorem isAbsent_ofIndex (h : n < 0xFFFFFFFF) : (ofIndex n : Handle entity).isAbsent = false := by
  rw [Bool.eq_false_iff]
  intro ha
  have hi := congrArg index (isAbsent_iff.mp ha)
  rw [index_ofIndex (by omega), index_absent] at hi
  omega

theorem ne_absent (h : id.isAbsent = false) : id ≠ absent := by
  rintro rfl
  rw [isAbsent_absent] at h
  cases h

theorem index_lt (h : id.isAbsent = false) : id.index < 0xFFFFFFFF := by
  have hne : id.index ≠ 0xFFFFFFFF := fun he => ne_absent h (index_inj he)
  have hlt := id.raw.toNat_lt
  simp only [index] at hne ⊢
  omega

end Handle

-- ---------------------------------------------------------------------------
-- The handles of a table's entries
-- ---------------------------------------------------------------------------

section
variable {entity : Entity} {α β : Type} {test : α → Bool} {table : List α} {id : Handle entity}

/-- The handles of the entries that pass a test, in table order. -/
def handlesWhere (test : α → Bool) (table : List α) : List (Handle entity) :=
  (table.zipIdx.filter fun entry => test entry.1).map fun entry => .ofIndex entry.2

@[simp] theorem handlesWhere_nil : (handlesWhere test [] : List (Handle entity)) = [] := rfl

theorem handlesWhere_concat (test : α → Bool) (table : List α) (a : α) :
    (handlesWhere test (table ++ [a]) : List (Handle entity)) =
      handlesWhere test table ++ if test a then [.ofIndex table.length] else [] := by
  simp only [handlesWhere, List.zipIdx_append, List.filter_append, List.map_append,
    List.zipIdx_singleton]
  cases h : test a <;> simp [h]

theorem handlesWhere_map (test : β → Bool) (f : α → β) (table : List α) :
    (handlesWhere test (table.map f) : List (Handle entity)) =
      handlesWhere (fun a => test (f a)) table := by
  simp only [handlesWhere, List.zipIdx_map, List.filter_map, List.map_map]
  rfl

theorem mem_handlesWhere_of_getElem? {a : α} (ha : table[id.index]? = some a)
    (ht : test a = true) : id ∈ handlesWhere test table :=
  List.mem_map.mpr ⟨(a, id.index),
    List.mem_filter.mpr ⟨List.mem_zipIdx_iff_getElem?.mpr ha, ht⟩, id.ofIndex_index⟩

theorem mem_handlesWhere (h : table.length ≤ 0xFFFFFFFF) :
    id ∈ handlesWhere test table ↔ ∃ a, table[id.index]? = some a ∧ test a = true := by
  constructor
  · simp only [handlesWhere, List.mem_map, List.mem_filter, Prod.exists,
      List.mem_zipIdx_iff_getElem?]
    rintro ⟨a, i, ⟨hi, ht⟩, rfl⟩
    have hlt := (List.getElem?_eq_some_iff.mp hi).1
    exact ⟨a, by rwa [Handle.index_ofIndex (by omega)], ht⟩
  · rintro ⟨a, ha, ht⟩
    exact mem_handlesWhere_of_getElem? ha ht

theorem pairwise_handlesWhere (h : table.length ≤ 0xFFFFFFFF) :
    (handlesWhere test table : List (Handle entity)).Pairwise (·.index < ·.index) := by
  have hsorted : table.zipIdx.Pairwise fun a b => a.2 < b.2 := by
    rw [← List.pairwise_map (f := Prod.snd) (R := (· < ·)), List.zipIdx_map_snd]
    exact List.pairwise_lt_range'
  refine List.pairwise_map.mpr ((hsorted.filter _).imp_of_mem ?_)
  intro a b ha hb hab
  have ha := (List.getElem?_eq_some_iff.mp
    (List.mem_zipIdx_iff_getElem?.mp (List.mem_filter.mp ha).1)).1
  have hb := (List.getElem?_eq_some_iff.mp
    (List.mem_zipIdx_iff_getElem?.mp (List.mem_filter.mp hb).1)).1
  rwa [Handle.index_ofIndex (by omega), Handle.index_ofIndex (by omega)]

theorem nodup_handlesWhere (h : table.length ≤ 0xFFFFFFFF) :
    (handlesWhere test table : List (Handle entity)).Nodup :=
  (pairwise_handlesWhere h).imp fun hab he => by simp [he] at hab

theorem count_handlesWhere (h : table.length ≤ 0xFFFFFFFF) :
    (handlesWhere test table).count id = if (table[id.index]?).any test then 1 else 0 := by
  rw [(nodup_handlesWhere h).count]
  refine ite_congr ?_ (fun _ => rfl) (fun _ => rfl)
  rw [mem_handlesWhere h, eq_iff_iff]
  cases table[id.index]? <;> simp

theorem map_handlesWhere (h : table.length ≤ 0xFFFFFFFF) :
    (handlesWhere test table : List (Handle entity)).map (table[·.index]?) =
      (table.filter test).map some := by
  have hlook : ∀ entry ∈ table.zipIdx, table[(Handle.ofIndex entry.2 : Handle entity).index]? =
      some entry.1 := by
    intro entry hentry
    have hget := List.mem_zipIdx_iff_getElem?.mp hentry
    have hlt := (List.getElem?_eq_some_iff.mp hget).1
    rwa [Handle.index_ofIndex (by omega)]
  rw [handlesWhere, List.map_map]
  calc _ = (table.zipIdx.filter fun entry => test entry.1).map (some ∘ Prod.fst) :=
        List.map_congr_left fun entry hentry => hlook entry (List.mem_filter.mp hentry).1
    _ = ((table.zipIdx.filter (test ∘ Prod.fst)).map Prod.fst).map some := List.map_map.symm
    _ = (table.filter test).map some := by rw [← List.filter_map, List.zipIdx_map_fst]

theorem filterMap_handlesWhere (h : table.length ≤ 0xFFFFFFFF) :
    (handlesWhere test table : List (Handle entity)).filterMap (table[·.index]?) =
      table.filter test := by
  rw [← Function.id_comp fun id : Handle entity => table[id.index]?, ← List.filterMap_map,
    map_handlesWhere h, List.filterMap_map, Function.id_comp, List.filterMap_some]

end

-- ---------------------------------------------------------------------------
-- Look-ups in a unit
-- ---------------------------------------------------------------------------

namespace CompilationUnit

variable {u : CompilationUnit} {id : TypeId}

/-- Every declaration has a handle of its own, and none has the absent one. -/
structure Addressable (u : CompilationUnit) : Prop where
  types : u.types.size < 0xFFFFFFFF
  ctors : u.ctors.size < 0xFFFFFFFF
  creations : u.creations.size < 0xFFFFFFFF

theorem type?_eq_getElem? (h : u.types.size ≤ 0xFFFFFFFF) (id : TypeId) :
    u.type? id = u.types[id.index]? := by
  cases ha : id.isAbsent
  · simp [type?, ha]
  · rw [Handle.isAbsent_iff.mp ha, Array.getElem?_eq_none (by simpa using h)]
    rfl

theorem ctor?_eq_getElem? (h : u.ctors.size ≤ 0xFFFFFFFF) (id : CtorId) :
    u.ctor? id = u.ctors[id.index]? := by
  cases ha : id.isAbsent
  · simp [ctor?, ha]
  · rw [Handle.isAbsent_iff.mp ha, Array.getElem?_eq_none (by simpa using h)]
    rfl

theorem creation?_eq_getElem? (h : u.creations.size ≤ 0xFFFFFFFF) (id : CreationId) :
    u.creation? id = u.creations[id.index]? := by
  cases ha : id.isAbsent
  · simp [creation?, ha]
  · rw [Handle.isAbsent_iff.mp ha, Array.getElem?_eq_none (by simpa using h)]
    rfl

theorem isAbsent_of_type? (h : u.type? id = some t) : id.isAbsent = false :=
  Bool.eq_false_iff.mpr (Option.ite_none_left_eq_some.mp h).1

theorem getElem?_of_type? (h : u.type? id = some t) : u.types[id.index]? = some t :=
  (Option.ite_none_left_eq_some.mp h).2

theorem getElem?_of_ctor? {id : CtorId} (h : u.ctor? id = some c) :
    u.ctors[id.index]? = some c :=
  (Option.ite_none_left_eq_some.mp h).2

theorem getElem?_of_creation? {id : CreationId} (h : u.creation? id = some c) :
    u.creations[id.index]? = some c :=
  (Option.ite_none_left_eq_some.mp h).2

/-- The types around a type are found by its parents alone. -/
theorem ancestorsWithin_congr {u' : CompilationUnit}
    (h : ∀ id, (u'.type? id).map (·.parent) = (u.type? id).map (·.parent)) (steps : Nat)
    (id : TypeId) : u'.ancestorsWithin steps id = u.ancestorsWithin steps id := by
  have hread : ∀ (v : CompilationUnit) (n : Nat) (id : TypeId), v.ancestorsWithin (n + 1) id =
      if id.isAbsent then []
      else id :: ((v.type? id).map (·.parent)).elim [] (v.ancestorsWithin n) := by
    intro v n id
    rw [ancestorsWithin]
    cases v.type? id <;> rfl
  induction steps generalizing id with
  | zero => rfl
  | succ steps ih => rw [hread, hread, h, funext ih]

end CompilationUnit

end CtorArity
