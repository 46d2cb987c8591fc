import CtorArity.Dump
import CtorArity.Proofs.Handle
import Mathlib.Data.List.Flatten

/-!
# Places in a dump

A place is a type of a dump with its number in document order and the numbers
of the types around it. Lowering declares the types in this order, so the
number of a type is its place in the table. The lemmas here say what the list
of all places has for one of them: what stands directly inside it
(`childrenIn_placesAll`), what its chain of parents is (`around_placesAll`), and
which creations are its own (`filter_ownedCreationsAll`).
-/

namespace CtorArity

/-- A type of a dump where it stands. -/
structure Place where
  number : Nat
  /-- The numbers of the types around it, from the inside out. -/
  around : List Nat
  type : TypeDump

namespace TypeDump

mutual

/-- The places of a type and of all inside it, where this many come before. -/
def placesOf (number : Nat) (around : List Nat) : TypeDump → List Place
  | t@⟨_, _, _, _, _, _, nested, _⟩ =>
    ⟨number, around, t⟩ :: placesAll (number + 1) (number :: around) nested

def placesAll (number : Nat) (around : List Nat) : List TypeDump → List Place
  | [] => []
  | t :: rest => placesOf number around t ++ placesAll (number + count t) around rest

end

/-- The numbers of the types of a list, without those inside them. -/
def numbers (number : Nat) : List TypeDump → List Nat
  | [] => []
  | t :: rest => number :: numbers (number + count t) rest

variable {P : List TypeDump → Prop} {types : List TypeDump} {number : Nat} {around : List Nat}
  {p : Place}

-- ---------------------------------------------------------------------------
-- Recursion on a list of types
-- ---------------------------------------------------------------------------

mutual

theorem nested_induction (nil : P []) (cons : ∀ t rest, P t.nested → P rest → P (t :: rest)) :
    ∀ t : TypeDump, P t.nested
  | ⟨_, _, _, _, _, _, nested, _⟩ => forest_induction nil cons nested

/-- What holds of a list of types when it holds of what is inside its first type
and of the rest, holds of all lists of types. -/
theorem forest_induction (nil : P []) (cons : ∀ t rest, P t.nested → P rest → P (t :: rest)) :
    ∀ types : List TypeDump, P types
  | [] => nil
  | t :: rest => cons t rest (nested_induction nil cons t) (forest_induction nil cons rest)

end

theorem count_eq (t : TypeDump) : t.count = countAll t.nested + 1 := by
  cases t
  rfl

theorem countAll_cons (t : TypeDump) (rest : List TypeDump) :
    countAll (t :: rest) = t.count + countAll rest := rfl

theorem preorderAll_cons (t : TypeDump) (rest : List TypeDump) :
    preorderAll (t :: rest) = t :: (preorderAll t.nested ++ preorderAll rest) := by
  cases t
  rfl

theorem placesAll_cons (number : Nat) (around : List Nat) (t : TypeDump)
    (rest : List TypeDump) : placesAll number around (t :: rest) =
      ⟨number, around, t⟩ :: (placesAll (number + 1) (number :: around) t.nested ++
        placesAll (number + t.count) around rest) := by
  cases t
  rfl

theorem placesAll_append (number : Nat) (around : List Nat) (types more : List TypeDump) :
    placesAll number around (types ++ more) =
      placesAll number around types ++ placesAll (number + countAll types) around more := by
  induction types generalizing number with
  | nil => rfl
  | cons t rest ih =>
    rw [List.cons_append, placesAll, placesAll, ih, countAll_cons, List.append_assoc,
      Nat.add_assoc]

theorem declareStepsAll_cons (index : Nat) (parent : TypeId) (t : TypeDump)
    (rest : List TypeDump) : declareStepsAll index parent (t :: rest) =
      .declare (t.toSpec parent) ::
        ((t.constructors.map fun c => .addConstructor (.ofIndex index) c.toSpec) ++
          declareStepsAll (index + 1) (.ofIndex index) t.nested ++
          declareStepsAll (index + t.count) parent rest) := by
  cases t
  rfl

theorem ownedCreationsAll_cons (index : Nat) (t : TypeDump) (rest : List TypeDump) :
    ownedCreationsAll index (t :: rest) =
      ownedCreationsAll (index + 1) t.nested ++ t.creations.map (Handle.ofIndex index, ·) ++
        ownedCreationsAll (index + t.count) rest := by
  cases t
  rfl

-- ---------------------------------------------------------------------------
-- Numbers
-- ---------------------------------------------------------------------------

theorem map_type_placesAll (number : Nat) (around : List Nat) (types : List TypeDump) :
    (placesAll number around types).map (·.type) = preorderAll types := by
  induction types using forest_induction generalizing number around with
  | nil => rfl
  | cons t rest ihnested ihrest =>
    rw [placesAll_cons, preorderAll_cons, List.map_cons, List.map_append, ihnested, ihrest]

theorem map_number_placesAll (number : Nat) (around : List Nat) (types : List TypeDump) :
    (placesAll number around types).map (·.number) = List.range' number (countAll types) := by
  induction types using forest_induction generalizing number around with
  | nil => rfl
  | cons t rest ihnested ihrest =>
    have hsplit : countAll (t :: rest) = countAll t.nested + countAll rest + 1 := by
      rw [countAll_cons, count_eq]
      omega
    have hnext : number + t.count = number + 1 + countAll t.nested := by
      rw [count_eq]
      omega
    rw [placesAll_cons, List.map_cons, List.map_append, ihnested, ihrest, hsplit,
      List.range'_succ, hnext, List.range'_append_1]

theorem length_placesAll (number : Nat) (around : List Nat) (types : List TypeDump) :
    (placesAll number around types).length = countAll types := by
  simpa using congrArg List.length (map_number_placesAll number around types)

theorem length_preorderAll (types : List TypeDump) :
    (preorderAll types).length = countAll types := by
  rw [← map_type_placesAll 0 [] types, List.length_map, length_placesAll]

theorem number_placesAll (h : p ∈ placesAll number around types) :
    number ≤ p.number ∧ p.number < number + countAll types := by
  have hmem := List.mem_map_of_mem (f := fun q : Place => q.number) h
  rwa [map_number_placesAll, List.mem_range'_1] at hmem

-- ---------------------------------------------------------------------------
-- What stands around a place and directly inside it
-- ---------------------------------------------------------------------------

theorem around_placesAll (h : p ∈ placesAll number around types) :
    p.around = around ∨ ∃ q ∈ placesAll number around types,
      p.around = q.number :: q.around ∧ q.number < p.number := by
  induction types using forest_induction generalizing number around with
  | nil => cases h
  | cons t rest ihnested ihrest =>
    rw [placesAll_cons] at h ⊢
    rcases List.mem_cons.mp h with rfl | h
    · exact .inl rfl
    rcases List.mem_append.mp h with h | h
    · refine .inr ?_
      rcases ihnested h with haround | ⟨q, hq, haround⟩
      · exact ⟨_, List.mem_cons_self, haround, (number_placesAll h).1⟩
      · exact ⟨q, List.mem_cons_of_mem _ (List.mem_append_left _ hq), haround⟩
    · refine (ihrest h).imp_right ?_
      rintro ⟨q, hq, haround⟩
      exact ⟨q, List.mem_cons_of_mem _ (List.mem_append_right _ hq), haround⟩

/-- The numbers of the places that stand directly in a type, or in none. -/
def childrenIn (owner : Option Nat) (places : List Place) : List Nat :=
  (places.filter (·.around.head? == owner)).map (·.number)

theorem childrenIn_append (owner : Option Nat) (places more : List Place) :
    childrenIn owner (places ++ more) = childrenIn owner places ++ childrenIn owner more := by
  simp [childrenIn]

theorem childrenIn_cons_of_ne {owner : Option Nat} (h : p.around.head? ≠ owner)
    (places : List Place) : childrenIn owner (p :: places) = childrenIn owner places := by
  simp [childrenIn, h]

theorem childrenIn_eq_nil {owner : Option Nat} (hout : around.head? ≠ owner)
    (hrange : ∀ k, owner = some k → k < number ∨ number + countAll types ≤ k) :
    childrenIn owner (placesAll number around types) = [] := by
  refine List.map_eq_nil_iff.mpr (List.filter_eq_nil_iff.mpr fun p hp => ?_)
  rw [beq_iff_eq]
  rcases around_placesAll hp with haround | ⟨q, hq, haround, -⟩
  · rwa [haround]
  · rintro rfl
    rw [haround] at hrange
    have := number_placesAll hq
    have := hrange q.number rfl
    omega

theorem childrenIn_head (h : ∀ k, around.head? = some k → k < number) :
    childrenIn around.head? (placesAll number around types) = numbers number types := by
  induction types using forest_induction generalizing number around with
  | nil => rfl
  | cons t rest _ ihrest =>
    have hinside : childrenIn around.head? (placesAll (number + 1) (number :: around) t.nested) =
        [] := by
      refine childrenIn_eq_nil (fun he => ?_) fun k hk => ?_
      · exact Nat.lt_irrefl _ (h number he.symm)
      · exact .inl (Nat.lt_succ_of_lt (h k hk))
    have hrest := @ihrest (number + t.count) around fun k hk => Nat.lt_add_right _ (h k hk)
    rw [placesAll_cons, numbers, ← hrest, ← List.singleton_append, childrenIn_append,
      childrenIn_append, hinside]
    simp [childrenIn]

theorem childrenIn_placesAll (hp : p ∈ placesAll number around types)
    (h : ∀ k, around.head? = some k → k < number) :
    childrenIn (some p.number) (placesAll number around types) =
      numbers (p.number + 1) p.type.nested := by
  induction types using forest_induction generalizing number around with
  | nil => cases hp
  | cons t rest ihnested ihrest =>
    have hcount := t.count_eq
    have hout : around.head? ≠ some p.number := fun he =>
      Nat.lt_irrefl _ (Nat.lt_of_lt_of_le (h _ he) (number_placesAll hp).1)
    have hnext : ∀ k, around.head? = some k → k < number + t.count := fun k hk =>
      Nat.lt_add_right _ (h k hk)
    have hinner : ∀ k, (number :: around).head? = some k → k < number + 1 := by
      rintro _ ⟨⟩
      exact Nat.lt_succ_self number
    have hafter : p.number < number + t.count →
        childrenIn (some p.number) (placesAll (number + t.count) around rest) = [] := fun hlt =>
      childrenIn_eq_nil hout (by rintro _ ⟨⟩; exact .inl hlt)
    rw [placesAll_cons] at hp ⊢
    rw [childrenIn_cons_of_ne hout, childrenIn_append]
    rcases List.mem_cons.mp hp with rfl | hp
    · rw [hafter (Nat.lt_add_of_pos_right (by omega)), List.append_nil]
      exact childrenIn_head hinner
    rcases List.mem_append.mp hp with hp | hp
    · have hnumber := number_placesAll hp
      rw [hafter (by omega), List.append_nil]
      exact ihnested hp hinner
    · have hnumber := number_placesAll hp
      rw [ihrest hp hnext, childrenIn_eq_nil, List.nil_append]
      · intro he
        obtain rfl : number = p.number := by simpa using he
        omega
      · rintro _ ⟨⟩
        exact .inr (by omega)

-- ---------------------------------------------------------------------------
-- Creations and their owners
-- ---------------------------------------------------------------------------

theorem owner_ownedCreationsAll {entry : TypeId × CreationDump}
    (h : entry ∈ ownedCreationsAll number types) :
    ∃ k, number ≤ k ∧ k < number + countAll types ∧ entry.1 = .ofIndex k := by
  induction types using forest_induction generalizing number with
  | nil => cases h
  | cons t rest ihnested ihrest =>
    have hcount := t.count_eq
    rw [countAll_cons]
    rw [ownedCreationsAll_cons, List.append_assoc] at h
    rcases List.mem_append.mp h with h | h
    · obtain ⟨k, hlo, hhi, hk⟩ := ihnested h
      exact ⟨k, by omega, by omega, hk⟩
    rcases List.mem_append.mp h with h | h
    · obtain ⟨c, -, rfl⟩ := List.mem_map.mp h
      exact ⟨number, by omega, by omega, rfl⟩
    · obtain ⟨k, hlo, hhi, hk⟩ := ihrest h
      exact ⟨k, by omega, by omega, hk⟩

theorem filter_ownedCreationsAll_eq_nil {k : Nat} (hsize : number + countAll types ≤ 0xFFFFFFFF)
    (hk : k ≤ 0xFFFFFFFF) (h : k < number ∨ number + countAll types ≤ k) :
    (ownedCreationsAll number types).filter (·.1 == Handle.ofIndex k) = [] := by
  refine List.filter_eq_nil_iff.mpr fun entry hentry he => ?_
  obtain ⟨j, hlo, hhi, hj⟩ := owner_ownedCreationsAll hentry
  rw [beq_iff_eq, hj, Handle.ofIndex_inj (by omega) hk] at he
  omega

theorem filter_ownedCreationsAll (hp : p ∈ placesAll number around types)
    (hsize : number + countAll types ≤ 0xFFFFFFFF) :
    (ownedCreationsAll number types).filter (·.1 == Handle.ofIndex p.number) =
      p.type.creations.map (Handle.ofIndex p.number, ·) := by
  induction types using forest_induction generalizing number around with
  | nil => cases hp
  | cons t rest ihnested ihrest =>
    have hcount := t.count_eq
    have hle := number_placesAll hp
    rw [countAll_cons] at hsize hle
    have hafter : p.number < number + t.count → (ownedCreationsAll (number + t.count) rest).filter
        (·.1 == Handle.ofIndex p.number) = [] := fun hlt =>
      filter_ownedCreationsAll_eq_nil (by omega) (by omega) (.inl hlt)
    have hown : p.number ≠ number → (t.creations.map ((Handle.ofIndex number : TypeId), ·)).filter
        (·.1 == Handle.ofIndex p.number) = [] := by
      intro hne
      refine List.filter_eq_nil_iff.mpr fun entry hentry he => ?_
      obtain ⟨c, -, rfl⟩ := List.mem_map.mp hentry
      rw [beq_iff_eq, Handle.ofIndex_inj (by omega) (by omega)] at he
      exact hne he.symm
    rw [ownedCreationsAll_cons, List.filter_append, List.filter_append]
    rw [placesAll_cons] at hp
    rcases List.mem_cons.mp hp with rfl | hp
    · have hnumber : (⟨number, around, t⟩ : Place).number = number := rfl
      rw [filter_ownedCreationsAll_eq_nil, hafter (by omega)]
      · simp
      all_goals omega
    rcases List.mem_append.mp hp with hp | hp
    · have hnumber := number_placesAll hp
      rw [ihnested hp (by omega), hown (by omega), hafter (by omega), List.append_nil,
        List.append_nil]
    · have hnumber := number_placesAll hp
      rw [ihrest hp (by omega), hown (by omega), filter_ownedCreationsAll_eq_nil, List.nil_append,
        List.nil_append]
      all_goals omega

end TypeDump

end CtorArity
