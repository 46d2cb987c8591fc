import CtorArity.Proofs.Places
import CtorArity.Proofs.Findings
import Mathlib.Data.List.Forall2

/-!
# Types known by name

Where all types of a dump have names of their own, a name says as much as a
number does. Then the place of a type among the others does not show: whether a
place stands inside another one can be read off the names below that one
(`within_iff`).
-/

namespace CtorArity

namespace TypeDump

variable {types more : List TypeDump} {number first : Nat} {around outer : List Nat}
  {p q : Place} {t : TypeDump}

theorem preorder_eq (t : TypeDump) : preorder t = t :: preorderAll t.nested := by
  cases t
  rfl

theorem preorderAll_eq_flatMap (types : List TypeDump) :
    preorderAll types = types.flatMap preorder := by
  induction types with
  | nil => rfl
  | cons t rest ih => rw [preorderAll, ih, List.flatMap_cons]

theorem preorder_subset (h : t ∈ preorderAll types) : preorder t ⊆ preorderAll types := by
  induction types using forest_induction with
  | nil => cases h
  | cons s rest ihnested ihrest =>
    rw [preorderAll_cons] at h ⊢
    rcases List.mem_cons.mp h with rfl | h
    · rw [preorder_eq]
      exact List.cons_subset_cons _ (List.subset_append_left _ _)
    rcases List.mem_append.mp h with h | h
    · exact fun r hr => List.mem_cons_of_mem s (List.mem_append_left _ (ihnested h hr))
    · exact fun r hr => List.mem_cons_of_mem s (List.mem_append_right _ (ihrest h hr))

theorem type_mem_preorderAll (h : p ∈ placesAll number around types) :
    p.type ∈ preorderAll types := by
  rw [← map_type_placesAll number around]
  exact List.mem_map_of_mem h

theorem placesAll_cons_eq_append (number : Nat) (around : List Nat) (t : TypeDump)
    (rest : List TypeDump) : placesAll number around (t :: rest) =
      placesAll number around [t] ++ placesAll (number + t.count) around rest := by
  simp only [placesAll, List.append_nil]

theorem forall₂_numbers (number : Nat) (around : List Nat) (types : List TypeDump) :
    List.Forall₂ (fun t k => placesAll k around [t] ⊆ placesAll number around types) types
      (numbers number types) := by
  induction types generalizing number with
  | nil => exact .nil
  | cons t rest ih =>
    rw [placesAll_cons_eq_append]
    refine .cons (List.subset_append_left _ _) ((ih _).imp ?_)
    exact fun s k hsub => List.subset_append_of_subset_right _ hsub

-- ---------------------------------------------------------------------------
-- Inside by number and inside by name
-- ---------------------------------------------------------------------------

theorem range_of_mem_placesAll (h : p ∈ placesAll number around types) :
    ∀ k ∈ p.number :: p.around, k ∈ around ∨ number ≤ k ∧ k < number + countAll types := by
  induction types using forest_induction generalizing number around with
  | nil => cases h
  | cons t rest ihnested ihrest =>
    have hcount := t.count_eq
    rw [countAll_cons]
    rw [placesAll_cons] at h
    intro k hk
    rcases List.mem_cons.mp h with rfl | h
    · rcases List.mem_cons.mp hk with rfl | hk
      · exact .inr ⟨Nat.le_refl _, by omega⟩
      · exact .inl hk
    rcases List.mem_append.mp h with h | h
    · rcases ihnested h k hk with hk | hk
      · rcases List.mem_cons.mp hk with rfl | hk
        · exact .inr ⟨Nat.le_refl _, by omega⟩
        · exact .inl hk
      · exact .inr ⟨by omega, by omega⟩
    · refine (ihrest h k hk).imp_right fun hk => ?_
      exact ⟨by omega, by omega⟩

theorem around_subset (h : p ∈ placesAll number around types) : around ⊆ p.around := by
  induction types using forest_induction generalizing number around with
  | nil => cases h
  | cons t rest ihnested ihrest =>
    rw [placesAll_cons] at h
    rcases List.mem_cons.mp h with rfl | h
    · exact List.Subset.refl _
    rcases List.mem_append.mp h with h | h
    · exact List.Subset.trans (List.subset_cons_self _ _) (ihnested h)
    · exact ihrest h

theorem within_eq (p q : Place) :
    p.within q = true ↔ q.number ∈ p.number :: p.around := by
  rw [Place.within, List.contains_iff_mem]

/-- Places of lists that share neither a number nor a name are apart by both. -/
theorem apart (hp : p ∈ placesAll number around types) (hq : q ∈ placesAll first outer more)
    (haround : ∀ k ∈ around, k < first ∨ first + countAll more ≤ k)
    (hrange : number + countAll types ≤ first ∨ first + countAll more ≤ number)
    (hnames : List.Disjoint ((preorderAll types).map (·.name)) ((preorderAll more).map (·.name))) :
    p.within q = true ↔ p.type.name ∈ (preorder q.type).map (·.name) := by
  have hnumber := number_placesAll hq
  have hout : ¬ p.within q = true := by
    rw [within_eq]
    intro hmem
    rcases range_of_mem_placesAll hp _ hmem with hk | hk
    · have := haround _ hk
      omega
    · omega
  have hunnamed : p.type.name ∉ (preorder q.type).map (·.name) := by
    intro hmem
    have hsub := List.map_subset (·.name) (preorder_subset (type_mem_preorderAll hq))
    exact hnames (List.mem_map_of_mem (type_mem_preorderAll hp)) (hsub hmem)
  exact iff_of_false hout hunnamed

theorem within_iff_single (hname : t.name ∉ (preorderAll t.nested).map (·.name))
    (haround : ∀ k ∈ around, k < number)
    (hinside : p ∈ placesAll (number + 1) (number :: around) t.nested →
      q ∈ placesAll (number + 1) (number :: around) t.nested →
      (p.within q = true ↔ p.type.name ∈ (preorder q.type).map (·.name)))
    (hp : p ∈ placesAll number around [t]) (hq : q ∈ placesAll number around [t]) :
    p.within q = true ↔ p.type.name ∈ (preorder q.type).map (·.name) := by
  rw [placesAll_cons] at hp hq
  simp only [placesAll, List.append_nil] at hp hq
  rcases List.mem_cons.mp hp with rfl | hp <;> rcases List.mem_cons.mp hq with rfl | hq
  · simp [within_eq, preorder_eq]
  · have hnumber := number_placesAll hq
    refine iff_of_false ?_ fun hmem => hname ?_
    · rw [within_eq]
      intro hmem
      rcases List.mem_cons.mp hmem with he | hmem
      · have hhead : q.number = number := he
        omega
      · have hlt := haround _ hmem
        omega
    · exact List.map_subset (·.name) (preorder_subset (type_mem_preorderAll hq)) hmem
  · refine iff_of_true ?_ ?_
    · rw [within_eq]
      exact List.mem_cons_of_mem _ (around_subset hp List.mem_cons_self)
    · rw [preorder_eq]
      exact List.mem_cons_of_mem _ (List.mem_map_of_mem (type_mem_preorderAll hp))
  · exact hinside hp hq

/-- With distinct names, a place stands inside another one if its name is one of
those below that one. -/
theorem within_iff (hnames : ((preorderAll types).map (·.name)).Nodup)
    (haround : ∀ k ∈ around, k < number) (hp : p ∈ placesAll number around types)
    (hq : q ∈ placesAll number around types) :
    p.within q = true ↔ p.type.name ∈ (preorder q.type).map (·.name) := by
  induction types using forest_induction generalizing number around with
  | nil => cases hp
  | cons t rest ihnested ihrest =>
    have hcount : number + countAll [t] ≤ number + t.count := Nat.le_refl _
    have hsingle : preorderAll [t] = preorder t := List.append_nil _
    have hsplit : (preorderAll (t :: rest)).map (·.name) =
        (preorder t).map (·.name) ++ (preorderAll rest).map (·.name) := List.map_append
    rw [hsplit, List.nodup_append'] at hnames
    obtain ⟨hown, hrest, hdisjoint⟩ := hnames
    rw [placesAll_cons_eq_append] at hp hq
    -- The first type, with all inside it, shares neither a number nor a name with the rest.
    rcases List.mem_append.mp hp with hp | hp <;> rcases List.mem_append.mp hq with hq | hq
    · rw [preorder_eq, List.map_cons, List.nodup_cons] at hown
      refine within_iff_single hown.1 haround (ihnested hown.2 fun k hk => ?_) hp hq
      rcases List.mem_cons.mp hk with rfl | hk
      · exact Nat.lt_succ_self _
      · exact Nat.lt_succ_of_lt (haround k hk)
    · refine apart hp hq (fun k hk => .inl (Nat.lt_add_right _ (haround k hk))) (.inl hcount) ?_
      rwa [hsingle]
    · refine apart hp hq (fun k hk => .inl (haround k hk)) (.inr hcount) ?_
      rw [hsingle]
      exact List.disjoint_symm hdisjoint
    · exact ihrest hrest (fun k hk => Nat.lt_add_right _ (haround k hk)) hp hq

end TypeDump

end CtorArity
