import CtorArity.Proofs.Naming
import CtorArity.Proofs.Rendering
import CtorArity.Proofs.Stretching

/-!
# Subtrees of a dump

The types inside a type have the numbers that follow its own (`within_iff_range`).
The steps of a dump can be cut where a type is declared, and again where the
creations of its subtree begin, so that what comes later belongs to a type around
it, to itself or to a later one (`split_declareStepsAll`,
`split_ownedCreationsAll`).
-/

namespace CtorArity

open TypeDump CompilationUnit

-- ---------------------------------------------------------------------------
-- Types inside a type have the numbers that follow it
-- ---------------------------------------------------------------------------

namespace TypeDump

variable {types : List TypeDump} {number : Nat} {around : List Nat} {p q : Place}

theorem placesAll_single (number : Nat) (around : List Nat) (t : TypeDump) :
    placesAll number around [t] =
      ⟨number, around, t⟩ :: placesAll (number + 1) (number :: around) t.nested := by
  rw [placesAll_cons, placesAll, List.append_nil]

theorem below_subset (hp : p ∈ placesAll number around types) :
    placesAll p.number p.around [p.type] ⊆ placesAll number around types := by
  induction types using forest_induction generalizing number around with
  | nil => cases hp
  | cons t rest ihnested ihrest =>
    have hself := placesAll_cons_eq_append number around t rest
    have hparts := placesAll_cons number around t rest
    rw [hparts] at hp
    rcases List.mem_cons.mp hp with rfl | hp
    · rw [hself]
      exact List.subset_append_left _ _
    rw [hparts]
    refine List.subset_cons_of_subset _ ?_
    rcases List.mem_append.mp hp with hp | hp
    · exact List.subset_append_of_subset_left _ (ihnested hp)
    · exact List.subset_append_of_subset_right _ (ihrest hp)

theorem within_of_mem_below (h : q ∈ placesAll p.number p.around [p.type]) :
    q.within p = true := by
  rw [placesAll_single] at h
  rw [within_eq]
  rcases List.mem_cons.mp h with rfl | h
  · exact List.mem_cons_self
  · exact List.mem_cons_of_mem _ (around_subset h List.mem_cons_self)

theorem mem_below_of_within (haround : ∀ k ∈ around, k < number)
    (hp : p ∈ placesAll number around types) (hq : q ∈ placesAll number around types)
    (h : q.within p = true) : q ∈ placesAll p.number p.around [p.type] := by
  induction types using forest_induction generalizing number around with
  | nil => cases hp
  | cons t rest ihnested ihrest =>
    have hcount := t.count_eq
    have hmem := (within_eq q p).mp h
    have hpnumber := number_placesAll hp
    -- The numbers around `q` are those around the list, or of the part that `q` is in.
    have hpart : ∀ {n a part}, q ∈ placesAll n a part → (∀ k ∈ a, k < number) →
        n ≤ p.number ∧ p.number < n + countAll part := by
      intro n a part hq ha
      rcases range_of_mem_placesAll hq _ hmem with hk | hk
      · have := ha _ hk
        omega
      · exact hk
    rw [placesAll_cons_eq_append] at hp hq
    rcases List.mem_append.mp hp with hp | hp <;> rcases List.mem_append.mp hq with hq | hq
    · rw [placesAll_single] at hp hq
      rcases List.mem_cons.mp hp with rfl | hp
      · rw [placesAll_single]
        exact List.mem_cons.mpr (List.mem_cons.mp hq)
      · have hinside := number_placesAll hp
        rcases List.mem_cons.mp hq with rfl | hq
        · rcases List.mem_cons.mp hmem with he | hk
          · have he : p.number = number := he
            omega
          · have := haround _ hk
            omega
        · refine ihnested ?_ hp hq
          intro k hk
          rcases List.mem_cons.mp hk with rfl | hk
          · exact Nat.lt_succ_self _
          · exact Nat.lt_succ_of_lt (haround k hk)
    · have hrest := hpart hq haround
      have hfirst := number_placesAll hp
      rw [countAll_cons, countAll] at hfirst
      omega
    · have hfirst := hpart hq haround
      have hrest := number_placesAll hp
      rw [countAll_cons, countAll] at hfirst
      omega
    · exact ihrest (fun k hk => Nat.lt_add_right _ (haround k hk)) hp hq

end TypeDump

namespace UnitDump

variable {d : UnitDump} {p q y : Place}

theorem within_trans (hp : p ∈ d.places) (hy : y ∈ d.places) (hq : q ∈ d.places)
    (hqy : q.within y = true) (hyp : y.within p = true) : q.within p = true := by
  have hy' := mem_below_of_within (by simp) hp hy hyp
  exact within_of_mem_below (below_subset hy' (mem_below_of_within (by simp) hy hq hqy))

/-- The types inside a type are those with the numbers that follow its own. -/
theorem within_iff_range (hp : p ∈ d.places) (hq : q ∈ d.places) :
    q.within p = true ↔ p.number ≤ q.number ∧ q.number < p.number + p.type.count := by
  have hcount : countAll [p.type] = p.type.count := by rw [countAll_cons, countAll, Nat.add_zero]
  constructor
  · intro h
    have hrange := number_placesAll (mem_below_of_within (by simp) hp hq h)
    rwa [hcount] at hrange
  · intro h
    rw [← hcount, ← List.mem_range'_1, ← map_number_placesAll _ p.around] at h
    obtain ⟨y, hy, hnumber⟩ := List.mem_map.mp h
    have hget := Lowered.getElem?_places (below_subset hp hy)
    rw [hnumber, Lowered.getElem?_places hq] at hget
    rw [Option.some.inj hget]
    exact within_of_mem_below hy

end UnitDump

-- ---------------------------------------------------------------------------
-- The steps before and after a type
-- ---------------------------------------------------------------------------

namespace TypeDump

variable {types : List TypeDump} {number : Nat} {around : List Nat} {q : Place}

theorem countP_declares_addConstructor (owner : TypeId) (ctors : List CtorDump) :
    (ctors.map fun c => Step.addConstructor owner c.toSpec).countP (·.declares) = 0 := by
  simp [List.countP_map, Function.comp_def, Step.declares]

theorem countP_declares_declareStepsAll (index : Nat) (parent : TypeId) (types : List TypeDump) :
    (declareStepsAll index parent types).countP (·.declares) = countAll types := by
  induction types using forest_induction generalizing index parent with
  | nil => rfl
  | cons t rest ihnested ihrest =>
    rw [declareStepsAll_cons, List.countP_cons, List.countP_append, List.countP_append,
      countP_declares_addConstructor, ihnested, ihrest, countAll_cons, count_eq]
    simp only [Step.declares, if_true]
    omega

theorem owner_declareStepsAll (index : Nat) (around : List Nat) (types : List TypeDump) :
    ∀ step ∈ declareStepsAll index (around.head?.elim .absent .ofIndex) types,
      ∀ owner ∈ step.owner?, ∃ k, owner = .ofIndex k ∧
        (k ∈ around ∨ index ≤ k ∧ k < index + countAll types) := by
  induction types using forest_induction generalizing index around with
  | nil => simp [declareStepsAll]
  | cons t rest ihnested ihrest =>
    have hcount := t.count_eq
    rw [declareStepsAll_cons, countAll_cons]
    refine List.forall_mem_cons.mpr ⟨?_, List.forall_mem_append.mpr
      ⟨List.forall_mem_append.mpr ⟨?_, ?_⟩, ?_⟩⟩
    · intro owner howner
      cases hhead : around.head? with
      | none => simp [Step.owner?, toSpec, Handle.present?, hhead] at howner
      | some k =>
        have hk : owner = .ofIndex k := by
          simp only [Step.owner?, toSpec, Handle.present?, hhead, Option.elim_some] at howner
          split at howner <;> simp_all
        exact ⟨k, hk, .inl (List.mem_of_head? hhead)⟩
    · intro step hstep owner howner
      obtain ⟨c, -, rfl⟩ := List.mem_map.mp hstep
      obtain rfl := Option.some.inj howner
      exact ⟨index, rfl, .inr ⟨Nat.le_refl _, by omega⟩⟩
    · intro step hstep owner howner
      obtain ⟨k, hk, hwhere⟩ := ihnested (index + 1) (index :: around) step hstep owner howner
      refine ⟨k, hk, ?_⟩
      rcases hwhere with hin | hrange
      · rcases List.mem_cons.mp hin with rfl | hin
        · exact .inr ⟨Nat.le_refl _, by omega⟩
        · exact .inl hin
      · exact .inr ⟨by omega, by omega⟩
    · intro step hstep owner howner
      obtain ⟨k, hk, hwhere⟩ := ihrest (index + t.count) around step hstep owner howner
      exact ⟨k, hk, hwhere.imp_right fun hrange => ⟨by omega, by omega⟩⟩

def NotBefore (q : Place) (bound : Nat) (owner : TypeId) : Prop :=
  ∃ k, owner = .ofIndex k ∧ (k ∈ q.around ∨ q.number ≤ k ∧ k < bound)

theorem NotBefore.mono {bound bound' : Nat} {owner : TypeId} (h : NotBefore q bound owner)
    (hle : bound ≤ bound') : NotBefore q bound' owner := by
  obtain ⟨k, hk, hwhere⟩ := h
  exact ⟨k, hk, hwhere.imp_right fun hrange => ⟨hrange.1, Nat.lt_of_lt_of_le hrange.2 hle⟩⟩

/-- The steps can be cut where the type of a place is declared. -/
theorem split_declareStepsAll (hq : q ∈ placesAll number around types) :
    ∃ before after, declareStepsAll number (around.head?.elim .absent .ofIndex) types =
        before ++ after ∧ number + before.countP (·.declares) = q.number ∧
      ∀ step ∈ after, ∀ owner ∈ step.owner?, NotBefore q (number + countAll types) owner := by
  induction types using forest_induction generalizing number around with
  | nil => cases hq
  | cons t rest ihnested ihrest =>
    have hcount := t.count_eq
    have hall := owner_declareStepsAll number around (t :: rest)
    have hcountAll := countAll_cons t rest
    have hsub := around_subset hq
    -- The cut is before the first type, among what is inside it, or among the rest.
    rw [placesAll_cons] at hq
    rcases List.mem_cons.mp hq with rfl | hq
    · exact ⟨[], _, rfl, rfl, hall⟩
    rw [declareStepsAll_cons] at hall ⊢
    have hrest : ∀ step ∈ declareStepsAll (number + t.count)
        (around.head?.elim .absent .ofIndex) rest, ∀ owner ∈ step.owner?,
        ∃ k, owner = .ofIndex k ∧ (k ∈ around ∨ number + t.count ≤ k ∧
          k < number + t.count + countAll rest) :=
      owner_declareStepsAll (number + t.count) around rest
    rcases List.mem_append.mp hq with hq | hq
    · have hrange := number_placesAll hq
      obtain ⟨before, after, hsteps, hbefore, hafter⟩ := ihnested hq
      rw [List.head?_cons, Option.elim_some] at hsteps
      refine ⟨.declare (t.toSpec (around.head?.elim .absent .ofIndex)) ::
        ((t.constructors.map fun c => .addConstructor (.ofIndex number) c.toSpec) ++ before),
        after ++ declareStepsAll (number + t.count) (around.head?.elim .absent .ofIndex) rest,
        ?_, ?_, List.forall_mem_append.mpr ⟨?_, ?_⟩⟩
      · simp [hsteps]
      · rw [List.countP_cons, List.countP_append, countP_declares_addConstructor, ← hbefore]
        simp only [Step.declares, if_true]
        omega
      · exact fun step hstep owner howner => (hafter step hstep owner howner).mono (by omega)
      · intro step hstep owner howner
        obtain ⟨k, hk, hwhere⟩ := hrest step hstep owner howner
        exact ⟨k, hk, hwhere.imp (fun hin => hsub hin) fun hrange => ⟨by omega, by omega⟩⟩
    · obtain ⟨before, after, hsteps, hbefore, hafter⟩ := ihrest hq
      refine ⟨.declare (t.toSpec (around.head?.elim .absent .ofIndex)) ::
        ((t.constructors.map fun c => .addConstructor (.ofIndex number) c.toSpec) ++
          declareStepsAll (number + 1) (.ofIndex number) t.nested ++ before), after, ?_, ?_, ?_⟩
      · simp [hsteps]
      · rw [List.countP_cons, List.countP_append, List.countP_append,
          countP_declares_addConstructor, countP_declares_declareStepsAll, ← hbefore]
        simp only [Step.declares, if_true]
        omega
      · exact fun step hstep owner howner => (hafter step hstep owner howner).mono (by omega)

/-- So can the creations, where those of the types from this one on begin. -/
theorem split_ownedCreationsAll (hq : q ∈ placesAll number around types) :
    ∃ before after, ownedCreationsAll number types = before ++ after ∧
      (∀ entry ∈ before, ∃ k, entry.1 = Handle.ofIndex k ∧ k < q.number) ∧
      ∀ entry ∈ after, NotBefore q (number + countAll types) entry.1 := by
  induction types using forest_induction generalizing number around with
  | nil => cases hq
  | cons t rest ihnested ihrest =>
    have hcount := t.count_eq
    have hcountAll := countAll_cons t rest
    have hall : ∀ entry ∈ ownedCreationsAll number (t :: rest),
        ∃ k, entry.1 = .ofIndex k ∧
          (k ∈ around ∨ number ≤ k ∧ k < number + countAll (t :: rest)) := by
      intro entry hentry
      obtain ⟨k, hlo, hhi, hk⟩ := owner_ownedCreationsAll hentry
      exact ⟨k, hk, .inr ⟨hlo, hhi⟩⟩
    rw [placesAll_cons] at hq
    rcases List.mem_cons.mp hq with rfl | hq
    · exact ⟨[], _, rfl, by simp, hall⟩
    rw [ownedCreationsAll_cons]
    have hown : ∀ entry ∈ t.creations.map ((Handle.ofIndex number : TypeId), ·),
        entry.1 = Handle.ofIndex number := by
      intro entry hentry
      obtain ⟨c, -, rfl⟩ := List.mem_map.mp hentry
      rfl
    rcases List.mem_append.mp hq with hq | hq
    · have hrange := number_placesAll hq
      have haround : number ∈ q.around := around_subset hq List.mem_cons_self
      obtain ⟨before, after, hsplit, hbefore, hafter⟩ := ihnested hq
      refine ⟨before, after ++ t.creations.map (Handle.ofIndex number, ·) ++
        ownedCreationsAll (number + t.count) rest, by simp [hsplit], hbefore,
        List.forall_mem_append.mpr ⟨List.forall_mem_append.mpr ⟨?_, ?_⟩, ?_⟩⟩
      · exact fun entry hentry => (hafter entry hentry).mono (by omega)
      · exact fun entry hentry => ⟨number, hown entry hentry, .inl haround⟩
      · intro entry hentry
        obtain ⟨k, hlo, hhi, hk⟩ := owner_ownedCreationsAll hentry
        exact ⟨k, hk, .inr ⟨by omega, by omega⟩⟩
    · have hrange := number_placesAll hq
      obtain ⟨before, after, hsplit, hbefore, hafter⟩ := ihrest hq
      refine ⟨ownedCreationsAll (number + 1) t.nested ++
        t.creations.map (Handle.ofIndex number, ·) ++ before, after, by simp [hsplit],
        List.forall_mem_append.mpr ⟨List.forall_mem_append.mpr ⟨?_, ?_⟩, hbefore⟩, ?_⟩
      · intro entry hentry
        obtain ⟨k, hlo, hhi, hk⟩ := owner_ownedCreationsAll hentry
        exact ⟨k, hk, by omega⟩
      · exact fun entry hentry => ⟨number, hown entry hentry, by omega⟩
      · exact fun entry hentry => (hafter entry hentry).mono (by omega)

end TypeDump

end CtorArity
