import CtorArity.Arity
import Mathlib.Data.List.Basic

/-!
# Arguments by position

Arguments go to parameters from left to right. A count can be bound when each
parameter that gets no argument may go without one, and no argument is left over
unless a variadic parameter at the end takes it. The arity of a list accepts every
such count, and no other if the plain parameters come first
(`isApplicable_bindable`).
-/

namespace CtorArity

namespace Param

variable {p : Param}

/-- May go without an argument. -/
def Omissible (p : Param) : Prop := p.hasDefault = true ∨ p.isVariadic = true

instance (p : Param) : Decidable p.Omissible := by
  unfold Omissible
  infer_instance

theorem isPlain_iff : p.isPlain = true ↔ ¬ p.Omissible := by
  simp [isPlain, Omissible]

end Param

def EndsVariadic (params : List Param) : Prop :=
  ∃ front last, params = front ++ [last] ∧ last.isVariadic = true

theorem endsVariadic_iff {params : List Param} :
    EndsVariadic params ↔ params.getLast?.any (·.isVariadic) = true := by
  constructor
  · rintro ⟨front, last, rfl, hvariadic⟩
    simpa using hvariadic
  · intro h
    rcases List.eq_nil_or_concat' params with rfl | ⟨front, last, rfl⟩
    · cases h
    · exact ⟨front, last, rfl, by simpa using h⟩

instance (params : List Param) : Decidable (EndsVariadic params) :=
  decidable_of_iff _ endsVariadic_iff.symm

/-- How many parameters take one argument each, a variadic one at the end not counted. -/
def positions (params : List Param) : Nat :=
  if EndsVariadic params then params.length - 1 else params.length

structure Bindable (params : List Param) (argCount : Nat) : Prop where
  /-- What gets no argument may go without. -/
  unfilled : ∀ p ∈ params.drop argCount, p.Omissible
  /-- What no single parameter takes is left to the last one. -/
  surplus : positions params < argCount → EndsVariadic params

instance (params : List Param) (argCount : Nat) : Decidable (Bindable params argCount) :=
  decidable_of_iff ((∀ p ∈ params.drop argCount, p.Omissible) ∧
    (positions params < argCount → EndsVariadic params)) ⟨fun h => ⟨h.1, h.2⟩, fun h => ⟨h.1, h.2⟩⟩

/-- No parameter that needs an argument follows one that may go without. -/
def PlainFirst (params : List Param) : Prop :=
  params.Pairwise fun p later => p.Omissible → later.Omissible

instance (params : List Param) : Decidable (PlainFirst params) := by
  unfold PlainFirst
  infer_instance

-- ---------------------------------------------------------------------------
-- The plain parameters at the front
-- ---------------------------------------------------------------------------

variable {params : List Param} {n : Nat}

theorem length_plain_le (h : ∀ p ∈ params.drop n, p.Omissible) :
    (params.takeWhile (·.isPlain)).length ≤ n := by
  induction params generalizing n with
  | nil => exact Nat.zero_le n
  | cons p rest ih =>
    rw [List.takeWhile_cons]
    split
    · next hplain =>
      cases n with
      | zero => exact absurd (h p List.mem_cons_self) (Param.isPlain_iff.mp hplain)
      | succ n => exact Nat.succ_le_succ (ih h)
    · exact Nat.zero_le n

theorem omissible_of_length_plain_le (hfirst : PlainFirst params)
    (h : (params.takeWhile (·.isPlain)).length ≤ n) : ∀ p ∈ params.drop n, p.Omissible := by
  induction params generalizing n with
  | nil => simp
  | cons p rest ih =>
    obtain ⟨hp, hrest⟩ := List.pairwise_cons.mp hfirst
    rw [List.takeWhile_cons] at h
    split at h
    · cases n with
      | zero => cases h
      | succ n => exact ih hrest (Nat.le_of_succ_le_succ h)
    · next hplain =>
      -- The first parameter that is not plain ends all need of arguments.
      have homissible : p.Omissible := by
        by_contra hnot
        exact hplain (Param.isPlain_iff.mpr hnot)
      intro q hq
      rcases List.mem_cons.mp (List.mem_of_mem_drop hq) with rfl | hq
      · exact homissible
      · exact hp q hq homissible

theorem length_plain_le_positions (params : List Param) :
    (params.takeWhile (·.isPlain)).length ≤ positions params := by
  have hle := (List.takeWhile_sublist (l := params) (·.isPlain)).length_le
  unfold positions
  split
  · next hends =>
    obtain ⟨front, last, rfl, hvariadic⟩ := hends
    refine length_plain_le fun p hp => ?_
    rw [List.length_append, List.length_singleton, Nat.add_sub_cancel, List.drop_left] at hp
    rw [List.mem_singleton.mp hp]
    exact .inr hvariadic
  · exact hle

-- ---------------------------------------------------------------------------
-- The arity
-- ---------------------------------------------------------------------------

namespace Arity

theorem variadic_iff : (ofParams params).variadic = true ↔ EndsVariadic params :=
  endsVariadic_iff.symm

theorem toNat_required (h : params.length < UInt32.size) :
    (ofParams params).required.toNat = (params.takeWhile (·.isPlain)).length := by
  have hle := (List.takeWhile_sublist (l := params) (·.isPlain)).length_le
  exact UInt32.toNat_ofNat_of_lt' (Nat.lt_of_le_of_lt hle h)

theorem toNat_total (h : params.length < UInt32.size) :
    (ofParams params).total.toNat = positions params := by
  have htotal : (ofParams params).total =
      .ofNat (params.length - if (ofParams params).variadic then 1 else 0) := rfl
  have hpositions : (params.length - if (ofParams params).variadic then 1 else 0) =
      positions params := by
    unfold positions
    simp only [variadic_iff]
    split <;> rfl
  have hlt : positions params < UInt32.size := hpositions ▸ Nat.lt_of_le_of_lt (Nat.sub_le _ _) h
  rw [htotal, hpositions, UInt32.toNat_ofNat_of_lt' hlt]

theorem accepts_iff (h : params.length < UInt32.size) {argCount : UInt32} :
    (ofParams params).accepts argCount = true ↔
      (params.takeWhile (·.isPlain)).length ≤ argCount.toNat ∧
        (positions params < argCount.toNat → EndsVariadic params) := by
  rw [accepts, Bool.and_eq_true, Bool.or_eq_true, decide_eq_true_iff, decide_eq_true_iff,
    variadic_iff, UInt32.le_iff_toNat_le, UInt32.le_iff_toNat_le, toNat_required h, toNat_total h,
    or_comm, or_iff_not_imp_left, Nat.not_le]

end Arity

/-- The arity of a list accepts each count that can be bound by position, and no
other if the plain parameters come first. It never asks for more arguments than
there are positions, and with a variadic parameter at the end these make up the
whole list. -/
theorem isApplicable_bindable (h : params.length < UInt32.size) :
    (∀ n : UInt32, Bindable params n.toNat → isApplicable params n = true) ∧
      (PlainFirst params → ∀ n : UInt32, isApplicable params n = true → Bindable params n.toNat) ∧
      (Arity.ofParams params).required ≤ (Arity.ofParams params).total ∧
      ((Arity.ofParams params).total.toNat +
        if (Arity.ofParams params).variadic then 1 else 0) = params.length := by
  refine ⟨fun n hbind => ?_, fun hfirst n haccepts => ?_, ?_, ?_⟩
  · exact (Arity.accepts_iff h).mpr ⟨length_plain_le hbind.unfilled, hbind.surplus⟩
  · obtain ⟨hrequired, hsurplus⟩ := (Arity.accepts_iff h).mp haccepts
    exact ⟨omissible_of_length_plain_le hfirst hrequired, hsurplus⟩
  · rw [UInt32.le_iff_toNat_le, Arity.toNat_required h, Arity.toNat_total h]
    exact length_plain_le_positions params
  · rw [Arity.toNat_total h, positions]
    simp only [Arity.variadic_iff]
    split
    · next hends =>
      obtain ⟨front, last, rfl, -⟩ := hends
      simp
    · rfl

example :
    let params : List Param := [⟨"a", true, false⟩, ⟨"b", false, false⟩]
    isApplicable params 1 = true ∧ ¬ Bindable params 1 := by decide

/-- Parameters of all kinds, one of them variadic and with a default at once. -/
def assorted : List Param :=
  [⟨"a", false, false⟩, ⟨"b", true, true⟩, ⟨"c", true, false⟩, ⟨"rest", false, true⟩]

theorem isApplicable_bindable_assorted :
    assorted.length < UInt32.size ∧ PlainFirst assorted ∧
      (Bindable assorted 1 ∧ isApplicable assorted 1 = true) ∧
      (isApplicable assorted 9 = true ∧ Bindable assorted 9) ∧
      isApplicable assorted 0 = false ∧ ¬ Bindable assorted 0 := by
  have hlength : assorted.length < UInt32.size := by decide
  have hfirst : PlainFirst assorted := by decide
  have hone : Bindable assorted 1 := by decide
  have hnine : isApplicable assorted 9 = true := by decide
  obtain ⟨haccepts, hbinds, -⟩ := isApplicable_bindable hlength
  exact ⟨hlength, hfirst, ⟨hone, haccepts 1 hone⟩, ⟨hnine, hbinds hfirst 9 hnine⟩, by decide,
    by decide⟩

end CtorArity
