import CtorArity.Span

/-!
# Spans inside spans

Which span encloses which when one is put around two others, or is extended to
an offset that lies behind it.
-/

namespace CtorArity

theorem toNat_max (a b : UInt32) : (max a b).toNat = max a.toNat b.toNat := by
  have hmax : max a b = if a ≤ b then b else a := rfl
  rw [hmax]
  split
  · next h =>
    have h := UInt32.le_iff_toNat_le.mp h
    omega
  · next h =>
    have h := mt UInt32.le_iff_toNat_le.mpr h
    omega

theorem toNat_min (a b : UInt32) : (min a b).toNat = min a.toNat b.toNat := by
  have hmin : min a b = if a ≤ b then a else b := rfl
  rw [hmin]
  split
  · next h =>
    have h := UInt32.le_iff_toNat_le.mp h
    omega
  · next h =>
    have h := mt UInt32.le_iff_toNat_le.mpr h
    omega

theorem Saturating.lt_add_one {a : UInt32} (h : add a 1 ≠ 0xFFFFFFFF) : a < add a 1 := by
  have htop : (add a 1).toNat ≠ 0xFFFFFFFF := fun he => h (UInt32.toNat_inj.mp he)
  have hone : (1 : UInt32).toNat = 1 := rfl
  rw [toNat_add, hone] at htop
  rw [UInt32.lt_iff_toNat_lt, toNat_add, hone]
  omega

theorem ne_last_of_le {a b : UInt32} (hle : a ≤ b) (hb : b ≠ 0xFFFFFFFF) : a ≠ 0xFFFFFFFF := by
  rintro rfl
  have hlt := b.toNat_lt
  have hlast : (0xFFFFFFFF : UInt32).toNat = 0xFFFFFFFF := rfl
  rw [UInt32.le_iff_toNat_le, hlast] at hle
  exact hb (UInt32.toNat_inj.mp (by rw [hlast]; omega))

namespace Span

variable {s t r : Span} {offset : UInt32}

theorem encloses_iff : s.encloses t = true ↔ s.start ≤ t.start ∧ t.stop ≤ s.stop := by
  simp [encloses]

theorem encloses_trans (h : s.encloses t = true) (h' : t.encloses r = true) :
    s.encloses r = true := by
  rw [encloses_iff] at h h' ⊢
  exact ⟨UInt32.le_trans h.1 h'.1, UInt32.le_trans h'.2 h.2⟩

/-- Of two spans where the first starts first, the span around both holds what
stands from the start of the first to the stop of the second. -/
theorem cover_encloses (hstart : s.start ≤ r.start) (hstop : r.stop ≤ t.stop) :
    (s.cover t).encloses r = true := by
  rw [encloses_iff]
  simp only [cover, UInt32.le_iff_toNat_le, toNat_min, toNat_max] at hstart hstop ⊢
  omega

/-- The span with its stop moved to an offset that lies behind it. -/
def extend (offset : UInt32) (s : Span) : Span := { s with stop := max s.stop offset }

theorem le_stop_extend (offset : UInt32) (s : Span) :
    s.stop ≤ (s.extend offset).stop ∧ offset ≤ (s.extend offset).stop := by
  simp only [extend, UInt32.le_iff_toNat_le, toNat_max]
  omega

theorem encloses_extend (offset : UInt32) (h : s.encloses t = true) :
    (s.extend offset).encloses t = true := by
  rw [encloses_iff] at h ⊢
  exact ⟨h.1, UInt32.le_trans h.2 (le_stop_extend offset s).1⟩

theorem extend_encloses_extend (h : s.start ≤ t.start)
    (hstop : t.stop ≤ s.stop ∨ t.stop ≤ offset) :
    (s.extend offset).encloses (t.extend offset) = true := by
  rw [encloses_iff]
  refine ⟨h, ?_⟩
  simp only [extend, UInt32.le_iff_toNat_le, toNat_max] at hstop ⊢
  omega

theorem ordered_extend (offset : UInt32) (h : s.Ordered) : (s.extend offset).Ordered :=
  UInt32.le_trans h (le_stop_extend offset s).1

theorem extend_extend (offset : UInt32) (s : Span) :
    (s.extend offset).extend offset = s.extend offset := by
  have hstop : max (max s.stop offset) offset = max s.stop offset := by
    apply UInt32.toNat_inj.mp
    simp only [toNat_max]
    omega
  simp only [extend, hstop]

end Span

end CtorArity
