/-!
# Counts and offsets that stop at the top

Source offsets and argument counts are 32-bit words. Arithmetic on them never
wraps: a result that does not fit becomes the largest word.
-/

namespace CtorArity.Saturating

def ofNat (n : Nat) : UInt32 :=
  UInt32.ofNat (min n 0xFFFFFFFF)

def add (a b : UInt32) : UInt32 :=
  ofNat (a.toNat + b.toNat)

def mul (a b : UInt32) : UInt32 :=
  ofNat (a.toNat * b.toNat)

theorem toNat_ofNat (n : Nat) : (ofNat n).toNat = min n 0xFFFFFFFF := by
  simp only [ofNat, UInt32.toNat_ofNat']
  omega

theorem toNat_add (a b : UInt32) : (add a b).toNat = min (a.toNat + b.toNat) 0xFFFFFFFF :=
  toNat_ofNat _

theorem le_add (a b : UInt32) : a ≤ add a b := by
  have := a.toNat_lt
  rw [UInt32.le_iff_toNat_le, toNat_add]
  omega

end CtorArity.Saturating
