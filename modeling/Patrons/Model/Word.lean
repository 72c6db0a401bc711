import Mathlib.Algebra.Order.Ring.Int

/-! # Words of the 32-bit build

`size_t`, `jint` and pointers are 32 bits wide. A `jint` is read through
`BitVec.toInt`, so a conversion between `jint` and `size_t` keeps the bits. -/

namespace Patrons

abbrev Addr := BitVec 32

abbrev SizeT := BitVec 32

abbrev JInt := BitVec 32

abbrev JLong := BitVec 64

def KB : SizeT := 1024

def MB : SizeT := KB * KB

def kRegionSize : SizeT := 256 * KB

theorem MB_toNat : MB.toNat = 2 ^ 20 := rfl

theorem kRegionSize_toNat : kRegionSize.toNat = 2 ^ 18 := rfl

theorem toInt_pos_iff {w : JInt} : 0 < w.toInt ↔ 0 < w.toNat ∧ w.toNat < 2 ^ 31 := by
  rw [BitVec.toInt_eq_toNat_cond]
  split <;> omega

/-- The bytes of `n` mebibytes, as the code computes them. -/
theorem toNat_mul_MB (n : JInt) : ((n * MB).toNat : ℤ) = n.toInt * 2 ^ 20 % 2 ^ 32 := by
  rw [BitVec.toNat_mul, MB_toNat, BitVec.toInt_eq_toNat_cond]
  split <;> omega

theorem toNat_mul_kRegionSize (n : SizeT) :
    (n * kRegionSize).toNat = n.toNat * 2 ^ 18 % 2 ^ 32 := by
  rw [BitVec.toNat_mul, kRegionSize_toNat]

end Patrons
