import Mathlib.Algebra.Order.Ring.Int
import Mathlib.Data.BitVec

/-! # Signed LEB128

A number is cut into groups of seven bits, the low ones first; every byte but the last has its
high bit set, and the sign is bit 6 of the last. A number has many encodings. -/

namespace Patrons

namespace Leb128

/-- The seven bits of a byte that belong to the number. -/
def payload (b : BitVec 8) : ℕ := (b &&& 127).toNat

/-- The bytes encode the number. -/
inductive Encodes : List (BitVec 8) → ℤ → Prop where
  | last {b : BitVec 8} (h : b &&& 128 = 0) :
      Encodes [b] (payload b - if b &&& 64 ≠ 0 then 128 else 0)
  | more {b : BitVec 8} {bs : List (BitVec 8)} {v : ℤ} (h : b &&& 128 ≠ 0) (rest : Encodes bs v) :
      Encodes (b :: bs) (payload b + 128 * v)

/-- The bytes encode the numbers, one after the other, each with at most `limit` bytes. -/
inductive EncodesAll (limit : ℕ) : List (BitVec 8) → List ℤ → Prop where
  | nil : EncodesAll limit [] []
  | cons {bs bytes : List (BitVec 8)} {v : ℤ} {vs : List ℤ} (h : Encodes bs v)
      (hlimit : bs.length ≤ limit) (rest : EncodesAll limit bytes vs) :
      EncodesAll limit (bs ++ bytes) (v :: vs)

/-- The shortest encoding. -/
def encode (z : ℤ) : List (BitVec 8) :=
  if -64 ≤ z ∧ z < 64 then [BitVec.ofInt 8 z &&& 127]
  else (BitVec.ofInt 8 z ||| 128) :: encode (z / 128)
termination_by z.natAbs
decreasing_by omega

def encodeAll (vs : List ℤ) : List (BitVec 8) := vs.flatMap encode

theorem payload_eq (b : BitVec 8) : payload b = b.toNat % 128 := by
  have h : payload b = b.toNat &&& (2 ^ 7 - 1) := BitVec.toNat_and b 127
  rw [h, Nat.and_two_pow_sub_one_eq_mod]

theorem payload_lt (b : BitVec 8) : payload b < 128 := by
  rw [payload_eq]
  exact Nat.mod_lt _ (by decide)

/-! ## Every number has an encoding -/

theorem payload_ofInt (z : ℤ) : (payload (BitVec.ofInt 8 z) : ℤ) = z % 128 := by
  rw [payload_eq, BitVec.toNat_ofInt]
  omega

theorem payload_and (b : BitVec 8) : payload (b &&& 127) = payload b := by
  rw [payload, payload, BitVec.and_assoc, BitVec.and_self]

theorem payload_or (b : BitVec 8) : payload (b ||| 128) = payload b := by
  rw [payload, payload, BitVec.and_or_distrib_right]
  exact congrArg BitVec.toNat BitVec.or_zero

theorem sign_iff : ∀ b : BitVec 8, b &&& 64 ≠ 0 ↔ 64 ≤ payload b := by
  decide

theorem encodes_encode (z : ℤ) : Encodes (encode z) z := by
  fun_induction encode z with
  | case1 z h =>
      have hlast : (BitVec.ofInt 8 z &&& 127) &&& 128 = 0 := by
        rw [BitVec.and_assoc]
        exact BitVec.and_zero
      have hvalue := payload_ofInt z
      convert Encodes.last hlast using 1
      simp only [sign_iff, payload_and]
      split <;> omega
  | case2 z h ih =>
      have hmore : (BitVec.ofInt 8 z ||| 128) &&& 128 ≠ 0 := by
        rw [BitVec.and_or_distrib_right]
        intro hzero
        have hbit := congrArg (fun b => b.getLsbD 7) hzero
        simp at hbit
      have hvalue := payload_ofInt z
      convert Encodes.more hmore ih using 1
      rw [payload_or]
      omega

theorem length_encode {z : ℤ} {k : ℕ} (h : -(64 * 128 ^ k) ≤ z ∧ z < 64 * 128 ^ k) :
    (encode z).length ≤ k + 1 := by
  induction k generalizing z with
  | zero =>
      rw [encode, if_pos (by simpa using h)]
      rfl
  | succ k ih =>
      rw [encode]
      split
      · simp
      · rw [pow_succ] at h
        have hrest := @ih (z / 128) (by omega)
        simpa using hrest

/-- Numbers of few groups have their shortest encodings within the limit. -/
theorem encodesAll_encodeAll {k : ℕ} {vs : List ℤ}
    (h : ∀ v ∈ vs, -(64 * 128 ^ k) ≤ v ∧ v < 64 * 128 ^ k) :
    EncodesAll (k + 1) (encodeAll vs) vs := by
  induction vs with
  | nil => exact .nil
  | cons v vs ih =>
      have hrest : ∀ u ∈ vs, -(64 * 128 ^ k) ≤ u ∧ u < 64 * 128 ^ k :=
        fun u hu => h u (List.mem_cons_of_mem v hu)
      exact .cons (encodes_encode v) (length_encode (h v (by simp))) (ih hrest)

/-! ## Reading into a word

A reader of words ORs the groups into place. `a` is what it has read, below `2 ^ shift`. -/

section Word

variable {w a shift : ℕ} (b : BitVec 8)

theorem or_payload (h : a < 2 ^ shift) :
    BitVec.ofNat w a ||| ((b &&& 127).setWidth w <<< shift) =
      BitVec.ofNat w (a + payload b * 2 ^ shift) := by
  have hgroup : (b &&& 127).setWidth w <<< shift = BitVec.ofNat w (payload b <<< shift) := by
    apply BitVec.eq_of_toNat_eq
    rw [BitVec.toNat_shiftLeft, BitVec.toNat_setWidth, BitVec.toNat_ofNat, Nat.shiftLeft_eq,
      Nat.shiftLeft_eq, Nat.mod_mul_mod]
    rfl
  rw [hgroup, ← BitVec.ofNat_or, Nat.or_comm, ← Nat.shiftLeft_add_eq_or_of_lt h,
    Nat.shiftLeft_eq, Nat.add_comm]

theorem add_payload_lt (h : a < 2 ^ shift) : a + payload b * 2 ^ shift < 2 ^ (shift + 7) := by
  have hb := Nat.mul_le_mul_right (2 ^ shift) (Nat.le_of_lt_succ (payload_lt b))
  rw [Nat.pow_add]
  omega

/-- A sign that is shifted out of the word. -/
theorem ofInt_sub_pow (hshift : w ≤ shift) (z : ℤ) :
    BitVec.ofInt w (z - 2 ^ shift) = BitVec.ofInt w z := by
  have hdvd : (2 : ℤ) ^ w ∣ 2 ^ shift := pow_dvd_pow 2 hshift
  have hmod : (z - 2 ^ shift) % 2 ^ w = z % 2 ^ w := by
    rw [Int.sub_emod, Int.emod_eq_zero_of_dvd hdvd, Int.sub_zero, Int.emod_emod]
  apply BitVec.eq_of_toNat_eq
  rw [BitVec.toNat_ofInt, BitVec.toNat_ofInt]
  norm_cast at hmod ⊢
  rw [hmod]

/-- The sign, where it is not shifted out of the word. -/
theorem or_sign (h : a < 2 ^ shift) (hshift : shift < w) :
    BitVec.ofNat w a ||| -((1 : BitVec w) <<< shift) = BitVec.ofInt w (a - 2 ^ shift) := by
  have hpow : 2 ^ shift * 2 ^ (w - shift) = 2 ^ w := by
    rw [← Nat.pow_add]
    congr 1
    omega
  have hlt : 2 ^ shift < 2 ^ w := Nat.pow_lt_pow_right (by decide) hshift
  have hone : ((1 : BitVec w) <<< shift).toNat = 2 ^ shift := by
    rw [BitVec.toNat_shiftLeft]
    simp [Nat.shiftLeft_eq, Nat.mod_eq_of_lt hlt]
  have hones : -((1 : BitVec w) <<< shift) = BitVec.ofNat w ((2 ^ (w - shift) - 1) <<< shift) := by
    apply BitVec.eq_of_toNat_eq
    rw [BitVec.toNat_neg, hone, BitVec.toNat_ofNat, Nat.shiftLeft_eq, Nat.sub_mul, Nat.one_mul,
      Nat.mul_comm, hpow]
  have hsum : (2 ^ (w - shift) - 1) <<< shift + a = a + (2 ^ w - 2 ^ shift) := by
    rw [Nat.shiftLeft_eq, Nat.sub_mul, Nat.one_mul, Nat.mul_comm, hpow, Nat.add_comm]
  have hcast : ((a + (2 ^ w - 2 ^ shift) : ℕ) : ℤ) = a - 2 ^ shift + 2 ^ w := by
    push_cast [hlt.le]
    omega
  rw [hones, ← BitVec.ofNat_or, Nat.or_comm, ← Nat.shiftLeft_add_eq_or_of_lt h, hsum,
    ← BitVec.ofInt_natCast, hcast, ← ofInt_sub_pow le_rfl, Int.add_sub_cancel]

end Word

end Leb128
end Patrons
