import Mathlib.Algebra.Order.Ring.Nat
import Mathlib.Data.Set.Function
import Mathlib.Data.Set.Lattice
import Mathlib.Order.CompletePartialOrder

/-! # Byte memory of a 32-bit machine

Words are four bytes, the low one first, at any address. A store is described by the
bytes that it leaves alone, so that what is read elsewhere needs no case split. -/

namespace Patrons

abbrev Bytes := BitVec 32 → BitVec 8

namespace Bytes

/-- The `n` bytes from `p` on. -/
def span (p : BitVec 32) (n : ℕ) : Set (BitVec 32) := {b | (b - p).toNat < n}

abbrev word (a : BitVec 32) : Set (BitVec 32) := span a 4

def loadWord (m : Bytes) (a : BitVec 32) : BitVec 32 :=
  m (a + 3) ++ m (a + 2) ++ m (a + 1) ++ m a

def loadHalf (m : Bytes) (a : BitVec 32) : BitVec 16 := m (a + 1) ++ m a

def storeWord (m : Bytes) (a v : BitVec 32) : Bytes := fun b =>
  if (b - a).toNat < 4 then v.extractLsb' (8 * (b - a).toNat) 8 else m b

/-- The words at `a` and `b` have no byte in common. -/
def Apart (a b : BitVec 32) : Prop := 4 ≤ (a - b).toNat ∧ 4 ≤ (b - a).toNat

instance (a b : BitVec 32) : Decidable (Apart a b) := inferInstanceAs (Decidable (_ ∧ _))

theorem mem_span {p b : BitVec 32} {n : ℕ} : b ∈ span p n ↔ (b - p).toNat < n := Iff.rfl

theorem Apart.symm {a b : BitVec 32} (h : Apart a b) : Apart b a := ⟨h.2, h.1⟩

theorem Apart.ne {a b : BitVec 32} (h : Apart a b) : a ≠ b := by
  rintro rfl
  have h := h.1
  bv_omega

instance : Std.Symm Apart := ⟨fun _ _ => Apart.symm⟩

theorem disjoint_span {a b : BitVec 32} {n k : ℕ} (h₁ : k ≤ (a - b).toNat)
    (h₂ : n ≤ (b - a).toNat) : Disjoint (span a n) (span b k) := by
  rw [Set.disjoint_left]
  intro c ha hb
  rw [mem_span] at ha hb
  bv_omega

theorem Apart.disjoint {a b : BitVec 32} (h : Apart a b) : Disjoint (word a) (word b) :=
  disjoint_span h.1 h.2

/-! ## Loads -/

theorem load_congr {m m' : Bytes} {a : BitVec 32} (h : Set.EqOn m m' (word a)) :
    loadWord m a = loadWord m' a := by
  have h₀ : m a = m' a := h (by rw [mem_span]; bv_omega)
  have h₁ : m (a + 1) = m' (a + 1) := h (by rw [mem_span]; bv_omega)
  have h₂ : m (a + 2) = m' (a + 2) := h (by rw [mem_span]; bv_omega)
  have h₃ : m (a + 3) = m' (a + 3) := h (by rw [mem_span]; bv_omega)
  rw [loadWord, loadWord, h₀, h₁, h₂, h₃]

@[simp] theorem load_store_self (m : Bytes) (a v : BitVec 32) :
    loadWord (storeWord m a v) a = v := by
  have h₀ : (a - a).toNat = 0 := by bv_omega
  have h₁ : (a + 1 - a).toNat = 1 := by bv_omega
  have h₂ : (a + 2 - a).toNat = 2 := by bv_omega
  have h₃ : (a + 3 - a).toNat = 3 := by bv_omega
  simp only [loadWord, storeWord, h₀, h₁, h₂, h₃]
  ext i hi
  simp only [Nat.reduceLT, ↓reduceIte, BitVec.getElem_append, BitVec.getElem_extractLsb']
  split
  · rw [Nat.mul_zero, Nat.zero_add]
    exact BitVec.getLsbD_eq_getElem hi
  · split
    · rw [show 8 * 1 + (i - 8) = i by omega]
      exact BitVec.getLsbD_eq_getElem hi
    · split
      · rw [show 8 * 2 + (i - 8 - 8) = i by omega]
        exact BitVec.getLsbD_eq_getElem hi
      · rw [show 8 * 3 + (i - 8 - 8 - 8) = i by omega]
        exact BitVec.getLsbD_eq_getElem hi

/-! ## Stores -/

theorem eqOn_store {m : Bytes} {a v : BitVec 32} : Set.EqOn (storeWord m a v) m (word a)ᶜ := by
  intro b hb
  exact if_neg hb

theorem eqOn_store_of_disjoint {m : Bytes} {a v : BitVec 32} {S : Set (BitVec 32)}
    (h : Disjoint (word a) S) : Set.EqOn (storeWord m a v) m S :=
  eqOn_store.mono (Set.subset_compl_iff_disjoint_left.mpr h)

theorem load_store_of_apart {m : Bytes} {a b v : BitVec 32} (h : Apart a b) :
    loadWord (storeWord m a v) b = loadWord m b :=
  load_congr (eqOn_store_of_disjoint h.disjoint)

theorem eqOn_store_store {m m' : Bytes} {a v : BitVec 32} {S : Set (BitVec 32)}
    (h : Set.EqOn m m' S) : Set.EqOn (storeWord m a v) (storeWord m' a v) S := by
  intro b hb
  simp only [storeWord, h hb]

@[simp] theorem store_store (m : Bytes) (a u v : BitVec 32) :
    storeWord (storeWord m a u) a v = storeWord m a v := by
  funext b
  simp only [storeWord]
  split <;> rfl

/-! ## Strings of bytes -/

/-- The bytes lie in memory from `p` on. -/
def Stored (m : Bytes) : BitVec 32 → List (BitVec 8) → Prop
  | _, [] => True
  | p, b :: bs => m p = b ∧ Stored m (p + 1) bs

instance (m : Bytes) : ∀ p bs, Decidable (Stored m p bs)
  | _, [] => isTrue trivial
  | p, _ :: bs =>
    have := instDecidableStored m (p + 1) bs
    inferInstanceAs (Decidable (_ ∧ _))

theorem add_one_add_ofNat (p : BitVec 32) (n : ℕ) :
    p + 1 + BitVec.ofNat 32 n = p + BitVec.ofNat 32 (n + 1) := by
  rw [BitVec.ofNat_add, BitVec.add_assoc, BitVec.add_comm (BitVec.ofNat 32 n)]
  rfl

theorem stored_append {m : Bytes} {p : BitVec 32} {bs bs' : List (BitVec 8)} :
    Stored m p (bs ++ bs') ↔ Stored m p bs ∧ Stored m (p + BitVec.ofNat 32 bs.length) bs' := by
  induction bs generalizing p with
  | nil => simp [Stored]
  | cons b bs ih =>
      rw [List.cons_append, Stored, Stored, ih, add_one_add_ofNat, List.length_cons, and_assoc]

theorem stored_congr {m m' : Bytes} {p : BitVec 32} {bs : List (BitVec 8)}
    (hlength : bs.length < 2 ^ 32) (h : Set.EqOn m m' (span p bs.length)) (hs : Stored m p bs) :
    Stored m' p bs := by
  induction bs generalizing p with
  | nil => trivial
  | cons b bs ih =>
      rw [List.length_cons] at h hlength
      have hp : m p = m' p := h (by rw [mem_span]; bv_omega)
      refine ⟨hp ▸ hs.1, ih (by omega) (h.mono ?_) hs.2⟩
      intro c hc
      rw [mem_span] at hc ⊢
      bv_omega

end Bytes
end Patrons
