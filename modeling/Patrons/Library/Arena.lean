import Mathlib.Algebra.Order.Ring.Nat
import Patrons.Library.Machine

/-! # Arenas of regions

A stretch of addresses is cut into regions of one size, which are handed out from its
start. It can be clamped to a smaller size that still holds the regions handed out. -/

namespace Patrons

/-- An arena from `base` to `bound`, mapped up to `top`, with `inUse` regions handed out. -/
structure Arena (R : ℕ) where
  base : ℕ
  top : ℕ
  bound : ℕ
  inUse : ℕ
  base_le_top : base ≤ top
  top_le_bound : top ≤ bound
  inUse_le : inUse ≤ (bound - base) / R

namespace Arena

variable {R : ℕ}

def capacity (a : Arena R) : ℕ := a.bound - a.base

def regions (a : Arena R) : ℕ := a.capacity / R

def used (a : Arena R) : ℕ := a.inUse * R

theorem used_le_capacity (a : Arena R) : a.used ≤ a.capacity :=
  Nat.le_trans (Nat.mul_le_mul_right R a.inUse_le) (Nat.div_mul_le_self _ R)

theorem base_add_capacity (a : Arena R) : a.base + a.capacity = a.bound := by
  have h₁ := a.base_le_top
  have h₂ := a.top_le_bound
  unfold capacity
  omega

/-- Hands out regions, or takes them back, so that `n` are in use. -/
def alloc (a : Arena R) (n : ℕ) (h : n ≤ a.regions) : Arena R :=
  { a with inUse := n, inUse_le := h }

variable [NeZero R]

/-- A size that does not hold the regions in use is refused. -/
def clamp (a : Arena R) (n : ℕ) : Arena R :=
  if h : a.used < n then
    { a with
      top := min a.top (a.base + n)
      bound := a.base + n
      base_le_top := by
        have h := a.base_le_top
        omega
      top_le_bound := Nat.min_le_right _ _
      inUse_le := by
        rw [Nat.add_sub_cancel_left]
        exact (Nat.le_div_iff_mul_le (Nat.pos_of_neZero R)).mpr (Nat.le_of_lt h) }
  else a

@[simp] theorem base_clamp (a : Arena R) (n : ℕ) : (a.clamp n).base = a.base := by
  unfold clamp
  split <;> rfl

@[simp] theorem inUse_clamp (a : Arena R) (n : ℕ) : (a.clamp n).inUse = a.inUse := by
  unfold clamp
  split <;> rfl

theorem top_clamp (a : Arena R) (n : ℕ) :
    (a.clamp n).top = if a.used < n then min a.top (a.base + n) else a.top := by
  unfold clamp
  split <;> rfl

theorem bound_clamp (a : Arena R) (n : ℕ) :
    (a.clamp n).bound = if a.used < n then a.base + n else a.bound := by
  unfold clamp
  split <;> rfl

theorem regions_clamp (a : Arena R) (n : ℕ) :
    (a.clamp n).regions = if a.used < n then n / R else a.regions := by
  rw [regions, capacity, bound_clamp, base_clamp]
  split
  · rw [Nat.add_sub_cancel_left]
  · rfl

theorem bound_clamp_le (a : Arena R) {n : ℕ} (h : n ≤ a.capacity) :
    (a.clamp n).bound ≤ a.bound := by
  have hb := a.base_add_capacity
  rw [bound_clamp]
  split <;> omega

/-! ## Runs -/

inductive Op where
  | clamp (n : ℕ)
  | alloc (n : ℕ)

/-- Clamps never ask for more than the arena has. -/
def machine (R : ℕ) [NeZero R] : Machine (Arena R) Op where
  step a
    | .clamp n => if 1 ≤ n ∧ n ≤ a.capacity then some (a.clamp n) else none
    | .alloc n => if h : n ≤ a.regions then some (a.alloc n h) else none

/-- No step moves the start, raises the bound or clamps beyond it. -/
def Shrinks (a : Arena R) (op : Op) (b : Arena R) : Prop :=
  b.base = a.base ∧ b.bound ≤ a.bound ∧ ∀ n, op = .clamp n → a.base + n ≤ a.bound

theorem shrinks_step {a b : Arena R} {op : Op} (h : (machine R).step a op = some b) :
    Shrinks a op b := by
  cases op with
  | clamp n =>
      simp only [machine, Option.ite_none_right_eq_some, Option.some.injEq] at h
      rcases h with ⟨⟨-, hn⟩, hb⟩
      rw [← hb]
      refine ⟨a.base_clamp n, a.bound_clamp_le hn, ?_⟩
      intro k hk
      have hbound := a.base_add_capacity
      cases hk
      omega
  | alloc n =>
      simp only [machine, Option.dite_none_right_eq_some, Option.some.injEq] at h
      rcases h with ⟨hn, hb⟩
      rw [← hb]
      exact ⟨rfl, Nat.le_refl _, by simp⟩

/-- Along a run the arena stays within the bounds that it had at the start. -/
theorem within_run {a : Arena R} (ops : List Op) :
    (machine R).Each (fun b op c => c.base = a.base ∧ c.bound ≤ a.bound ∧
      ∀ n, op = .clamp n → b.base + n ≤ a.bound) ops a := by
  apply Machine.each_of_step (I := fun b => b.base = a.base ∧ b.bound ≤ a.bound)
  · intro b op c hb hstep
    rcases shrinks_step hstep with ⟨h₁, h₂, h₃⟩
    refine ⟨⟨by omega, by omega, ?_⟩, by omega, by omega⟩
    intro n hn
    have h := h₃ n hn
    omega
  · exact ⟨rfl, Nat.le_refl _⟩

end Arena
end Patrons
