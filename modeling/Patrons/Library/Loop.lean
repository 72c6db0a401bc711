import Mathlib.Logic.Basic
import Mathlib.Data.List.Basic

/-! # Loops over an iterator that reads a store

The iterator reads the store at every step, and the body of the loop writes it. Where the
writes keep what the iterator reads, the loop runs over the list that the iterator yields
from the store at the start. -/

namespace Patrons

namespace Loop

variable {σ ι α ρ : Type*}

/-- The elements that an iterator yields from `i` on while the store stays as it is. -/
inductive Yields (read : ι → Option (α × ι)) : ι → List α → Prop where
  | nil {i : ι} (h : read i = none) : Yields read i []
  | cons {i j : ι} {a : α} {as : List α} (h : read i = some (a, j))
      (rest : Yields read j as) : Yields read i (a :: as)

theorem Yields.congr {read : ι → Option (α × ι)} {i j : ι} {as : List α} (h : Yields read j as)
    (hread : read i = read j) : Yields read i as := by
  cases h with
  | nil h => exact .nil (hread.trans h)
  | cons h rest => exact .cons (hread.trans h) rest

def collect (read : ι → Option (α × ι)) : ℕ → ι → Option (List α)
  | 0, _ => none
  | fuel + 1, i =>
    match read i with
    | none => some []
    | some (a, j) => (collect read fuel j).map (a :: ·)

theorem yields_of_collect {read : ι → Option (α × ι)} {n : ℕ} {i : ι} {as : List α}
    (h : collect read n i = some as) : Yields read i as := by
  induction n generalizing i as with
  | zero => exact absurd h (by simp [collect])
  | succ n ih =>
      rw [collect] at h
      cases hread : read i with
      | none =>
          rw [hread] at h
          obtain rfl := Option.some.inj h
          exact .nil hread
      | some r =>
          rw [hread] at h
          obtain ⟨bs, hbs, rfl⟩ := Option.map_eq_some_iff.mp h
          exact .cons hread (ih hbs)

/-- The loop with at most `fuel` calls of `next`. The body ends it by giving a result. -/
def whileNext (next : σ → ι → Option (α × ι)) (body : α → σ → Option ρ × σ) :
    ℕ → ι → σ → Option (Option ρ × σ)
  | 0, _, _ => none
  | fuel + 1, i, s =>
    match next s i with
    | none => some (none, s)
    | some (a, j) =>
      match body a s with
      | (some r, t) => some (some r, t)
      | (none, t) => whileNext next body fuel j t

def forEach (body : α → σ → Option ρ × σ) : List α → σ → Option ρ × σ
  | [], s => (none, s)
  | a :: as, s =>
    match body a s with
    | (some r, t) => (some r, t)
    | (none, t) => forEach body as t

variable {next : σ → ι → Option (α × ι)} {body body' : α → σ → Option ρ × σ}

/-- `I` says what of the store the body keeps, `J` where the iterator can be. -/
theorem whileNext_eq_forEach {read : ι → Option (α × ι)} {I : σ → Prop} {J : ι → Prop}
    (hnext : ∀ t i, I t → J i → next t i = read i)
    (hJ : ∀ i a j, J i → read i = some (a, j) → J j)
    {as : List α} {i : ι} (has : Yields read i as) (hi : J i)
    (hbody : ∀ a ∈ as, ∀ t, I t → body a t = body' a t ∧ I (body a t).2)
    {t : σ} (ht : I t) {fuel : ℕ} (hfuel : as.length < fuel) :
    whileNext next body fuel i t = some (forEach body' as t) := by
  induction has generalizing t fuel with
  | nil h =>
      obtain ⟨n, rfl⟩ : ∃ n, fuel = n + 1 := ⟨fuel - 1, by omega⟩
      rw [whileNext, hnext t _ ht hi, h]
      rfl
  | @cons i j a as h rest ih =>
      obtain ⟨n, rfl⟩ : ∃ n, fuel = n + 1 := ⟨fuel - 1, by omega⟩
      obtain ⟨heq, hkeep⟩ := hbody a (by simp) t ht
      rw [whileNext, hnext t _ ht hi, h]
      simp only [forEach]
      rw [← heq]
      cases hb : body a t with
      | mk r u =>
          cases r with
          | some r => rfl
          | none =>
              rw [hb] at hkeep
              refine ih (hJ i a j hi h) ?_ hkeep ?_
              · intro b hb'
                exact hbody b (List.mem_cons_of_mem a hb')
              · rw [List.length_cons] at hfuel
                omega

/-- A loop ends, whatever its body does to the store, where each call of `next` decreases `μ`.
`J` says where the iterator can be. -/
theorem whileNext_ends {J : ι → Prop} {μ : ι → ℕ}
    (hnext : ∀ s i a j, J i → next s i = some (a, j) → J j ∧ μ j < μ i) {fuel : ℕ} {i : ι}
    (hi : J i) (hfuel : μ i < fuel) (s : σ) : ∃ r, whileNext next body fuel i s = some r := by
  induction fuel generalizing i s with
  | zero => exact absurd hfuel (Nat.not_lt_zero _)
  | succ fuel ih =>
      rw [whileNext]
      cases hread : next s i with
      | none => exact ⟨_, rfl⟩
      | some r =>
          obtain ⟨hj, hlt⟩ := hnext s i r.1 r.2 hi hread
          simp only
          cases body r.1 s with
          | mk q t =>
              cases q with
              | some q => exact ⟨_, rfl⟩
              | none => exact ih hj (by omega) t

theorem forEach_map {β : Type*} (f : β → α) (bs : List β) (s : σ) :
    forEach body (bs.map f) s = forEach (fun b => body (f b)) bs s := by
  induction bs generalizing s with
  | nil => rfl
  | cons b bs ih =>
      simp only [List.map_cons, forEach]
      cases body (f b) s with
      | mk r t =>
          cases r with
          | some r => rfl
          | none => exact ih t

theorem forEach_append (as bs : List α) (s : σ) :
    forEach body (as ++ bs) s =
      match forEach body as s with
      | (some r, t) => (some r, t)
      | (none, t) => forEach body bs t := by
  induction as generalizing s with
  | nil => rfl
  | cons a as ih =>
      simp only [List.cons_append, forEach]
      cases body a s with
      | mk r t =>
          cases r with
          | some r => rfl
          | none => exact ih t

/-- What holds of every result that the body gives holds of the result of the loop. -/
theorem forEach_result {P : ρ → Prop} (hbody : ∀ a s r, (body a s).1 = some r → P r)
    {as : List α} {s : σ} {r : ρ} (h : (forEach body as s).1 = some r) : P r := by
  induction as generalizing s with
  | nil => exact absurd h (by simp [forEach])
  | cons a as ih =>
      rw [forEach] at h
      cases hb : body a s with
      | mk q t =>
          rw [hb] at h
          cases q with
          | some q =>
              obtain rfl := Option.some.inj h
              exact hbody a s q (by rw [hb])
          | none => exact ih h

theorem forEach_invariant {I : σ → Prop} {as : List α}
    (hbody : ∀ a ∈ as, ∀ t, I t → I (body a t).2) {t : σ} (ht : I t) :
    I (forEach body as t).2 := by
  induction as generalizing t with
  | nil => exact ht
  | cons a as ih =>
      have hkeep := hbody a (by simp) t ht
      rw [forEach]
      cases hb : body a t with
      | mk r u =>
          rw [hb] at hkeep
          cases r with
          | some r => exact hkeep
          | none => exact ih (fun b hb' => hbody b (List.mem_cons_of_mem a hb')) hkeep

end Loop
end Patrons
