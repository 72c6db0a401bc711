import Mathlib.Logic.Function.Basic
import Patrons.Library.Machine

/-! # Threads on a shared state

Each thread has a place in its code, and takes steps that read and write the state shared by
all. An assertion about the place of a thread has to survive the steps of the others. -/

namespace Patrons

/-- The shared state, and where each thread is. -/
structure Interleaved (τ σ ρ : Type*) where
  shared : σ
  pc : τ → ρ

namespace Interleave

variable {τ σ ρ ℓ : Type*}

def interleave [DecidableEq τ] (step : τ → ℓ → σ → ρ → Option (σ × ρ)) :
    Machine (Interleaved τ σ ρ) (τ × ℓ) where
  step s l := (step l.1 l.2 s.shared (s.pc l.1)).map fun r =>
    ⟨r.1, Function.update s.pc l.1 r.2⟩

variable {step : τ → ℓ → σ → ρ → Option (σ × ρ)}

/-- `I` is kept by every step out of it, and `A` by the steps of the thread itself and of the
others. -/
structure Kept (step : τ → ℓ → σ → ρ → Option (σ × ρ)) (I : σ → Prop) (A : τ → σ → ρ → Prop) :
    Prop where
  own : ∀ {t l s p s' p'}, I s → A t s p → step t l s p = some (s', p') → I s' ∧ A t s' p'
  others : ∀ {t l s p s' p' u q}, u ≠ t → I s → A t s p → A u s q →
    step t l s p = some (s', p') → A u s' q

/-- `I'` and `A'` are kept where `I` and `A` hold. -/
structure Adds (step : τ → ℓ → σ → ρ → Option (σ × ρ)) (I : σ → Prop) (A : τ → σ → ρ → Prop)
    (I' : σ → Prop) (A' : τ → σ → ρ → Prop) : Prop where
  own : ∀ {t l s p s' p'}, I s → A t s p → I' s → A' t s p → step t l s p = some (s', p') →
    I' s' ∧ A' t s' p'
  others : ∀ {t l s p s' p' u q}, u ≠ t → I s → A t s p → A u s q → I' s → A' t s p → A' u s q →
    step t l s p = some (s', p') → A' u s' q

/-- The invariant and every assertion hold. -/
def Holds (I : σ → Prop) (A : τ → σ → ρ → Prop) (s : Interleaved τ σ ρ) : Prop :=
  I s.shared ∧ ∀ t, A t s.shared (s.pc t)

variable {I I' : σ → Prop} {A A' : τ → σ → ρ → Prop}

theorem Kept.and (h : Kept step I A) (h' : Adds step I A I' A') :
    Kept step (fun s => I s ∧ I' s) fun t s p => A t s p ∧ A' t s p where
  own hI hA hstep := by
    obtain ⟨hI₁, hA₁⟩ := h.own hI.1 hA.1 hstep
    obtain ⟨hI₂, hA₂⟩ := h'.own hI.1 hA.1 hI.2 hA.2 hstep
    exact ⟨⟨hI₁, hI₂⟩, hA₁, hA₂⟩
  others hu hI hA hB hstep :=
    ⟨h.others hu hI.1 hA.1 hB.1 hstep,
      h'.others hu hI.1 hA.1 hB.1 hI.2 hA.2 hB.2 hstep⟩

variable [DecidableEq τ] {s t : Interleaved τ σ ρ}

theorem Kept.holds_step (h : Kept step I A) (hs : Holds I A s) {l : τ × ℓ}
    (ht : (interleave step).step s l = some t) : Holds I A t := by
  obtain ⟨⟨s', p'⟩, hstep, rfl⟩ := Option.map_eq_some_iff.mp ht
  obtain ⟨hI, hA⟩ := hs
  obtain ⟨hI', hown⟩ := h.own hI (hA l.1) hstep
  refine ⟨hI', fun u => ?_⟩
  by_cases hu : u = l.1
  · rw [hu]
    simpa using hown
  · simpa [Function.update_of_ne hu] using h.others hu hI (hA l.1) (hA u) hstep

/-- What holds at the start holds after every run. -/
theorem Kept.holds_exec (h : Kept step I A) (hs : Holds I A s) {ls : List (τ × ℓ)}
    (ht : (interleave step).exec ls s = some t) : Holds I A t :=
  Machine.exec_invariant (fun _ _ _ hu hv => h.holds_step hu hv) hs ht

theorem pc_of_exec {u : τ} {ls : List (τ × ℓ)} (h : ∀ l ∈ ls, l.1 ≠ u)
    (ht : (interleave step).exec ls s = some t) : t.pc u = s.pc u := by
  induction ls generalizing s with
  | nil =>
      obtain rfl : s = t := by simpa using ht
      rfl
  | cons l ls ih =>
      obtain ⟨v, hv, hrest⟩ := Option.bind_eq_some_iff.mp ht
      rw [ih (fun l hl => h l (List.mem_cons_of_mem _ hl)) hrest]
      obtain ⟨r, -, rfl⟩ := Option.map_eq_some_iff.mp hv
      exact Function.update_of_ne (h l List.mem_cons_self).symm ..

omit [DecidableEq τ]

def alone (step : τ → ℓ → σ → ρ → Option (σ × ρ)) (t : τ) : List ℓ → σ × ρ → Option (σ × ρ)
  | [], r => some r
  | l :: ls, r => (step t l r.1 r.2).bind (alone step t ls)

/-- The thread gets from one place to another alone. -/
def Alone (step : τ → ℓ → σ → ρ → Option (σ × ρ)) (t : τ) (r r' : σ × ρ) : Prop :=
  ∃ ls, alone step t ls r = some r'

theorem Alone.trans {t : τ} {r r' r'' : σ × ρ} (h : Alone step t r r') (h' : Alone step t r' r'') :
    Alone step t r r'' := by
  obtain ⟨ls, hls⟩ := h
  obtain ⟨ls', hls'⟩ := h'
  refine ⟨ls ++ ls', ?_⟩
  induction ls generalizing r with
  | nil =>
      obtain rfl := Option.some.inj hls
      exact hls'
  | cons l ls ih =>
      obtain ⟨u, hu, hrest⟩ := Option.bind_eq_some_iff.mp hls
      rw [List.cons_append, alone, hu, Option.bind_some]
      exact ih hrest

theorem Alone.exec [DecidableEq τ] {t : τ} {x : Interleaved τ σ ρ} {r : σ × ρ}
    (h : Alone step t (x.shared, x.pc t) r) :
    ∃ ls : List ℓ, (interleave step).exec (ls.map (t, ·)) x =
      some ⟨r.1, Function.update x.pc t r.2⟩ := by
  obtain ⟨ls, hls⟩ := h
  refine ⟨ls, ?_⟩
  induction ls generalizing x with
  | nil =>
      obtain rfl := Option.some.inj hls
      rw [Function.update_eq_self]
      rfl
  | cons l ls ih =>
      obtain ⟨u, hu, hrest⟩ := Option.bind_eq_some_iff.mp hls
      have hone : (interleave step).step x (t, l) = some ⟨u.1, Function.update x.pc t u.2⟩ := by
        simp [interleave, hu]
      have hnext := ih (x := ⟨u.1, Function.update x.pc t u.2⟩) (by simpa using hrest)
      rw [List.map_cons, Machine.exec_cons, hone, Option.bind_some, hnext]
      simp

/-! ## Locks -/

/-- A lock belongs to the thread whose place is in `holds`. -/
def Owns (holds : ρ → Bool) (owner : Option τ) (t : τ) (p : ρ) : Prop :=
  holds p = true ↔ owner = some t

/-- What a step of thread `t` does to the lock. -/
inductive LockStep (holds : ρ → Bool) (t : τ) (owner owner' : Option τ) (p p' : ρ) : Prop where
  | keep (h : owner' = owner) (hp : holds p' = holds p)
  | acquire (h : owner = none) (h' : owner' = some t) (hp : holds p' = true)
  | release (hp : holds p = true) (h' : owner' = none) (hp' : holds p' = false)

variable {holds : ρ → Bool} {owner owner' : Option τ} {t u : τ} {p p' q : ρ}

theorem LockStep.own (h : LockStep holds t owner owner' p p') (ht : Owns holds owner t p) :
    Owns holds owner' t p' := by
  cases h with
  | keep h hp =>
      rw [Owns, h, hp]
      exact ht
  | acquire _ h' hp => exact iff_of_true hp h'
  | release _ h' hp' => exact iff_of_false (by simp [hp']) (by simp [h'])

theorem LockStep.others (h : LockStep holds t owner owner' p p') (ht : Owns holds owner t p)
    (hu : u ≠ t) (hq : Owns holds owner u q) : Owns holds owner' u q := by
  cases h with
  | keep h _ =>
      rw [Owns, h]
      exact hq
  | acquire h h' _ =>
      have hout : ¬holds q = true := fun hin => by simpa [h] using hq.mp hin
      refine iff_of_false hout ?_
      rw [h', Option.some.injEq]
      exact hu.symm
  | release hp h' _ =>
      have hout : ¬holds q = true := by
        intro hin
        have hboth := (ht.mp hp).symm.trans (hq.mp hin)
        exact hu (Option.some.inj hboth).symm
      exact iff_of_false hout (by simp [h'])

/-- Two threads are never in the section of one lock. -/
theorem eq_of_owns (ht : Owns holds owner t p) (hu : Owns holds owner u q)
    (hp : holds p = true) (hq : holds q = true) : t = u :=
  Option.some.inj ((ht.mp hp).symm.trans (hu.mp hq))

end Interleave
end Patrons
