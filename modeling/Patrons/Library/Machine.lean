import Mathlib.Logic.Basic
import Mathlib.Data.List.Basic

/-! # Labelled machines

A machine answers a label with at most one successor, so every choice of the
environment is part of the label. Properties of runs are stated step by step
and reduced to what one enabled step preserves. -/

namespace Patrons

/-- A label that is not enabled in a state has no successor there. -/
structure Machine (σ ℓ : Type*) where
  step : σ → ℓ → Option σ

namespace Machine

variable {σ ℓ : Type*} (m : Machine σ ℓ)

def exec : List ℓ → σ → Option σ
  | [], s => some s
  | l :: ls, s => (m.step s l).bind (exec ls)

/-- Every step that the label list takes satisfies `R`. A label that is not enabled
ends the run. -/
def Each (R : σ → ℓ → σ → Prop) : List ℓ → σ → Prop
  | [], _ => True
  | l :: ls, s => ∀ t, m.step s l = some t → R s l t ∧ Each R ls t

@[simp] theorem exec_nil (s : σ) : m.exec [] s = some s := rfl

@[simp] theorem exec_cons (l : ℓ) (ls : List ℓ) (s : σ) :
    m.exec (l :: ls) s = (m.step s l).bind (m.exec ls) := rfl

theorem exec_append (ls ls' : List ℓ) (s : σ) :
    m.exec (ls ++ ls') s = (m.exec ls s).bind (m.exec ls') := by
  induction ls generalizing s with
  | nil => rfl
  | cons l ls ih =>
      rw [List.cons_append, exec_cons, exec_cons, Option.bind_assoc]
      exact congrArg _ (funext ih)

variable {m} in
theorem step_of_exec_append {ls : List ℓ} {l : ℓ} {s t u : σ} (hu : m.exec ls s = some u)
    (ht : m.exec (ls ++ [l]) s = some t) : m.step u l = some t := by
  rw [exec_append, hu, Option.bind_some, exec_cons] at ht
  obtain ⟨v, hv, hvt⟩ := Option.bind_eq_some_iff.mp ht
  obtain rfl : v = t := by simpa using hvt
  exact hv

@[simp] theorem each_nil (R : σ → ℓ → σ → Prop) (s : σ) : m.Each R [] s := trivial

theorem each_cons (R : σ → ℓ → σ → Prop) (l : ℓ) (ls : List ℓ) (s : σ) :
    m.Each R (l :: ls) s ↔ ∀ t, m.step s l = some t → R s l t ∧ m.Each R ls t := Iff.rfl

theorem each_cons_none {R : σ → ℓ → σ → Prop} {l : ℓ} {s : σ} (ls : List ℓ)
    (h : m.step s l = none) : m.Each R (l :: ls) s := by
  intro t ht
  rw [h] at ht
  exact absurd ht (by simp)

theorem each_cons_some {R : σ → ℓ → σ → Prop} {l : ℓ} {s t : σ} (ls : List ℓ)
    (h : m.step s l = some t) : m.Each R (l :: ls) s ↔ R s l t ∧ m.Each R ls t := by
  rw [each_cons, h]
  simp

theorem each_append {R : σ → ℓ → σ → Prop} {ls ls' : List ℓ} {s : σ} :
    m.Each R (ls ++ ls') s ↔ m.Each R ls s ∧ ∀ t, m.exec ls s = some t → m.Each R ls' t := by
  induction ls generalizing s with
  | nil => simp
  | cons l ls ih =>
      rw [List.cons_append, each_cons, each_cons, exec_cons]
      cases m.step s l with
      | none => simp
      | some u => simp [ih, and_assoc]

instance decidableEach (R : σ → ℓ → σ → Prop) [∀ s l t, Decidable (R s l t)] :
    ∀ ls s, Decidable (m.Each R ls s)
  | [], _ => isTrue trivial
  | l :: ls, s =>
    match h : m.step s l with
    | none => isTrue (m.each_cons_none ls h)
    | some t =>
      have := decidableEach R ls t
      decidable_of_iff _ (m.each_cons_some ls h).symm

/-! ## Invariant rules -/

variable {m} {I : σ → Prop} {R C : σ → ℓ → σ → Prop}

theorem exec_invariant (hstep : ∀ s l t, I s → m.step s l = some t → I t)
    {ls : List ℓ} {s t : σ} (hs : I s) (h : m.exec ls s = some t) : I t := by
  induction ls generalizing s with
  | nil =>
      obtain rfl : s = t := by simpa using h
      exact hs
  | cons l ls ih =>
      obtain ⟨u, hu, hrest⟩ := Option.bind_eq_some_iff.mp h
      exact ih (hstep s l u hs hu) hrest

theorem exec_invariant_of_each (hstep : ∀ s l t, I s → m.step s l = some t → C s l t → I t)
    {ls : List ℓ} {s t : σ} (hs : I s) (hC : m.Each C ls s) (h : m.exec ls s = some t) : I t := by
  induction ls generalizing s with
  | nil =>
      obtain rfl : s = t := by simpa using h
      exact hs
  | cons l ls ih =>
      obtain ⟨u, hu, hrest⟩ := Option.bind_eq_some_iff.mp h
      obtain ⟨hl, hls⟩ := hC u hu
      exact ih (hstep s l u hs hu hl) hls hrest

/-- An invariant that every step meeting `C` keeps carries `R` along the run. -/
theorem each_of_invariant
    (hstep : ∀ s l t, I s → m.step s l = some t → C s l t → R s l t ∧ I t)
    {ls : List ℓ} {s : σ} (hs : I s) (h : m.Each C ls s) : m.Each R ls s := by
  induction ls generalizing s with
  | nil => trivial
  | cons l ls ih =>
      intro t ht
      obtain ⟨hc, hrest⟩ := h t ht
      obtain ⟨hr, hi⟩ := hstep s l t hs ht hc
      exact ⟨hr, ih hi hrest⟩

theorem each_of_step (hstep : ∀ s l t, I s → m.step s l = some t → R s l t ∧ I t)
    {ls : List ℓ} {s : σ} (hs : I s) : m.Each R ls s := by
  induction ls generalizing s with
  | nil => trivial
  | cons l ls ih =>
      intro t ht
      obtain ⟨hr, hi⟩ := hstep s l t hs ht
      exact ⟨hr, ih hi⟩

/-- Where `R` and `C` agree on each step out of an `I`-state, and steps meeting `R`
keep `I`, a run meets one throughout exactly when it meets the other. -/
theorem each_congr
    (hiff : ∀ s l t, I s → m.step s l = some t → (R s l t ↔ C s l t))
    (hkeep : ∀ s l t, I s → m.step s l = some t → R s l t → I t)
    {ls : List ℓ} {s : σ} (hs : I s) : m.Each R ls s ↔ m.Each C ls s := by
  induction ls generalizing s with
  | nil => simp
  | cons l ls ih =>
      rw [each_cons, each_cons]
      refine forall_congr' fun t => forall_congr' fun ht => ?_
      constructor
      · intro hend
        rcases hend with ⟨hr, hrest⟩
        exact ⟨(hiff s l t hs ht).mp hr, (ih (hkeep s l t hs ht hr)).mp hrest⟩
      · intro hend
        rcases hend with ⟨hc, hrest⟩
        have hr := (hiff s l t hs ht).mpr hc
        exact ⟨hr, (ih (hkeep s l t hs ht hr)).mpr hrest⟩

/-! ## Simulation -/

variable {σ' ℓ' : Type*}

/-- Every step of `m` out of a state that `sim` relates is answered by a step of `m'`, under
the label that `f` gives it. -/
def Simulates (m : Machine σ ℓ) (m' : Machine σ' ℓ') (f : ℓ → ℓ') (sim : σ → σ' → Prop) : Prop :=
  ∀ s s' l t, sim s s' → m.step s l = some t → ∃ t', m'.step s' (f l) = some t' ∧ sim t t'

variable {m' : Machine σ' ℓ'} {f : ℓ → ℓ'} {sim : σ → σ' → Prop}

theorem Simulates.exec (h : Simulates m m' f sim) {ls : List ℓ} {s t : σ} {s' : σ'} (hs : sim s s')
    (ht : m.exec ls s = some t) : ∃ t', m'.exec (ls.map f) s' = some t' ∧ sim t t' := by
  induction ls generalizing s s' with
  | nil =>
      obtain rfl : s = t := by simpa using ht
      exact ⟨s', rfl, hs⟩
  | cons l ls ih =>
      obtain ⟨u, hu, hrest⟩ := Option.bind_eq_some_iff.mp ht
      obtain ⟨u', hu', hsim⟩ := h s s' l u hs hu
      obtain ⟨t', ht', hlast⟩ := ih hsim hrest
      refine ⟨t', ?_, hlast⟩
      rw [List.map_cons, exec_cons, hu', Option.bind_some, ht']

/-- A property of the steps of `m'` is carried over to the steps that it answers. -/
theorem Simulates.each {R' : σ' → ℓ' → σ' → Prop} (h : Simulates m m' f sim)
    (hR : ∀ s s' l t t', sim s s' → sim t t' → m.step s l = some t →
      m'.step s' (f l) = some t' → R' s' (f l) t' → R s l t)
    {ls : List ℓ} {s : σ} {s' : σ'} (hs : sim s s') (hrun : m'.Each R' (ls.map f) s') :
    m.Each R ls s := by
  induction ls generalizing s s' with
  | nil => trivial
  | cons l ls ih =>
      intro t ht
      rcases h s s' l t hs ht with ⟨t', ht', hsim⟩
      rcases hrun t' ht' with ⟨hl, hrest⟩
      exact ⟨hR s s' l t t' hs hsim ht ht' hl, ih hsim hrest⟩

end Machine
end Patrons
