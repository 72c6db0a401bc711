import Mathlib.Logic.Basic

/-! # Computations that can be cut by a fault

A program over a state `σ` names the places (`ι`) at which an access can fault.
A plan says at which of them a fault is raised. A fault keeps the state that
the program had reached, and so does a wait that never ends. -/

namespace Patrons

universe u

inductive Outcome (σ : Type*) (α : Type u) where
  | done (a : α) (s : σ)
  | fault (s : σ)
  | hang (s : σ)

namespace Outcome

variable {σ : Type*} {α β : Type u}

def bind (o : Outcome σ α) (f : α → σ → Outcome σ β) : Outcome σ β :=
  match o with
  | done a s => f a s
  | fault s => fault s
  | hang s => hang s

/-- What holds where an execution returns, is cut by a fault, or waits for ever. -/
def Ends (Q : α → σ → Prop) (F H : σ → Prop) : Outcome σ α → Prop
  | done a s => Q a s
  | fault s => F s
  | hang s => H s

def state : Outcome σ α → σ
  | done _ s => s
  | fault s => s
  | hang s => s

/-- The value and the state of an execution that came to its end. -/
def result? : Outcome σ α → Option (α × σ)
  | done a s => some (a, s)
  | _ => none

@[simp] theorem bind_done (a : α) (s : σ) (f : α → σ → Outcome σ β) :
    (done a s).bind f = f a s := rfl

@[simp] theorem bind_fault (s : σ) (f : α → σ → Outcome σ β) :
    (fault s).bind f = fault s := rfl

@[simp] theorem bind_hang (s : σ) (f : α → σ → Outcome σ β) :
    (hang s).bind f = hang s := rfl

theorem bind_assoc {γ : Type u} (o : Outcome σ α) (f : α → σ → Outcome σ β)
    (g : β → σ → Outcome σ γ) :
    (o.bind f).bind g = o.bind fun a s => (f a s).bind g := by
  cases o <;> rfl

@[simp] theorem result?_done (a : α) (s : σ) : (done a s).result? = some (a, s) := rfl

@[simp] theorem result?_fault (s : σ) : (fault s : Outcome σ α).result? = none := rfl

@[simp] theorem result?_hang (s : σ) : (hang s : Outcome σ α).result? = none := rfl

@[simp] theorem ends_done (Q : α → σ → Prop) (F H : σ → Prop) (a : α) (s : σ) :
    (done a s).Ends Q F H ↔ Q a s := Iff.rfl

@[simp] theorem ends_fault (Q : α → σ → Prop) (F H : σ → Prop) (s : σ) :
    (fault s).Ends Q F H ↔ F s := Iff.rfl

@[simp] theorem ends_hang (Q : α → σ → Prop) (F H : σ → Prop) (s : σ) :
    (hang s).Ends Q F H ↔ H s := Iff.rfl

theorem ends_state {P : σ → Prop} {o : Outcome σ α} :
    o.Ends (fun _ s => P s) P P ↔ P o.state := by
  cases o <;> rfl

theorem result?_eq_some {o : Outcome σ α} {a : α} {s : σ} :
    o.result? = some (a, s) ↔ o = done a s := by
  cases o <;> simp

/-- An execution of whose result something is known came to its end. -/
theorem exists_done {o : Outcome σ α} {β : Type*} {f : α × σ → β} {b : β}
    (h : o.result?.map f = some b) : ∃ a s, o = done a s ∧ f (a, s) = b := by
  cases o with
  | done a s => exact ⟨a, s, rfl, by simpa using h⟩
  | fault s => simp at h
  | hang s => simp at h

end Outcome

/-- A program under a plan of the places at which a fault is raised. -/
structure Prog (ι σ : Type*) (α : Type u) where
  run : (ι → Bool) → σ → Outcome σ α

namespace Prog

variable {ι σ : Type*} {α β : Type u}

instance : Monad (Prog ι σ) where
  pure a := ⟨fun _ s => .done a s⟩
  bind x f := ⟨fun φ s => (x.run φ s).bind fun a t => (f a).run φ t⟩

def get {σ : Type u} : Prog ι σ σ := ⟨fun _ s => .done s s⟩

def modify (f : σ → σ) : Prog ι σ Unit := ⟨fun _ s => .done () (f s)⟩

def touch (i : ι) (ok : σ → Bool) : Prog ι σ Unit :=
  ⟨fun φ s => if φ i || !ok s then .fault s else .done () s⟩

def guard (ok : σ → Bool) : Prog ι σ Unit :=
  ⟨fun _ s => if ok s then .done () s else .fault s⟩

/-- Waits for ever in the states satisfying `blocked`. -/
def await (blocked : σ → Bool) : Prog ι σ Unit :=
  ⟨fun _ s => if blocked s then .hang s else .done () s⟩

def when (c : Bool) (x : Prog ι σ Unit) : Prog ι σ Unit := if c then x else pure ()

@[simp] theorem run_pure (φ : ι → Bool) (a : α) (s : σ) :
    (pure a : Prog ι σ α).run φ s = .done a s := rfl

@[simp] theorem run_bind (φ : ι → Bool) (x : Prog ι σ α) (f : α → Prog ι σ β) (s : σ) :
    (x >>= f).run φ s = (x.run φ s).bind fun a t => (f a).run φ t := rfl

@[simp] theorem run_map (φ : ι → Bool) (f : α → β) (x : Prog ι σ α) (s : σ) :
    (f <$> x).run φ s = (x.run φ s).bind fun a t => .done (f a) t := rfl

@[simp] theorem run_get {σ : Type u} (φ : ι → Bool) (s : σ) :
    (get : Prog ι σ σ).run φ s = .done s s := rfl

@[simp] theorem run_modify (φ : ι → Bool) (f : σ → σ) (s : σ) :
    (modify f : Prog ι σ Unit).run φ s = .done () (f s) := rfl

theorem run_touch (φ : ι → Bool) (i : ι) (ok : σ → Bool) (s : σ) :
    (touch i ok).run φ s = if φ i || !ok s then .fault s else .done () s := rfl

theorem run_guard (φ : ι → Bool) (ok : σ → Bool) (s : σ) :
    (guard ok : Prog ι σ Unit).run φ s = if ok s then .done () s else .fault s := rfl

theorem run_await (φ : ι → Bool) (blocked : σ → Bool) (s : σ) :
    (await blocked : Prog ι σ Unit).run φ s = if blocked s then .hang s else .done () s := rfl

theorem run_ite (φ : ι → Bool) (c : Prop) [Decidable c] (x y : Prog ι σ α) (s : σ) :
    (if c then x else y).run φ s = if c then x.run φ s else y.run φ s := by
  split <;> rfl

theorem ite_bind (c : Prop) [Decidable c] (x y : Prog ι σ α) (f : α → Prog ι σ β) :
    (if c then x else y) >>= f = if c then x >>= f else y >>= f := by
  split <;> rfl

instance : LawfulMonad (Prog ι σ) := LawfulMonad.mk' _
  (by
    intro α x
    change (⟨fun φ s => (x.run φ s).bind fun a t => .done a t⟩ : Prog ι σ α) = x
    have h : ∀ o : Outcome σ α, (o.bind fun a t => .done a t) = o := by
      intro o
      cases o <;> rfl
    simp only [h])
  (by
    intro α β a f
    rfl)
  (by
    intro α β γ x f g
    simp only [bind, Outcome.bind_assoc])

/-! ## Weakest preconditions

`wp φ x Q F H s`: from `s` the program returns in `Q`, or a fault cuts it in `F`, or it
waits for ever in `H`. -/

def wp (φ : ι → Bool) (x : Prog ι σ α) (Q : α → σ → Prop) (F H : σ → Prop) (s : σ) : Prop :=
  (x.run φ s).Ends Q F H

variable {φ : ι → Bool} {Q Q' : α → σ → Prop} {F F' H H' : σ → Prop} {s : σ}

theorem wp_done {x : Prog ι σ α} {a : α} {t : σ} (h : wp φ x Q F H s)
    (hr : x.run φ s = .done a t) : Q a t := by
  rw [wp, hr] at h
  exact h

theorem wp_fault {x : Prog ι σ α} {t : σ} (h : wp φ x Q F H s)
    (hr : x.run φ s = .fault t) : F t := by
  rw [wp, hr] at h
  exact h

theorem wp_hang {x : Prog ι σ α} {t : σ} (h : wp φ x Q F H s)
    (hr : x.run φ s = .hang t) : H t := by
  rw [wp, hr] at h
  exact h

theorem wp_mono {x : Prog ι σ α} (h : wp φ x Q F H s) (hQ : ∀ a t, Q a t → Q' a t)
    (hF : ∀ t, F t → F' t) (hH : ∀ t, H t → H' t) : wp φ x Q' F' H' s := by
  unfold wp at *
  cases hr : x.run φ s with
  | done a t =>
      rw [hr] at h
      exact hQ a t h
  | fault t =>
      rw [hr] at h
      exact hF t h
  | hang t =>
      rw [hr] at h
      exact hH t h

/-- Only what holds where the program returns is weakened. -/
theorem wp_imp {x : Prog ι σ α} (h : wp φ x Q F H s) (hQ : ∀ a t, Q a t → Q' a t) :
    wp φ x Q' F H s :=
  wp_mono h hQ (fun _ h => h) fun _ h => h

theorem wp_and {x : Prog ι σ α} (h : wp φ x Q F H s) (h' : wp φ x Q' F' H' s) :
    wp φ x (fun a t => Q a t ∧ Q' a t) (fun t => F t ∧ F' t) (fun t => H t ∧ H' t) s := by
  unfold wp at *
  cases hr : x.run φ s <;> rw [hr] at h h' <;> exact ⟨h, h'⟩

/-- A program that always returns meets any conditions on the other exits. -/
theorem wp_total {x : Prog ι σ α} (h : wp φ x Q (fun _ => False) (fun _ => False) s)
    (hQ : ∀ a t, Q a t → Q' a t) : wp φ x Q' F H s :=
  wp_mono h hQ (fun _ h => h.elim) fun _ h => h.elim

@[simp] theorem wp_pure (a : α) : wp φ (pure a) Q F H s ↔ Q a s := Iff.rfl

@[simp] theorem wp_bind {x : Prog ι σ α} {f : α → Prog ι σ β} {R : β → σ → Prop} :
    wp φ (x >>= f) R F H s ↔ wp φ x (fun a t => wp φ (f a) R F H t) F H s := by
  unfold wp
  rw [run_bind]
  cases x.run φ s <;> rfl

@[simp] theorem wp_map {x : Prog ι σ α} {f : α → β} {R : β → σ → Prop} :
    wp φ (f <$> x) R F H s ↔ wp φ x (fun a t => R (f a) t) F H s := by
  unfold wp
  rw [run_map]
  cases x.run φ s <;> rfl

@[simp] theorem wp_get {σ : Type u} {Q : σ → σ → Prop} {F H : σ → Prop} {s : σ} :
    wp φ get Q F H s ↔ Q s s := Iff.rfl

@[simp] theorem wp_modify {f : σ → σ} {Q : Unit → σ → Prop} :
    wp φ (modify f) Q F H s ↔ Q () (f s) := Iff.rfl

@[simp] theorem wp_touch {i : ι} {ok : σ → Bool} {Q : Unit → σ → Prop} :
    wp φ (touch i ok) Q F H s ↔
      ((φ i || !ok s) = true → F s) ∧ ((φ i || !ok s) = false → Q () s) := by
  unfold wp
  rw [run_touch]
  cases φ i || !ok s <;> simp

@[simp] theorem wp_guard {ok : σ → Bool} {Q : Unit → σ → Prop} :
    wp φ (guard ok) Q F H s ↔ (ok s = false → F s) ∧ (ok s = true → Q () s) := by
  unfold wp
  rw [run_guard]
  cases ok s <;> simp

@[simp] theorem wp_await {blocked : σ → Bool} {Q : Unit → σ → Prop} :
    wp φ (await blocked) Q F H s ↔
      (blocked s = true → H s) ∧ (blocked s = false → Q () s) := by
  unfold wp
  rw [run_await]
  cases blocked s <;> simp

@[simp] theorem wp_ite {c : Prop} [Decidable c] {x y : Prog ι σ α} :
    wp φ (if c then x else y) Q F H s ↔
      (c → wp φ x Q F H s) ∧ (¬ c → wp φ y Q F H s) := by
  split <;> simp [*]

@[simp] theorem wp_when {c : Bool} {x : Prog ι σ Unit} {Q : Unit → σ → Prop} :
    wp φ (when c x) Q F H s ↔ (c = true → wp φ x Q F H s) ∧ (c = false → Q () s) := by
  cases c <;> simp [when]

/-! ## Kept predicates

A predicate that every access keeps holds at every exit. -/

def Keeps (φ : ι → Bool) (I : σ → Prop) (x : Prog ι σ α) : Prop :=
  ∀ s, I s → wp φ x (fun _ t => I t) I I s

variable {I : σ → Prop}

/-- What holds at every exit holds of the state that is left. -/
theorem wp_state {x : Prog ι σ α} {P : σ → Prop} :
    wp φ x (fun _ t => P t) P P s ↔ P (x.run φ s).state := Outcome.ends_state

theorem keeps_pure (a : α) : Keeps φ I (pure a) := fun _ h => h

theorem keeps_get {σ : Type u} {I : σ → Prop} : Keeps φ I get := fun _ h => h

theorem keeps_modify {f : σ → σ} (h : ∀ s, I s → I (f s)) : Keeps φ I (modify f) := h

theorem keeps_bind {x : Prog ι σ α} {f : α → Prog ι σ β} (hx : Keeps φ I x)
    (hf : ∀ a, Keeps φ I (f a)) : Keeps φ I (x >>= f) := by
  intro s hs
  rw [wp_bind]
  exact wp_imp (hx s hs) fun a t ht => hf a t ht

theorem keeps_ite {c : Prop} [Decidable c] {x y : Prog ι σ α} (hx : Keeps φ I x)
    (hy : Keeps φ I y) : Keeps φ I (if c then x else y) := by
  split
  · exact hx
  · exact hy

theorem keeps_when {c : Bool} {x : Prog ι σ Unit} (hx : Keeps φ I x) :
    Keeps φ I (when c x) :=
  keeps_ite hx (keeps_pure ())

end Prog
end Patrons
