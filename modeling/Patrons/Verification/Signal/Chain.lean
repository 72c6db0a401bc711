import Patrons.Verification.Region.Contract

/-! # The chain of SIGSEGV dispositions

Every registration saves the disposition that it replaces, and a crash outside a guarded
section puts the saved one back. -/

namespace Patrons

open Prog

def Event.registers : Event → Bool
  | .init _ _ k _ => k.sigemptysetOk && k.sigactionOk
  | _ => false

/-- The dispositions after `n` registrations over the disposition `d₀`. -/
def ChainAt (d₀ : ℕ) (n : ℕ) (s : Signals) : Prop :=
  match n with
  | 0 => s.sigsegv = .foreign d₀
  | 1 => s.sigsegv = .customSignalHandler ∧ s.sigActOld = .foreign d₀
  | _ => s.sigsegv = .customSignalHandler ∧ s.sigActOld = .customSignalHandler

/-- A SIGSEGV outside every guarded section is handed to `d₀` after finitely many deliveries. -/
def HandedTo (d₀ : ℕ) (s : Signals) : Prop := ∃ k, redeliver k s = .foreign d₀

/-! ## One registration -/

theorem chainAt_registered {d₀ n : ℕ} {s : Signals} {k : SigCalls} (h : ChainAt d₀ n s)
    (hk : (k.sigemptysetOk && k.sigactionOk) = true) :
    ChainAt d₀ (n + 1) (handleSignal k s).2 := by
  simp only [Bool.and_eq_true] at hk
  have heq : (handleSignal k s).2 =
      { s with sigsegv := .customSignalHandler, sigActOld := s.sigsegv } := by
    simp [handleSignal, hk.1, hk.2]
  rw [heq]
  match n, h with
  | 0, h => exact ⟨rfl, h⟩
  | 1, h => exact ⟨rfl, h.1⟩
  | _ + 2, h => exact ⟨rfl, h.1⟩

theorem handleSignal_of_failed {s : Signals} {k : SigCalls}
    (hk : (k.sigemptysetOk && k.sigactionOk) = false) : (handleSignal k s).2 = s := by
  unfold handleSignal
  by_cases h : k.sigemptysetOk = true
  · rw [h, Bool.true_and] at hk
    simp [h, hk]
  · simp [h]

/-! ## A whole history -/

variable {lib : ArtLib} {dev : Device} {s t : Process} {d₀ n : ℕ}

theorem chainAt_step {e : Event} (hs : Sound dev s) (hc : ChainAt d₀ n s.sig)
    (h : (process lib dev).step s e = some t) :
    ChainAt d₀ (n + if e.registers then 1 else 0) t.sig := by
  cases e with
  | init ld args k φ =>
      rcases after_eq_some.mp h with ⟨code, hr⟩
      rcases wp_done (wp_init ld hs args) hr with ⟨-, -, -, hsig, -⟩
      rw [hsig]
      cases hk : k.sigemptysetOk && k.sigactionOk with
      | true =>
          simp only [Event.registers, hk, if_true]
          exact chainAt_registered hc hk
      | false =>
          simp only [Event.registers, hk]
          rw [handleSignal_of_failed hk]
          exact hc
  | shrinkRegionSpace m φ =>
      rcases after_eq_some.mp h with ⟨r, hr⟩
      rcases wp_done (shrinkRegionSpace_keeps hs m) hr with ⟨-, hsig⟩
      rw [hsig]
      exact hc
  | getCurrentRegionSpaceSize φ =>
      rcases after_eq_some.mp h with ⟨r, hr⟩
      rw [(wp_done (getCurrentRegionSpaceSize_keeps s) hr).2]
      exact hc
  | dumpLogs clean =>
      rw [← Option.some.inj h, Process.sig_setLog]
      exact hc
  | art mem =>
      rw [← Option.some.inj h, Process.sig_setArt]
      exact hc

theorem chainAt_run {es : List Event} (hs : Sound dev s) (hc : ChainAt d₀ n s.sig)
    (h : (process lib dev).exec es s = some t) :
    ChainAt d₀ (n + es.countP Event.registers) t.sig := by
  induction es generalizing s n with
  | nil =>
      rw [← Option.some.inj h]
      exact hc
  | cons e es ih =>
      rcases Option.bind_eq_some_iff.mp h with ⟨u, hu, hrest⟩
      have hsound := (sound_step hs hu).1
      have htail := ih hsound (chainAt_step hs hc hu) hrest
      rw [List.countP_cons, Nat.add_comm (List.countP _ _), ← Nat.add_assoc]
      exact htail

/-! ## Delivery -/

theorem redeliver_of_cycle {s : Signals} (hflag : s.iWantHandleSignalFlag = false)
    (h₁ : s.sigsegv = .customSignalHandler) (h₂ : s.sigActOld = .customSignalHandler) (k : ℕ) :
    redeliver k s = .resumed s := by
  have hback : { s with sigsegv := s.sigActOld } = s := by
    cases s with
    | mk sigsegv sigActOld flag =>
        dsimp only at h₁ h₂
        rw [h₁, h₂]
  have hdel : deliver s = .resumed s := by
    have hdown : ¬ s.iWantHandleSignalFlag = true := by simp [hflag]
    rw [deliver, h₁]
    dsimp only
    rw [customSignalHandler, if_neg hdown, hback]
  induction k with
  | zero => exact hdel
  | succ k ih =>
      rw [redeliver, hdel]
      exact ih

theorem handedTo_iff {s : Signals} (hflag : s.iWantHandleSignalFlag = false)
    (hc : ChainAt d₀ n s) : HandedTo d₀ s ↔ n ≤ 1 := by
  match n, hc with
  | 0, hc =>
      have h : redeliver 0 s = .foreign d₀ := by
        rw [redeliver, deliver, hc]
      exact ⟨fun _ => Nat.zero_le 1, fun _ => ⟨0, h⟩⟩
  | 1, hc =>
      have h : redeliver 1 s = .foreign d₀ := by
        simp [redeliver, deliver, hc.1, customSignalHandler, hflag, hc.2]
      exact ⟨fun _ => Nat.le_refl 1, fun _ => ⟨1, h⟩⟩
  | m + 2, hc =>
      constructor
      · intro h
        rcases h with ⟨k, hk⟩
        rw [redeliver_of_cycle hflag hc.1 hc.2 k] at hk
        exact absurd hk (by simp)
      · intro h
        omega

/-- After any history of calls, a SIGSEGV outside the guarded sections reaches the
disposition that was in force before the library exactly when the handler was registered at
most once. -/
theorem handedTo_iff_registered_once {es : List Event} {mem : Mem}
    (h : (process lib dev).exec es (Process.loaded mem d₀) = some s) :
    HandedTo d₀ s.sig ↔ es.countP Event.registers ≤ 1 := by
  have hs : Sound dev (Process.loaded mem d₀) := sound_loaded mem d₀
  have hstart : ChainAt d₀ 0 (Process.loaded mem d₀).sig := rfl
  have hc := chainAt_run hs hstart h
  rw [Nat.zero_add] at hc
  exact handedTo_iff (sound_run hs h).1.flag hc

theorem handedTo_android81 :
    ∃ s, (process (artOf Phone.android81.g) (Phone.device 27)).exec
        [.init (Phone.linker true) ⟨true, false, false⟩ {} Phone.noFault]
        (Process.loaded (Phone.mem 400) 7) = some s ∧ HandedTo 7 s.sig := by
  have hsome : (((process (artOf Phone.android81.g) (Phone.device 27)).exec
      [.init (Phone.linker true) ⟨true, false, false⟩ {} Phone.noFault]
      (Process.loaded (Phone.mem 400) 7)).map fun s => s.g.init_) = some true := by
    decide +kernel
  rcases Option.map_eq_some_iff.mp hsome with ⟨s, hs, -⟩
  exact ⟨s, hs, (handedTo_iff_registered_once hs).mpr (by decide)⟩

/-- The first native init finds no loader functions and the second one succeeds. A crash
after that never gets out of the handler. -/
theorem crash_cycles_after_retry :
    ∃ s, (process (artOf Phone.android81.g) (Phone.device 27)).exec
        [.init { Phone.linker true with xhook := fun _ _ => {} } ⟨true, false, false⟩ {}
            Phone.noFault,
          .init (Phone.linker true) ⟨true, false, false⟩ {} Phone.noFault]
        (Process.loaded (Phone.mem 400) 7) = some s ∧
      s.g.init_ = true ∧ s.sig.iWantHandleSignalFlag = false ∧ ¬ HandedTo 7 s.sig := by
  have hsome : (((process (artOf Phone.android81.g) (Phone.device 27)).exec
      [.init { Phone.linker true with xhook := fun _ _ => {} } ⟨true, false, false⟩ {}
          Phone.noFault,
        .init (Phone.linker true) ⟨true, false, false⟩ {} Phone.noFault]
      (Process.loaded (Phone.mem 400) 7)).map fun s => (s.g.init_, s.sig)) =
      some (true, ⟨.customSignalHandler, .customSignalHandler, false⟩) := by
    decide +kernel
  rcases Option.map_eq_some_iff.mp hsome with ⟨s, hs, hsig⟩
  rcases Prod.mk.inj hsig with ⟨hinit, hsig⟩
  refine ⟨s, hs, hinit, by rw [hsig], ?_⟩
  intro h
  rcases h with ⟨k, hk⟩
  rw [hsig, redeliver_of_cycle rfl rfl rfl k] at hk
  exact absurd hk (by simp)

end Patrons
