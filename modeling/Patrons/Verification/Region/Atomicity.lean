import Patrons.Verification.Region.Contract

/-! # Failure atomicity of a guarded resize

Below Android P a SIGSEGV can cut `ClampGrowthLimit__` between any two of its accesses. -/

namespace Patrons

open Prog

/-- A guarded resize that answers `false` leaves the bounds of the space, the region lock
and the flag as if it had not run. -/
structure Atomic (s t : Process) (r : Bool) : Prop where
  numRegions : r = false → t.fields.numRegions = s.fields.numRegions
  limit : r = false → t.fields.limit_ = s.fields.limit_
  end_ : r = false → t.fields.end_ = s.fields.end_
  unlocked : r = false → t.art.locked (s.g.regionSpace_ + offsetRegionLock) = false
  flag : r = false → t.sig.iWantHandleSignalFlag = false

variable {lib : ArtLib} {dev : Device} {φ : Site → Bool} {s : Process}

theorem not_faultsUnlocked {w : JInt} (h : faultsLocked φ s w = true) :
    faultsUnlocked φ s w = false := by
  simp only [faultsLocked, callFaultsLocked, Bool.and_eq_true, Bool.not_eq_true',
    decide_eq_true_eq] at h
  obtain ⟨⟨h1, h2⟩, ⟨⟨h3, h4⟩, -⟩, -⟩ := h
  simp [faultsUnlocked, callFaults, h1, h3, h4]

theorem wp_inProtectedMode (hs : AfterInit lib dev s) (hm : s.g.isProtected = true) (n : JInt) :
    wp φ (shrinkRegionSpace lib n)
      (fun r t => t.sig.iWantHandleSignalFlag = false ∧
        (r = false → t.g = s.g ∧
          ((faultsUnlocked φ s (n * MB) = true ∧ t.art.mem = s.art.mem ∧
              t.art.locked = s.art.locked) ∨
            (faultsLocked φ s (n * MB) = true ∧
              t.art.locked (s.g.regionSpace_ + offsetRegionLock) = true))) ∧
        (r = true → faultsUnlocked φ s (n * MB) = false ∧ faultsLocked φ s (n * MB) = false))
      (fun _ => False)
      (fun _ => faultsUnlocked φ s (n * MB) = false ∧ faultsLocked φ s (n * MB) = false) s := by
  obtain ⟨hsound, hi⟩ := hs.sound
  have hexc : s.g.hasExceptionHandle_ = true := by
    simp only [Globals.isProtected, Bool.and_eq_true] at hm
    exact hm.1
  unfold wp
  rw [run_shrinkRegionSpace hi (hsound.prepared hi), if_pos hm]
  refine wp_mono (wp_shrinkProtected hs.layout n) ?_ ?_ ?_
  · intro r t hend
    rcases hend with ⟨hsig, h⟩
    refine ⟨by rw [hsig, Signals.flag_setFlag], ?_⟩
    rcases h with ⟨rfl, ⟨h1, h2, -⟩, -⟩ | ⟨rfl, hg, h⟩
    · exact ⟨by simp, fun _ => ⟨h1, h2⟩⟩
    · exact ⟨fun _ => ⟨hg, h⟩, by simp⟩
  · intro t hend
    rcases hend with ⟨-, h⟩
    exact h (hsound.handler hexc)
  · exact fun t h => not_faults_of_waits h

/-- A SIGSEGV in a guarded resize makes it answer `false`. -/
theorem answers_false (hs : AfterInit lib dev s) (hm : s.g.isProtected = true) (n : JInt)
    (hf : faultsUnlocked φ s (n * MB) = true ∨ faultsLocked φ s (n * MB) = true) :
    ∃ t, (shrinkRegionSpace lib n).run φ s = .done false t := by
  have hspec := wp_inProtectedMode (φ := φ) hs hm n
  cases hr : (shrinkRegionSpace lib n).run φ s with
  | done r t =>
      obtain ⟨-, -, htrue⟩ := wp_done hspec hr
      cases r with
      | false => exact ⟨t, rfl⟩
      | true => simp [htrue rfl] at hf
  | fault t => exact (wp_fault hspec hr).elim
  | hang t =>
      obtain ⟨h1, h2⟩ := wp_hang hspec hr
      simp [h1, h2] at hf

theorem locked_of_faultsLocked (hs : AfterInit lib dev s) (hm : s.g.isProtected = true) (n : JInt)
    (hf : faultsLocked φ s (n * MB) = true) {t : Process}
    (hr : (shrinkRegionSpace lib n).run φ s = .done false t) :
    t.art.locked (s.g.regionSpace_ + offsetRegionLock) = true := by
  obtain ⟨-, hfalse, -⟩ := wp_done (wp_inProtectedMode hs hm n) hr
  obtain ⟨-, ⟨h1, -⟩ | ⟨-, h2⟩⟩ := hfalse rfl
  · rw [not_faultsUnlocked hf] at h1
    exact absurd h1 (by simp)
  · exact h2

/-- A guarded resize that answers `false` without a SIGSEGV under the lock has met one before
it, and left the space and the locks alone. -/
theorem unchanged_of_answers_false (hs : AfterInit lib dev s) (hm : s.g.isProtected = true)
    (n : JInt) (hf : faultsLocked φ s (n * MB) = false) {t : Process}
    (hr : (shrinkRegionSpace lib n).run φ s = .done false t) :
    faultsUnlocked φ s (n * MB) = true ∧ t.fields = s.fields ∧
      t.art.locked = s.art.locked := by
  obtain ⟨-, hfalse, -⟩ := wp_done (wp_inProtectedMode hs hm n) hr
  obtain ⟨hg, ⟨hu, hmem, hlocked⟩ | ⟨hl, -⟩⟩ := hfalse rfl
  · exact ⟨hu, by rw [Process.fields, hg, hmem, Process.fields], hlocked⟩
  · rw [hf] at hl
    exact absurd hl (by simp)

theorem faults_of_own (h : s.g.clampGrowthLimit = .own) (w : JInt) :
    (faultsUnlocked φ s w = true ↔
      checkFaults φ s.g w = true ∨ (s.fields.accepts w = true ∧ lockFaults φ s.g = true)) ∧
    (faultsLocked φ s w = true ↔
      (checkFaults φ s.g w = false ∧ s.fields.accepts w = true ∧ lockFaults φ s.g = false) ∧
        s.art.locked (s.g.regionSpace_ + offsetRegionLock) = false ∧
        criticalFaults φ s.g s.art.mem s.g.regionSpace_ w = true) := by
  simp only [faultsUnlocked, faultsLocked, callFaults, callFaultsLocked, h, Bool.or_eq_true,
    Bool.and_eq_true, Bool.not_eq_true', decide_true, true_and, and_assoc]

/-- A guarded resize is atomic in failure except where a SIGSEGV is raised under the region
lock, or before it while the lock is still held from an earlier failure. -/
theorem atomic_iff (hs : AfterInit lib dev s) (hp : s.g.apiLevel < 28)
    (hm : s.g.isProtected = true) (n : JInt) (φ : Site → Bool) :
    (∀ r t, (shrinkRegionSpace lib n).run φ s = .done r t → Atomic s t r) ↔
      ¬ ((checkFaults φ s.g (n * MB) = false ∧ s.fields.accepts (n * MB) = true ∧
            lockFaults φ s.g = false) ∧
          s.art.locked (s.g.regionSpace_ + offsetRegionLock) = false ∧
          criticalFaults φ s.g s.art.mem s.g.regionSpace_ (n * MB) = true) ∧
        ¬ ((checkFaults φ s.g (n * MB) = true ∨
            (s.fields.accepts (n * MB) = true ∧ lockFaults φ s.g = true)) ∧
          s.art.locked (s.g.regionSpace_ + offsetRegionLock) = true) := by
  have hown := (hs.sound.1.prepared hs.sound.2).2.2.2.1.mpr hp
  obtain ⟨hu, hl⟩ := faults_of_own (φ := φ) hown (n * MB)
  rw [← hu, ← hl]
  constructor
  · intro h
    constructor
    · intro hf
      obtain ⟨t, hr⟩ := answers_false hs hm n (.inr hf)
      have hfree := (h _ _ hr).unlocked rfl
      rw [locked_of_faultsLocked hs hm n hf hr] at hfree
      exact absurd hfree (by simp)
    · intro hend
      rcases hend with ⟨hf, hheld⟩
      obtain ⟨t, hr⟩ := answers_false hs hm n (.inl hf)
      have hfree := (h _ _ hr).unlocked rfl
      by_cases hlf : faultsLocked φ s (n * MB) = true
      · rw [not_faultsUnlocked hlf] at hf
        exact absurd hf (by simp)
      · obtain ⟨-, -, hlocked⟩ := unchanged_of_answers_false hs hm n (Bool.eq_false_iff.mpr hlf) hr
        rw [hlocked, hheld] at hfree
        exact absurd hfree (by simp)
  · intro hend r t hr
    rcases hend with ⟨h1, h2⟩
    have hflag := (wp_done (wp_inProtectedMode hs hm n) hr).1
    cases r with
    | true => exact ⟨by simp, by simp, by simp, by simp, by simp⟩
    | false =>
        obtain ⟨hf, hfields, hlocked⟩ :=
          unchanged_of_answers_false hs hm n (Bool.eq_false_iff.mpr h1) hr
        have hfree : s.art.locked (s.g.regionSpace_ + offsetRegionLock) = false :=
          Bool.eq_false_iff.mpr fun hheld => h2 ⟨hf, hheld⟩
        constructor
        · intro _
          rw [hfields]
        · intro _
          rw [hfields]
        · intro _
          rw [hfields]
        · intro _
          rw [hlocked]
          exact hfree
        · intro _
          exact hflag

theorem atomic_android81 :
    ∃ r t, (shrinkRegionSpace (artOf Phone.android81.g) 256).run Phone.noFault Phone.android81 =
      .done r t ∧ Atomic Phone.android81 t r := by
  have hs : AfterInit (artOf Phone.android81.g) (Phone.device 27) Phone.android81 :=
    Phone.afterInit (by decide +kernel)
  rcases Outcome.exists_done
    (o := (shrinkRegionSpace (artOf Phone.android81.g) 256).run Phone.noFault Phone.android81)
    (f := Prod.fst) (b := true) (by decide +kernel) with ⟨r, t, hr, -⟩
  refine ⟨r, t, hr, ?_⟩
  exact (atomic_iff hs (by decide +kernel) (by decide +kernel) 256 Phone.noFault).mpr
    ⟨by decide +kernel, by decide +kernel⟩ r t hr

/-- Where `libart` has no `SetHeapSize`, a shrink to 256 MB answers `false`, leaves the space
with 1024 regions and a limit to match, and keeps the region lock. -/
theorem half_clamped_without_setHeapSize :
    ∃ t, AfterInit (artOf Phone.android81.g) (Phone.device 27)
        (Phone.process 27 false false 400) ∧
      (Phone.process 27 false false 400).g.isProtected = true ∧
      (shrinkRegionSpace (artOf Phone.android81.g) 256).run Phone.noFault
        (Phone.process 27 false false 400) = .done false t ∧
      ((Phone.process 27 false false 400).fields.numRegions, t.fields.numRegions,
        t.fields.capacity, t.art.locked 0x4038) = (2048, 1024, 256 * MB, true) ∧
      ¬ Atomic (Phone.process 27 false false 400) t false := by
  obtain ⟨r, t, ht, h⟩ := Outcome.exists_done
    (o := (shrinkRegionSpace (artOf Phone.android81.g) 256).run Phone.noFault
      (Phone.process 27 false false 400))
    (f := fun p => (p.1, p.2.fields.numRegions, p.2.fields.capacity, p.2.art.locked 0x4038))
    (b := (false, 1024, 256 * MB, true)) (by decide +kernel)
  simp only [Prod.mk.injEq] at h
  obtain ⟨rfl, h1, h2, h3⟩ := h
  have h0 : (Phone.process 27 false false 400).fields.numRegions = 2048 := by decide +kernel
  refine ⟨t, Phone.afterInit (by decide +kernel), by decide +kernel, ht, ?_, fun ha => ?_⟩
  · rw [h0, h1, h2, h3]
  · have hsame := ha.numRegions rfl
    rw [h0, h1] at hsame
    exact absurd hsame (by decide)

end Patrons
