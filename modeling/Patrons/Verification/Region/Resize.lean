import Patrons.Verification.Region.Clamp

/-! # What `ResizeRegionSpace` does

Its outcome from a given state is decided by the three guards, by the places at which
a SIGSEGV is raised and by the region lock. -/

namespace Patrons

open Prog

def Fields.accepts (f : Fields) (new_size : JInt) : Bool :=
  !new_size.sle 0 && decide (new_size ≤ f.capacity) && decide (f.used < new_size)

theorem Fields.accepts_iff {f : Fields} {w : JInt} :
    f.accepts w = true ↔ 0 < w.toInt ∧ w ≤ f.capacity ∧ f.used < w := by
  have h : w.sle 0 = false ↔ 0 < w.toInt := by
    rw [BitVec.sle, decide_eq_false_iff_not, Int.not_le]
    exact Iff.rfl
  simp only [Fields.accepts, Bool.and_eq_true, Bool.not_eq_true', decide_eq_true_eq, h, and_assoc]

/-! ## The checks -/

section
variable (φ : Site → Bool)

def checkFaults (g : Globals) (new_size : JInt) : Bool :=
  !new_size.sle 0 &&
    (raises φ .resizeUsed g.nonFreeRegionIndexLimit_ || raises φ .resizeLimit g.limit_ ||
      raises φ .resizeBegin g.begin_ || raises φ .resizeLog g.nonFreeRegionIndexLimit_)

def checksLog (r : LogRing) (f : Fields) (new_size : JInt) : LogRing :=
  if new_size.sle 0 then r.logDump (tooSmallLine new_size)
  else
    let r := r.logDump (currentLine f.nonFree f.used f.capacity new_size)
    if f.capacity < new_size then r.logDump (canNotGrowLine f.capacity new_size)
    else if f.used < new_size then r
    else r.logDump (bellowUsedLine f.used new_size)

variable {φ} {s : Process}

theorem wp_resizeChecks (w : JInt) :
    wp φ (resizeChecks w)
      (fun r t => checkFaults φ s.g w = false ∧ r = s.fields.accepts w ∧
        t = s.setLog (checksLog s.log s.fields w))
      (fun t => checkFaults φ s.g w = true ∧ t = s)
      (fun _ => False) s := by
  have hu : s.fields.nonFree * kRegionSize = s.fields.used := rfl
  have hc : s.art.mem s.g.limit_ - s.art.mem s.g.begin_ = s.fields.capacity := rfl
  have hn : s.art.mem s.g.nonFreeRegionIndexLimit_ = s.fields.nonFree := rfl
  simp only [resizeChecks, wp_ite, wp_bind, wp_globals, wp_load, wp_nonGrowthLimitCapacity,
    wp_dumpLine, wp_pure, hu, hc, hn, checkFaults, checksLog, Fields.accepts]
  generalize w.sle 0 = nonPositive
  cases nonPositive with
  | true => simp
  | false =>
      refine ⟨by simp, fun _ => ?_⟩
      refine ⟨fun h1 => by simp [h1], fun h1 => ?_⟩
      refine ⟨fun h2 => by simp [h2], fun h2 => ?_⟩
      refine ⟨fun h3 => by simp [h3], fun h3 => ?_⟩
      refine ⟨fun h4 => by simp [h4], fun h4 => ?_⟩
      simp only [h1, h2, h3, h4, Process.log_setLog, Process.setLog_setLog]
      refine ⟨fun h5 => ?_, fun h5 => ⟨fun h6 => ?_, fun h6 => ?_⟩⟩
      · simp [h5, BitVec.not_le.mpr h5]
      · simp [h5, h6, BitVec.not_lt.mp h5]
      · simp [h5, h6]

end

/-! ## The call of `ClampGrowthLimit` -/

section
variable (φ : Site → Bool)

/-- A SIGSEGV is raised in the call before the region lock is taken. -/
def callFaults (g : Globals) : Bool :=
  match g.clampGrowthLimit with
  | .null => true
  | .own => lockFaults φ g
  | .art f => raises φ .resizeClamp f

/-- The call gets to the region lock while somebody holds it. -/
def callWaits (g : Globals) (a : Art) : Bool :=
  decide (g.clampGrowthLimit = .own) && !lockFaults φ g &&
    a.locked (g.regionSpace_ + offsetRegionLock)

def callFaultsLocked (g : Globals) (a : Art) (new_capacity : SizeT) : Bool :=
  decide (g.clampGrowthLimit = .own) && !lockFaults φ g &&
    !a.locked (g.regionSpace_ + offsetRegionLock) &&
    criticalFaults φ g a.mem g.regionSpace_ new_capacity

end

variable (lib : ArtLib)

def resizedArt (g : Globals) (a : Art) (new_capacity : SizeT) : Art :=
  match g.clampGrowthLimit with
  | .null => a
  | .own => clamped g a g.regionSpace_ new_capacity
  | .art _ =>
    { a.call (.clampGrowthLimit g.regionSpace_ new_capacity) with
      mem := lib.clampGrowthLimit g.regionSpace_ new_capacity a.mem }

variable {φ : Site → Bool} {s : Process}

/-- Where a fault of the call leaves the state: nothing is written before the lock is
taken, and the lock stays taken after that. -/
theorem wp_callClampGrowthLimit (hl : Layout s.g) (w : SizeT) :
    wp φ (callClampGrowthLimit lib s.g.regionSpace_ w)
      (fun _ t => (callFaults φ s.g = false ∧ callWaits φ s.g s.art = false ∧
          callFaultsLocked φ s.g s.art w = false) ∧ t = s.setArt (resizedArt lib s.g s.art w))
      (fun t => (callFaults φ s.g = true ∧ ∃ cs, t = s.setArt { s.art with calls := cs }) ∨
        (callFaultsLocked φ s.g s.art w = true ∧
          ∃ a, t = s.setArt a ∧ a.locked (s.g.regionSpace_ + offsetRegionLock) = true))
      (fun _ => callWaits φ s.g s.art = true) s := by
  simp only [callClampGrowthLimit, wp_bind, wp_globals]
  cases hm : s.g.clampGrowthLimit with
  | null =>
      simp only [wp_touch, callFaults, hm]
      exact ⟨fun _ => .inl ⟨trivial, s.art.calls, rfl⟩, by simp⟩
  | own =>
      refine wp_mono (wp_clampGrowthLimit lib hl s.g.regionSpace_ w) ?_ ?_ ?_
      · intro _ t hend
        rcases hend with ⟨⟨h1, h2, h3⟩, rfl⟩
        refine ⟨⟨?_, ?_, ?_⟩, ?_⟩
        · simp [callFaults, hm, h1]
        · simp [callWaits, h2]
        · simp [callFaultsLocked, h3]
        · simp [resizedArt, hm]
      · intro t hend
        rcases hend with ⟨h1, h⟩ | ⟨⟨h1, h2, h3⟩, h⟩
        · exact .inl ⟨by simp [callFaults, hm, h1], h⟩
        · exact .inr ⟨by simp [callFaultsLocked, hm, h1, h2, h3], h⟩
      · intro t hend
        rcases hend with ⟨h1, h2⟩
        simp [callWaits, hm, h1, h2]
  | art f =>
      simp only [wp_callArt, callFaults, callWaits, callFaultsLocked, resizedArt, hm]
      exact ⟨fun h => .inl ⟨h, s.art.calls, rfl⟩, fun h => ⟨⟨h, by simp, by simp⟩, rfl⟩⟩

/-! ## The whole function -/

section
variable (φ : Site → Bool) (s : Process) (new_size : JInt)

def faultsUnlocked : Bool :=
  checkFaults φ s.g new_size || (s.fields.accepts new_size && callFaults φ s.g)

def faultsLocked : Bool :=
  !checkFaults φ s.g new_size && s.fields.accepts new_size &&
    callFaultsLocked φ s.g s.art new_size

def waits : Bool :=
  !checkFaults φ s.g new_size && s.fields.accepts new_size && callWaits φ s.g s.art

end

theorem not_faults_of_waits {w : JInt} (h : waits φ s w = true) :
    faultsUnlocked φ s w = false ∧ faultsLocked φ s w = false := by
  simp only [waits, callWaits, Bool.and_eq_true, Bool.not_eq_true', decide_eq_true_eq] at h
  obtain ⟨⟨h1, h2⟩, ⟨h3, h4⟩, h5⟩ := h
  simp [faultsUnlocked, faultsLocked, callFaults, callFaultsLocked, h1, h3, h4, h5]

def resized (lib : ArtLib) (s : Process) (new_size : JInt) : Process :=
  let r := checksLog s.log s.fields new_size
  if s.fields.accepts new_size then
    (s.setArt (resizedArt lib s.g s.art new_size)).setLog (r.logDump (resizedLine new_size))
  else s.setLog r

theorem wp_resizeRegionSpace (hl : Layout s.g) (w : JInt) :
    wp φ (resizeRegionSpace lib w)
      (fun r t => (faultsUnlocked φ s w = false ∧ faultsLocked φ s w = false ∧
          waits φ s w = false) ∧ r = s.fields.accepts w ∧ t = resized lib s w)
      (fun t => (faultsUnlocked φ s w = true ∧
          ∃ cs r, t = (s.setArt { s.art with calls := cs }).setLog r) ∨
        (faultsLocked φ s w = true ∧
          ∃ a r, t = (s.setArt a).setLog r ∧
            a.locked (s.g.regionSpace_ + offsetRegionLock) = true))
      (fun _ => waits φ s w = true) s := by
  simp only [resizeRegionSpace, wp_bind]
  refine wp_mono (wp_resizeChecks w) ?_ ?_ fun _ h => h.elim
  · intro r t hend
    rcases hend with ⟨hc, rfl, rfl⟩
    cases ha : s.fields.accepts w with
    | false =>
        simp [faultsUnlocked, faultsLocked, waits, resized, ha, hc]
    | true =>
        simp only [if_true, wp_bind, wp_globals, wp_dumpLine, wp_pure, Process.g_setLog]
        have hspec := wp_callClampGrowthLimit lib (φ := φ)
          (s := s.setLog (checksLog s.log s.fields w)) (by simpa using hl) w
        simp only [Process.g_setLog, Process.art_setLog, Process.setArt_setLog] at hspec
        refine wp_mono hspec ?_ ?_ ?_
        · intro _ t hend
          rcases hend with ⟨⟨h1, h2, h3⟩, rfl⟩
          simp [faultsUnlocked, faultsLocked, waits, resized, ha, hc, h1, h2, h3]
        · intro t hend
          rcases hend with ⟨h1, cs, rfl⟩ | ⟨h1, a, rfl, h2⟩
          · exact .inl ⟨by simp [faultsUnlocked, ha, h1], cs, _, rfl⟩
          · exact .inr ⟨by simp [faultsLocked, ha, hc, h1], a, _, rfl, h2⟩
        · intro t h
          simp [waits, ha, hc, h]
  · intro t hend
    rcases hend with ⟨hc, ht⟩
    refine .inl ⟨by simp [faultsUnlocked, hc], s.art.calls, s.log, ?_⟩
    rw [ht]
    cases s
    rfl

end Patrons
