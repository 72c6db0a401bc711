import Patrons.Verification.Region.Contract

/-! # Mebibytes and bytes

The caller names a size in mebibytes. It is multiplied modulo 2^32 before any guard
sees it. -/

namespace Patrons

open Prog

/-- `n` mebibytes lie between the used size and the capacity, over the integers. -/
def Fields.InRange (f : Fields) (n : JInt) : Prop :=
  0 < n.toInt ∧ (f.nonFree.toNat : ℤ) * 2 ^ 18 < n.toInt * 2 ^ 20 ∧
    n.toInt * 2 ^ 20 ≤ f.capacity.toNat

/-- `getCurrentRegionSpaceSize` answers `size` whenever it returns. -/
def Reports (t : Process) (size : ℤ) : Prop :=
  ∀ φ v u, getCurrentRegionSpaceSize.run φ t = .done v u → v.toInt = size

/-- A shrink by `n` that changed the region space left exactly `n` mebibytes, in range. -/
def ExactShrink (s t : Process) (n : JInt) : Prop :=
  t.fields.bounds ≠ s.fields.bounds → s.fields.InRange n ∧ Reports t (n.toInt * 2 ^ 20)

variable {lib : ArtLib} {dev : Device} {φ : Site → Bool} {s t : Process}

theorem reports_capacity (hi : t.g.init_ = true) : Reports t t.fields.capacity.toNat := by
  intro φ v u hr
  have hspec : wp φ getCurrentRegionSpaceSize
      (fun v _ => v.toInt = t.fields.capacity.toNat) (fun _ => True) (fun _ => True) t := by
    simp only [getCurrentRegionSpaceSize, wp_bind, wp_globals, wp_ite, hi,
      wp_nonGrowthLimitCapacity, wp_pure]
    refine ⟨by simp, fun _ => ⟨fun _ => trivial, fun _ => ⟨fun _ => trivial, fun _ => ?_⟩⟩⟩
    have hlt := t.fields.capacity.isLt
    have hz : (t.fields.capacity.zeroExtend 64).toNat = t.fields.capacity.toNat :=
      (BitVec.toNat_setWidth _ _).trans (Nat.mod_eq_of_lt (by omega))
    change (t.fields.capacity.zeroExtend 64).toInt = _
    rw [BitVec.toInt_eq_toNat_cond, hz]
    split <;> omega
  have hv := wp_done hspec hr
  exact hv

/-- Neither `n * MB` nor `used` leaves the range that the guards compare in. -/
def NoWrap (f : Fields) (n : JInt) : Prop :=
  1 ≤ n.toInt ∧ n.toInt ≤ 2047 ∧ f.nonFree.toNat < 2 ^ 14

theorem toNat_of_noWrap {f : Fields} {n : JInt} (h : NoWrap f n) :
    ((n * MB).toNat : ℤ) = n.toInt * 2 ^ 20 ∧ f.used.toNat = f.nonFree.toNat * 2 ^ 18 := by
  obtain ⟨h1, h2, h3⟩ := h
  have hn := toNat_mul_MB n
  have hu := toNat_mul_kRegionSize f.nonFree
  rw [Fields.used, hu, hn]
  omega

theorem inRange_of_noWrap {f : Fields} {n : JInt} (hw : f.accepts (n * MB) = true)
    (h : NoWrap f n) : f.InRange n := by
  obtain ⟨-, hcap, hused⟩ := Fields.accepts_iff.mp hw
  obtain ⟨hn, hu⟩ := toNat_of_noWrap h
  rw [BitVec.le_def] at hcap
  rw [BitVec.lt_def] at hused
  refine ⟨?_, ?_, ?_⟩
  · have := h.1
    omega
  · omega
  · omega

theorem noWrap_of_inRange {f : Fields} {n : JInt} (hw : f.accepts (n * MB) = true)
    (h : f.InRange n) : NoWrap f n := by
  obtain ⟨hpos, -, -⟩ := Fields.accepts_iff.mp hw
  obtain ⟨-, hpos⟩ := toInt_pos_iff.mp hpos
  obtain ⟨h1, h2, h3⟩ := h
  have hn := toNat_mul_MB n
  have hlt := f.capacity.isLt
  refine ⟨?_, ?_, ?_⟩ <;> omega

theorem eq_resized (hs : AfterInit lib dev s) {n : JInt} {r : Bool}
    (hno : NoSegv lib φ s (n * MB)) (hr : (shrinkRegionSpace lib n).run φ s = .done r t) :
    t = resized lib s (n * MB) :=
  (wp_done (wp_shrinkRegionSpace hs.sound.2 (hs.sound.1.prepared hs.sound.2) hs.layout
    hs.sound.1.flag ((noSegv_iff hs.layout).mp hno)) hr).2

/-! ## Sizes that the guards let through -/

/-- A clamp to `w` finds the region space as it would leave it. -/
def KeepsBounds (lib : ArtLib) (s : Process) (w : SizeT) : Prop :=
  match s.g.clampGrowthLimit with
  | .null => True
  | .own =>
    w = s.fields.capacity ∧ s.fields.numRegions = w / kRegionSize ∧
      s.fields.end_ - s.fields.begin_ ≤ w
  | .art _ =>
    (fieldsAt s.g (lib.clampGrowthLimit s.g.regionSpace_ w s.art.mem)).bounds = s.fields.bounds

theorem Fields.bounds_clamp_iff {f : Fields} {w : SizeT} :
    (f.clamp w).bounds = f.bounds ↔
      w = f.capacity ∧ f.numRegions = w / kRegionSize ∧ f.end_ - f.begin_ ≤ w := by
  simp only [Fields.bounds, Fields.clamp, Prod.mk.injEq, true_and]
  have hlimit : f.begin_ + w = f.limit_ ↔ w = f.capacity := by
    rw [Fields.capacity, BitVec.eq_sub_iff_add_eq, BitVec.add_comm]
  -- `end_` was lowered to `begin_ + w` only if it lay elsewhere
  have hend : (if w < f.end_ - f.begin_ then f.begin_ + w else f.end_) = f.end_ ↔
      f.end_ - f.begin_ ≤ w := by
    split
    · rename_i hlt
      refine ⟨fun h => ?_, fun h => absurd hlt (BitVec.not_lt.mpr h)⟩
      rw [← h, BitVec.add_comm, BitVec.add_sub_cancel]
      exact BitVec.le_refl _
    · rename_i hle
      exact ⟨fun _ => BitVec.not_lt.mp hle, fun _ => rfl⟩
  rw [hlimit, hend, eq_comm (a := w / kRegionSize)]
  tauto

theorem bounds_resized_iff (hl : Layout s.g) {w : JInt} (hw : s.fields.accepts w = true) :
    (resized lib s w).fields.bounds = s.fields.bounds ↔ KeepsBounds lib s w := by
  rw [Process.fields, g_resized, art_resized hw, KeepsBounds]
  cases hc : s.g.clampGrowthLimit with
  | null => simp [resizedArt, hc, Process.fields]
  | own =>
      simp only [resizedArt, hc]
      rw [fieldsAt_clamped hl s.art _ w (Fields.accepts_iff.mp hw).2.2]
      exact Fields.bounds_clamp_iff
  | art f => simp [resizedArt, hc]

theorem eq_capacity_of_keepsBounds (hl : Layout s.g) (hlib : lib.SetsCapacity s.g) {w : JInt}
    (hm : s.g.clampGrowthLimit ≠ .null) (hw : s.fields.accepts w = true)
    (h : KeepsBounds lib s w) : w = s.fields.capacity := by
  have hb := (bounds_resized_iff hl hw).mpr h
  simp only [Fields.bounds, Prod.mk.injEq] at hb
  rw [← capacity_resized hl hlib hm hw, Fields.capacity, Fields.capacity, hb.1, hb.2.2.1]

/-- The effect of a size that the guards let through is exact where it moves nothing or
did not wrap. -/
theorem exactShrink_resized_iff (hs : AfterInit lib dev s) (hlib : lib.SetsCapacity s.g)
    {n : JInt} (hw : s.fields.accepts (n * MB) = true) :
    ExactShrink s (resized lib s (n * MB)) n ↔ KeepsBounds lib s (n * MB) ∨ NoWrap s.fields n := by
  rw [ExactShrink, ne_eq, bounds_resized_iff hs.layout hw]
  constructor
  · intro h
    by_cases he : KeepsBounds lib s (n * MB)
    · exact .inl he
    · exact .inr (noWrap_of_inRange hw (h he).1)
  · intro hend hne
    rcases hend with he | hn
    · exact absurd he hne
    · refine ⟨inRange_of_noWrap hw hn, ?_⟩
      have hm := (hs.sound.1.prepared hs.sound.2).2.2.1
      have hrep := reports_capacity (t := resized lib s (n * MB)) (by rw [g_resized, hs.sound.2])
      rw [capacity_resized hs.layout hlib hm hw, (toNat_of_noWrap hn).1] at hrep
      exact hrep

/-- A shrink is exact unless its product wrapped into a size that the guards let through
and that moves a bound of the region space. -/
theorem exactShrink_iff (hs : AfterInit lib dev s) (hlib : lib.SetsCapacity s.g) (n : JInt)
    (hno : NoSegv lib φ s (n * MB)) {r : Bool}
    (hr : (shrinkRegionSpace lib n).run φ s = .done r t) :
    ExactShrink s t n ↔
      ¬ (0 < (n * MB).toInt ∧ n * MB ≤ s.fields.capacity ∧ s.fields.used < n * MB) ∨
        KeepsBounds lib s (n * MB) ∨ NoWrap s.fields n := by
  rw [← Fields.accepts_iff, eq_resized hs hno hr]
  cases hw : s.fields.accepts (n * MB) with
  | false =>
      have hsame : (resized lib s (n * MB)).fields.bounds = s.fields.bounds := by
        rw [Process.fields, g_resized, resized_rejected hw, Process.fields]
      simp [ExactShrink, hsame]
  | true =>
      rw [exactShrink_resized_iff hs hlib hw]
      simp

theorem exactShrink_iff_androidP :
    ∃ t, (shrinkRegionSpace (artOf Phone.androidP.g) 256).run Phone.noFault Phone.androidP =
        .done true t ∧
      (ExactShrink Phone.androidP t 256 ↔
        ¬ (0 < ((256 : JInt) * MB).toInt ∧ 256 * MB ≤ Phone.androidP.fields.capacity ∧
            Phone.androidP.fields.used < 256 * MB) ∨
          KeepsBounds (artOf Phone.androidP.g) Phone.androidP (256 * MB) ∨
            NoWrap Phone.androidP.fields 256) := by
  have hs : AfterInit (artOf Phone.androidP.g) (Phone.device 28) Phone.androidP :=
    Phone.afterInit (by decide +kernel)
  have hno : NoSegv (artOf Phone.androidP.g) Phone.noFault Phone.androidP (256 * MB) :=
    (noSegv_iff hs.layout).mpr (by decide +kernel)
  obtain ⟨_, t, ht, rfl⟩ := Outcome.exists_done
    (o := (shrinkRegionSpace (artOf Phone.androidP.g) 256).run Phone.noFault Phone.androidP)
    (f := Prod.fst) (b := true) (by decide +kernel)
  exact ⟨t, ht, exactShrink_iff hs (setsCapacity_artOf hs.layout) 256 hno ht⟩

/-- A shrink to 4296 MB, of a region space of 512 MB, leaves 200 MB. -/
theorem wrapped_size_applied :
    ∃ t, AfterInit (artOf Phone.androidP.g) (Phone.device 28) Phone.androidP ∧
      (artOf Phone.androidP.g).SetsCapacity Phone.androidP.g ∧
      NoSegv (artOf Phone.androidP.g) Phone.noFault Phone.androidP (4296 * MB) ∧
      (shrinkRegionSpace (artOf Phone.androidP.g) 4296).run Phone.noFault Phone.androidP =
        .done true t ∧
      t.fields.capacity = 200 * MB ∧ ¬ ExactShrink Phone.androidP t 4296 := by
  have hs : AfterInit (artOf Phone.androidP.g) (Phone.device 28) Phone.androidP :=
    Phone.afterInit (by decide +kernel)
  have hlib := setsCapacity_artOf hs.layout
  have hno : NoSegv (artOf Phone.androidP.g) Phone.noFault Phone.androidP (4296 * MB) :=
    (noSegv_iff hs.layout).mpr (by decide +kernel)
  have hw : Phone.androidP.fields.accepts (4296 * MB) = true := by decide +kernel
  obtain ⟨_, t, ht, rfl⟩ := Outcome.exists_done
    (o := (shrinkRegionSpace (artOf Phone.androidP.g) 4296).run Phone.noFault Phone.androidP)
    (f := Prod.fst) (b := true) (by decide +kernel)
  obtain rfl := eq_resized hs hno ht
  refine ⟨_, hs, hlib, hno, ht, ?_, ?_⟩
  · rw [capacity_resized hs.layout hlib (by decide +kernel) hw]
    decide +kernel
  · rw [exactShrink_resized_iff hs hlib hw]
    intro hend
    rcases hend with h | ⟨-, h, -⟩
    · have heq := eq_capacity_of_keepsBounds hs.layout hlib (by decide +kernel) hw h
      exact absurd heq (by decide +kernel)
    · exact absurd h (by decide +kernel)

end Patrons
