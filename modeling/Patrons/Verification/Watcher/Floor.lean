import Patrons.Verification.Watcher.Tick

/-! # The floor of the watcher

Every size that a tick asks for is one step below the size before and not below the lower
limit, so there are only so many of them, whatever the native library answers. -/

namespace Patrons

namespace Watcher

/-- What holds along a run that starts at `w₀`, whose sizes go down from `currentRegionSpaces`
to the lower limit in whole steps. -/
structure Descends (w₀ w : Watcher) : Prop where
  watched : w.Watched
  step : w.config.shrinkStep = w₀.config.shrinkStep
  limit : w.config.lowerLimit = w₀.config.lowerLimit
  floor : w₀.config.lowerLimit.toInt ≤ w.currentRegionSpaces.toInt
  sorted : (w.requests.map Int32.toInt).Pairwise (· < ·)
  range : ∀ n ∈ w.requests, w.currentRegionSpaces.toInt ≤ n.toInt ∧
    n.toInt ≤ w₀.currentRegionSpaces.toInt - w₀.config.shrinkStep.toInt
  count : w.requests.length * w₀.config.shrinkStep.toInt =
    w₀.currentRegionSpaces.toInt - w.currentRegionSpaces.toInt

/-- What a step of the watcher from `w` to `t` respects, after an init that left `w₀`. -/
structure RespectsFloor (w₀ w : Watcher) (e : WatcherEvent) (t : Watcher) : Prop where
  range : ∀ n ∈ t.requests, w₀.config.lowerLimit.toInt ≤ n.toInt ∧
    n.toInt ≤ w₀.currentRegionSpaces.toInt - w₀.config.shrinkStep.toInt
  decreasing : (t.requests.map Int32.toInt).Pairwise (· < ·)
  count : (t.requests.length : ℤ) ≤
    (w₀.currentRegionSpaces.toInt - w₀.config.lowerLimit.toInt) / w₀.config.shrinkStep.toInt
  capacity : ∀ vss call, e = .tick vss call →
    w₀.config.lowerLimit.toInt * 2 ^ 20 ≤ w.capacity.toNat →
      w₀.config.lowerLimit.toInt * 2 ^ 20 ≤ t.capacity.toNat

variable {w₀ w t : Watcher} {vss : Int64} {call : NativeCall}

/-! ## Arithmetic of one step -/

theorem toInt_sub_step {current : Int64} (step : Int32) (hlow : -2 ^ 31 ≤ current.toInt)
    (hle : current.toInt ≤ 1024) :
    (current - step.toInt64).toInt = current.toInt - step.toInt := by
  have hmin := step.le_toInt
  have hmax := step.toInt_lt
  rw [Int64.toInt_sub, Int32.toInt_toInt64]
  apply Int.bmod_eq_of_le
  · omega
  · omega

/-- Where there is space for a step, the next size overflows neither as a `long` nor as an
`int`. -/
theorem toInt_nextSize (hspace : w.noSpaceToResize = false) (hstep : 0 < w.config.shrinkStep.toInt)
    (hfloor : w.config.lowerLimit.toInt ≤ w.currentRegionSpaces.toInt)
    (hle : w.currentRegionSpaces.toInt ≤ 1024) :
    let size := w.currentRegionSpaces - w.config.shrinkStep.toInt64
    size.toInt = w.currentRegionSpaces.toInt - w.config.shrinkStep.toInt ∧
      size.toInt32.toInt = w.currentRegionSpaces.toInt - w.config.shrinkStep.toInt ∧
      w.config.lowerLimit.toInt ≤ size.toInt := by
  intro size
  have hmin := w.config.lowerLimit.le_toInt
  have hlong : size.toInt = w.currentRegionSpaces.toInt - w.config.shrinkStep.toInt := by
    apply toInt_sub_step
    · omega
    · exact hle
  rw [noSpaceToResize, decide_eq_false_iff_not, Int64.lt_iff_toInt_lt, hlong,
    Int32.toInt_toInt64, Int.not_lt] at hspace
  refine ⟨hlong, ?_, by omega⟩
  rw [Int64.toInt_toInt32, hlong]
  apply Int.bmod_eq_of_le
  · omega
  · omega

/-- A native shrink to a size from the lower limit to 1024 MB keeps the lower limit. -/
theorem floor_resizeTo {capacity : SizeT} {n limit : Int32} (call : NativeCall)
    (h₁ : limit.toInt ≤ n.toInt) (h₂ : n.toInt ≤ 1024)
    (hcap : limit.toInt * 2 ^ 20 ≤ capacity.toNat) :
    limit.toInt * 2 ^ 20 ≤ (resizeTo capacity n call).toNat := by
  unfold resizeTo
  split
  · have hbytes := toNat_mul_MB n.toBitVec
    have hint : n.toBitVec.toInt = n.toInt := rfl
    rw [hint] at hbytes
    rw [hbytes]
    by_cases hpos : 0 < n.toInt
    · rw [Int.emod_eq_of_lt (by omega) (by omega)]
      omega
    · have hmod := Int.emod_nonneg (n.toInt * 2 ^ 20) (by decide : (2 ^ 32 : ℤ) ≠ 0)
      omega
  · exact hcap

/-! ## Steps -/

theorem Descends.le (h : Descends w₀ w) (hstep : 0 < w₀.config.shrinkStep.toInt) :
    w.currentRegionSpaces.toInt ≤ w₀.currentRegionSpaces.toInt := by
  have hcount := h.count
  have hprod : 0 ≤ w.requests.length * w₀.config.shrinkStep.toInt := by
    apply Int.mul_nonneg
    · omega
    · omega
  omega

theorem Descends.congr (h : Descends w₀ w) (ht : Unmoved w t) : Descends w₀ t := by
  rcases sizes_eq_iff.mp ht.sizes with ⟨hcur, -, hreq, -⟩
  rcases config_of_sizes ht.sizes with ⟨-, hs, hl⟩
  constructor
  · exact ht.watched
  · rw [hs]
    exact h.step
  · rw [hl]
    exact h.limit
  · rw [hcur]
    exact h.floor
  · rw [hreq]
    exact h.sorted
  · rw [hreq, hcur]
    exact h.range
  · rw [hreq, hcur]
    exact h.count

theorem Descends.request (h : Descends w₀ w) (hready : w₀.Ready)
    (hstep : 0 < w₀.config.shrinkStep.toInt) (hspace : w.noSpaceToResize = false)
    (call : NativeCall) : Descends w₀ (w.shrunk call) := by
  have hle := h.le hstep
  have hmax := hready.le
  have hfloor := h.floor
  have hs : w.config.shrinkStep.toInt = w₀.config.shrinkStep.toInt := by rw [h.step]
  have hl : w.config.lowerLimit.toInt = w₀.config.lowerLimit.toInt := by rw [h.limit]
  rcases toInt_nextSize hspace (by omega) (by omega) (by omega) with ⟨hlong, hint, hlow⟩
  rw [hs] at hlong hint
  rw [hl] at hlow
  have hcur : (w.shrunk call).currentRegionSpaces.toInt =
      w.currentRegionSpaces.toInt - w₀.config.shrinkStep.toInt := hlong
  constructor
  · exact h.watched
  · exact h.step
  · exact h.limit
  · exact hlow
  · simp only [shrunk, List.map_cons, List.pairwise_cons]
    refine ⟨?_, h.sorted⟩
    intro m hm
    rcases List.mem_map.mp hm with ⟨n, hn, hnm⟩
    have hrange := h.range n hn
    rw [hint, ← hnm]
    omega
  · intro n hn
    rw [hcur]
    rcases List.mem_cons.mp hn with hn | hn
    · rw [hn, hint]
      omega
    · have hrange := h.range n hn
      omega
  · have hcount := h.count
    have hlength : (w.shrunk call).requests.length = w.requests.length + 1 := rfl
    rw [hcur, hlength, Int.natCast_add, Int.add_mul]
    omega

theorem descends_step {e : WatcherEvent} (hready : w₀.Ready)
    (hstep : 0 < w₀.config.shrinkStep.toInt) (h : Descends w₀ w)
    (ht : watcher.step w e = some t) : Descends w₀ t := by
  rw [← Option.some.inj ht]
  cases e with
  | tick vss call =>
      rcases tickEnd_after h.watched with hunmoved | hasks
      · exact h.congr hunmoved
      · rcases hasks with ⟨hasks, hunmoved, -⟩
        simp only [asks, Bool.and_eq_true, Bool.not_eq_true'] at hasks
        exact (h.request hready hstep hasks.1 call).congr hunmoved
  | inBackground => exact h.congr (unmoved_lifecycle h.watched (.inl rfl))
  | toForeground => exact h.congr (unmoved_lifecycle h.watched (.inr rfl))
  | shrinkRegionSpace n call =>
      rw [after_shrinkRegionSpace]
      split
      · exact ⟨h.watched, h.step, h.limit, h.floor, h.sorted, h.range, h.count⟩
      · exact h

theorem capacity_tick (hready : w₀.Ready) (hstep : 0 < w₀.config.shrinkStep.toInt)
    (h : Descends w₀ w) (hcap : w₀.config.lowerLimit.toInt * 2 ^ 20 ≤ w.capacity.toNat) :
    w₀.config.lowerLimit.toInt * 2 ^ 20 ≤ ((run vss call).after w).capacity.toNat := by
  rcases tickEnd_after (w := w) h.watched with hunmoved | hasks
  · rw [(sizes_eq_iff.mp hunmoved.sizes).2.1]
    exact hcap
  · rcases hasks with ⟨hasks, hunmoved, -⟩
    simp only [asks, Bool.and_eq_true, Bool.not_eq_true'] at hasks
    have hnext := h.request hready hstep hasks.1 call
    have hle := h.le hstep
    have hmax := hready.le
    -- the request that this tick made is the newest one
    have hrange := hnext.range (w.shrunk call).currentRegionSpaces.toInt32 List.mem_cons_self
    have hfloor := hnext.floor
    rw [(sizes_eq_iff.mp hunmoved.sizes).2.1]
    apply floor_resizeTo
    · exact Int.le_trans hfloor hrange.1
    · exact Int.le_trans hrange.2 (by omega)
    · exact hcap

/-- Every request of the watcher lies between the lower limit and one step below the first
size, they strictly decrease and are at most as many as the steps that fit in between, and
no tick takes the native capacity below the lower limit. -/
theorem respectsFloor_run (h : w₀.Started) (hstep : 0 < w₀.config.shrinkStep.toInt)
    (es : List WatcherEvent) : watcher.Each (RespectsFloor w₀) es w₀ := by
  have hready := h.ready
  have h₀ : Descends w₀ w₀ := by
    constructor
    · exact hready.watched
    · rfl
    · rfl
    · exact hready.floor
    · rw [hready.requests]
      exact List.Pairwise.nil
    · rw [hready.requests]
      simp
    · rw [hready.requests]
      simp
  apply Machine.each_of_step (I := Descends w₀) _ h₀
  intro w e t hw hstep'
  have ht := descends_step hready hstep hw hstep'
  have hfloor := ht.floor
  refine ⟨⟨?_, ht.sorted, ?_, ?_⟩, ht⟩
  · intro n hn
    have hrange := ht.range n hn
    omega
  · apply Int.le_ediv_of_mul_le hstep
    rw [ht.count]
    omega
  · intro vss call he hcap
    rw [← Option.some.inj hstep', he]
    exact capacity_tick hready hstep hw hcap

theorem respectsFloor_onPhone :
    ((watcher.exec [.tick 4000000000 ⟨false, true⟩, .toForeground, .tick 4000000000 ⟨true, true⟩,
        .shrinkRegionSpace 100 ⟨true, true⟩, .tick 4000000000 ⟨true, true⟩]
        (onPhone { shrinkStep := 50 })).map Watcher.requests) = some [412, 462] ∧
      watcher.Each (RespectsFloor (onPhone { shrinkStep := 50 }))
        [.tick 4000000000 ⟨false, true⟩, .toForeground, .tick 4000000000 ⟨true, true⟩,
          .shrinkRegionSpace 100 ⟨true, true⟩, .tick 4000000000 ⟨true, true⟩]
        (onPhone { shrinkStep := 50 }) :=
  ⟨by decide +kernel,
    respectsFloor_run (started_after ⟨rfl, rfl, rfl, rfl⟩ (by decide +kernel))
      (by decide +kernel) _⟩

end Watcher
end Patrons
