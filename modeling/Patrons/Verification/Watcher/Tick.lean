import Patrons.Verification.Watcher.Methods

/-! # What a tick does

A tick asks the native shrink for one step less, or it leaves the sizes alone. -/

namespace Patrons

open Prog

namespace Watcher

def shrunk (w : Watcher) (call : NativeCall) : Watcher :=
  let size := w.currentRegionSpaces - w.config.shrinkStep.toInt64
  { w with
    currentRegionSpaces := size
    capacity := resizeTo w.capacity size.toInt32 call
    requests := size.toInt32 :: w.requests }

/-- A tick that gets to its tests asks the native shrink for a smaller size. -/
def asks (w : Watcher) (beforeVmSize : Int64) : Bool :=
  !w.noSpaceToResize && w.config.overPeriod beforeVmSize

variable {w t : Watcher} {vss : Int64} {call : NativeCall}

theorem sizes_eq_iff : t.sizes = w.sizes ↔
    t.currentRegionSpaces = w.currentRegionSpaces ∧ t.capacity = w.capacity ∧
      t.requests = w.requests ∧
      { t.config with auto := true } = { w.config with auto := true } := by
  simp only [sizes, Prod.mk.injEq]

theorem config_of_sizes (h : t.sizes = w.sizes) :
    t.config.periodOfShrink = w.config.periodOfShrink ∧
      t.config.shrinkStep = w.config.shrinkStep ∧ t.config.lowerLimit = w.config.lowerLimit := by
  have hc := (sizes_eq_iff.mp h).2.2.2
  have hperiod := congrArg PatronsConfig.periodOfShrink hc
  have hstep := congrArg PatronsConfig.shrinkStep hc
  have hlimit := congrArg PatronsConfig.lowerLimit hc
  exact ⟨hperiod, hstep, hlimit⟩

theorem asks_congr (h : t.sizes = w.sizes) (vss : Int64) : t.asks vss = w.asks vss := by
  rcases config_of_sizes h with ⟨hp, hs, hl⟩
  unfold asks noSpaceToResize PatronsConfig.overPeriod
  rw [(sizes_eq_iff.mp h).1, hp, hs, hl]

theorem sizes_shrunk (h : t.sizes = w.sizes) (call : NativeCall) :
    (t.shrunk call).sizes = (w.shrunk call).sizes := by
  rcases sizes_eq_iff.mp h with ⟨h₁, h₂, h₃, h₄⟩
  have hsize : t.currentRegionSpaces - t.config.shrinkStep.toInt64 =
      w.currentRegionSpaces - w.config.shrinkStep.toInt64 := by
    rw [h₁, (config_of_sizes h).2.1]
  apply sizes_eq_iff.mpr
  refine ⟨hsize, ?_, ?_, h₄⟩
  · simp only [shrunk, hsize, h₂]
  · simp only [shrunk, hsize, h₃]

/-- Watched, with the sizes of `w`, and not turned on again. -/
structure Unmoved (w t : Watcher) : Prop where
  watched : t.Watched
  sizes : t.sizes = w.sizes
  auto : t.config.auto = true → w.config.auto = true

theorem Unmoved.refl (h : w.Watched) : Unmoved w w := ⟨h, rfl, id⟩

/-- The state that a tick from `w` leaves, whether it returns or throws. -/
def TickEnd (w : Watcher) (beforeVmSize : Int64) (call : NativeCall) (t : Watcher) : Prop :=
  Unmoved w t ∨ (w.asks beforeVmSize = true ∧ Unmoved (w.shrunk call) t ∧
    (call.result = false → t.config.auto = false))

theorem stable_unmoved (w : Watcher) : Stable (Unmoved w) := by
  have h₁ := stable_watched
  have h₂ := stable_sizes w
  constructor
  · intro t n h
    exact ⟨h₁.strict t n h.watched, h₂.strict t n h.sizes, h.auto⟩
  · intro t hauto h
    refine ⟨h₁.cancel t hauto h.watched, h₂.cancel t hauto h.sizes, ?_⟩
    intro _
    exact h.auto hauto
  · intro t hauto h
    refine ⟨h₁.restart t hauto h.watched, h₂.restart t hauto h.sizes, ?_⟩
    intro _
    exact h.auto hauto
  · intro t p h
    exact ⟨h₁.period t p h.watched, h₂.period t p h.sizes, h.auto⟩

theorem wp_shrinkByStep {Q : Bool → Watcher → Prop} {F H : Watcher → Prop} :
    wp noSites (shrinkByStep call) Q F H w ↔ Q call.result (w.shrunk call) := Iff.rfl

def checks (beforeVmSize : Int64) (call : NativeCall) : Java Unit := do
  let w ← Prog.get
  if w.noSpaceToResize then
    stop
  else do
    let w ← Prog.get
    if w.config.overPeriod beforeVmSize then do
      if ← shrinkByStep call then
        startStrictMode
      else
        stop
    else do
      let w ← Prog.get
      if w.belowLowerLimit then
        stop
      else
        pure ()

theorem run_eq (beforeVmSize : Int64) (call : NativeCall) :
    run beforeVmSize call = (do
      if ← exitsStrictMode then
        startChecks
      checks beforeVmSize call) := rfl

theorem wp_stop_unmoved (h : Unmoved w t) :
    wp noSites stop (fun _ u => Unmoved w u ∧ u.config.auto = false) (fun _ => False)
      (fun _ => False) t := by
  apply wp_total (wp_stop h.watched)
  intro _ u hu
  rcases hu with ⟨hwatched, hoff, hsizes⟩
  refine ⟨⟨hwatched, hsizes.trans h.sizes, ?_⟩, hoff⟩
  rw [hoff]
  exact fun h => absurd h (by simp)

theorem wp_stop_tickEnd (h : Unmoved w t) :
    wp noSites stop (fun _ => TickEnd w vss call) (TickEnd w vss call) (TickEnd w vss call) t :=
  wp_total (wp_stop_unmoved h) fun _ _ hu => .inl hu.1

/-- After the native shrink the tick goes on watching, or stops and resets `config.auto`. -/
theorem wp_answered (h : Unmoved w t) (hasks : t.asks vss = true) :
    wp noSites (if call.result then startStrictMode else stop) (fun _ => TickEnd w vss call)
      (TickEnd w vss call) (TickEnd w vss call) (t.shrunk call) := by
  have hshrunk : Unmoved (w.shrunk call) (t.shrunk call) :=
    ⟨h.watched, sizes_shrunk h.sizes call, h.auto⟩
  rw [asks_congr h.sizes] at hasks
  rw [wp_ite]
  constructor
  · intro hresult
    have hend : ∀ u, Unmoved (w.shrunk call) u → TickEnd w vss call u := by
      intro u hu
      refine .inr ⟨hasks, hu, ?_⟩
      rw [hresult]
      simp
    exact wp_mono ((stable_unmoved (w.shrunk call)).keeps_startStrictMode _ hshrunk)
      (fun _ => hend) hend hend
  · intro _
    apply wp_total (wp_stop_unmoved hshrunk)
    intro _ u hu
    exact .inr ⟨hasks, hu.1, fun _ => hu.2⟩

theorem wp_checks (h : Unmoved w t) :
    wp noSites (checks vss call) (fun _ => TickEnd w vss call) (TickEnd w vss call)
      (TickEnd w vss call) t := by
  simp only [checks, wp_bind, wp_get]
  rw [wp_ite]
  constructor
  · intro _
    exact wp_stop_tickEnd h
  · intro hspace
    rw [wp_bind, wp_get, wp_ite]
    constructor
    · intro hover
      have hasks : t.asks vss = true := by
        simp only [asks, hspace, hover]
        rfl
      rw [wp_bind, wp_shrinkByStep]
      exact wp_answered h hasks
    · intro _
      rw [wp_bind, wp_get, wp_ite]
      constructor
      · intro _
        exact wp_stop_tickEnd h
      · intro _
        exact .inl h

/-- However a tick ends, it has asked for one step less or left the sizes alone. -/
theorem tickEnd_after (h : w.Watched) : TickEnd w vss call ((run vss call).after w) := by
  have hstable := stable_unmoved w
  have hend : ∀ u, Unmoved w u → TickEnd w vss call u := fun u hu => .inl hu
  apply wp_state.mp
  rw [run_eq, wp_bind]
  apply wp_mono (keeps_exitsStrictMode hstable.strict w (.refl h))
  · intro exits u hu
    cases exits with
    | false => exact wp_checks hu
    | true =>
        simp only [if_true, wp_bind]
        exact wp_mono (hstable.keeps_startChecks u hu) (fun _ v hv => wp_checks hv) hend hend
  · exact hend
  · exact hend

/-! ## The other calls -/

theorem keeps_ifInit {I : Watcher → Prop} {x : Java Unit} (h : Keeps noSites I x) :
    Keeps noSites I (ifInit x) := by
  apply keeps_bind keeps_get
  intro w
  exact keeps_when h

theorem unmoved_lifecycle {x : Java Unit} (h : w.Watched)
    (hx : x = inBackground ∨ x = toForeground) : Unmoved w ((ifInit x).after w) := by
  have hstable := stable_unmoved w
  apply wp_state.mp
  apply keeps_ifInit
  · rcases hx with hx | hx
    · rw [hx]
      exact hstable.keeps_inBackground
    · rw [hx]
      exact hstable.keeps_toForeground
  · exact .refl h

theorem after_shrinkRegionSpace (w : Watcher) (n : Int32) (call : NativeCall) :
    (WatcherEvent.shrinkRegionSpace n call).program.after w =
      if w.hasInit then { w with capacity := resizeTo w.capacity n call } else w := by
  have hwp : wp noSites (WatcherEvent.shrinkRegionSpace n call).program
      (fun _ t => t = if w.hasInit then { w with capacity := resizeTo w.capacity n call } else w)
      (fun _ => False) (fun _ => False) w := by
    simp only [WatcherEvent.program, ifInit, nativeShrink, wp_bind, wp_get, wp_when, wp_modify,
      wp_pure]
    constructor
    · intro h
      rw [if_pos h]
    · intro h
      rw [h]
      rfl
  have hstate := wp_state.mp (wp_total hwp fun _ _ h => h)
  exact hstate

/-! ## After init -/

/-- What an init that returned 0 promises. -/
structure Ready (w : Watcher) : Prop where
  watched : w.Watched
  pos : 0 < w.currentRegionSpaces.toInt
  le : w.currentRegionSpaces.toInt ≤ 1024
  floor : w.config.lowerLimit.toInt ≤ w.currentRegionSpaces.toInt
  mirror : w.currentRegionSpaces = w.getCurrentRegionSpaceSize / bytesOfMB
  requests : w.requests = []
  hasInit : w.hasInit = true

theorem Ready.of_unmoved {w₁ : Watcher} (h₁ : w₁.Ready) (ht : Unmoved w₁ t) :
    { t with hasInit := true }.Ready := by
  rcases sizes_eq_iff.mp ht.sizes with ⟨hcur, hcap, hreq, -⟩
  have hlimit := (config_of_sizes ht.sizes).2.2
  constructor
  · exact ht.watched
  · rw [hcur]
    exact h₁.pos
  · rw [hcur]
    exact h₁.le
  · rw [hlimit, hcur]
    exact h₁.floor
  · have hmirror := h₁.mirror
    unfold getCurrentRegionSpaceSize at hmirror ⊢
    dsimp only
    rw [hcur, hcap]
    exact hmirror
  · exact hreq.trans h₁.requests
  · rfl

theorem wp_startWatching (r : InitReads) (hw : w.Watched) (hreq : w.requests = []) :
    wp noSites (startWatching r) (fun code t => code = 0 → { t with hasInit := true }.Ready)
      (fun _ => True) (fun _ => True) w := by
  simp only [startWatching, wp_bind, wp_modify, wp_get]
  rw [wp_ite]
  constructor
  · intro _ h
    exact absurd h (by decide)
  · intro hrange
    rw [wp_ite]
    constructor
    · intro _ h
      exact absurd h (by decide)
    · intro hfloor
      simp only [Bool.or_eq_true, decide_eq_true_eq, not_or, Int64.le_iff_toInt_le,
        Int64.lt_iff_toInt_lt, Int32.toInt_toInt64, Int.not_le, Int.not_lt] at hrange hfloor
      have hready : { w.readRegionSpaces with hasInit := true }.Ready :=
        ⟨hw, hrange.1, hrange.2, hfloor, rfl, hreq, rfl⟩
      rw [wp_ite]
      constructor
      · intro _
        rw [wp_ite]
        constructor
        · intro _ h
          exact absurd h (by decide)
        · intro _
          rw [wp_bind]
          apply wp_mono
            ((stable_unmoved w.readRegionSpaces).keeps_toForeground w.readRegionSpaces (.refl hw))
          · intro _ t ht _
            exact hready.of_unmoved ⟨ht.watched, ht.sizes, ht.auto⟩
          · intro _ _
            trivial
          · intro _ _
            trivial
      · intro _ _
        exact hready

theorem wp_init (config : Option PatronsConfig) (r : InitReads)
    (hinit : w.hasInit = false) (htimers : w.timers = []) (hnull : w.autoCheckVssTimer = none)
    (hreq : w.requests = []) :
    wp noSites (init config r) (fun code t => code = 0 → t.Ready) (fun _ => True)
      (fun _ => True) w := by
  have hwatched : { w with config := config.getD w.config }.Watched := by
    refine ⟨?_, fun _ => htimers⟩
    unfold OneTimer
    dsimp only
    rw [htimers, hnull]
    rfl
  simp only [init, initWatcher, wp_bind, wp_get, hinit]
  rw [wp_ite]
  constructor
  · intro h
    exact absurd h (by simp)
  · intro _
    simp only [wp_bind, wp_modify, wp_pure]
    rw [wp_ite]
    constructor
    · intro _ h
      exact absurd h (by decide)
    · intro _
      rw [wp_ite]
      constructor
      · intro hcode h
        exact absurd h hcode
      · intro _
        apply wp_mono (wp_startWatching r hwatched hreq)
        · intro code t h hcode
          rw [hcode]
          exact h hcode
        · intro _ _
          trivial
        · intro _ _
          trivial

theorem Started.ready (h : w.Started) : w.Ready := by
  rcases h with ⟨w₀, config, r, ⟨hinit, htimers, hauto, hreq⟩, hrun⟩
  have hspec := wp_done (wp_init config r hinit htimers hauto hreq) hrun
  exact hspec rfl

theorem started_after {config : Option PatronsConfig} {r : InitReads} {w₀ : Watcher}
    (h₀ : w₀.hasInit = false ∧ w₀.timers = [] ∧ w₀.autoCheckVssTimer = none ∧ w₀.requests = [])
    (h : ((init config r).run noSites w₀).result?.map Prod.fst = some 0) :
    ((init config r).after w₀).Started := by
  rcases Outcome.exists_done h with ⟨code, w, hrun, hcode⟩
  refine ⟨w₀, config, r, h₀, ?_⟩
  rw [Java.after, hrun, ← hcode]
  rfl

/-- A 32-bit process on Android 8.1 that has 3 GB mapped. -/
def android81 : InitReads := ⟨27, false, 0, 3221225472⟩

abbrev onPhone (config : PatronsConfig) : Watcher :=
  (init (some config) android81).after { capacity := 512 * MB }

end Watcher
end Patrons
