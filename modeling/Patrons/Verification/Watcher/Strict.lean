import Patrons.Verification.Watcher.Tick

/-! # The strict mode

After a shrink the watcher checks with half the period, for five ticks. The strict counter
and the period of the timer agree after every path of a tick. -/

namespace Patrons

open Prog

namespace Watcher

/-- A period in milliseconds, as `schedule` gets it. -/
def millis (period : Int32) : Int64 := period.toInt64 * S

theorem millis_pos_iff {p : Int32} : 0 < millis p ↔ 0 < p.toInt := by
  have hmin := p.le_toInt
  have hmax := p.toInt_lt
  have hs : S.toInt = 1000 := by decide
  have hzero : (0 : Int64).toInt = 0 := by decide
  have hbmod : (p.toInt * 1000).bmod (2 ^ 64) = p.toInt * 1000 := by
    apply Int.bmod_eq_of_le
    · omega
    · omega
  rw [millis, Int64.lt_iff_toInt_lt, Int64.toInt_mul, Int32.toInt_toInt64, hs, hzero, hbmod]
  omega

/-! ## What `_start` and the tests of a tick do -/

section
variable {w t : Watcher} {vss : Int64} {call : NativeCall} {F H : Watcher → Prop}

theorem wp_start {p : Int32} {Q : Unit → Watcher → Prop} :
    wp noSites (start_ p) Q F H w ↔
      (w.config.auto = true →
        (¬ 0 < millis p → F w.cancelTimer.newTimer) ∧
          (0 < millis p → Q () (w.cancelTimer.newTimer.setPeriod (millis p)))) ∧
      (w.config.auto = false → Q () w) := by
  simp only [start_, schedule, wp_bind, wp_get, wp_when, wp_modify, wp_guard, decide_eq_true_eq,
    decide_eq_false_iff_not]
  rfl

theorem wp_exitsStrictMode {Q : Bool → Watcher → Prop} :
    wp noSites exitsStrictMode Q F H w ↔
      (w.strictCount = 0 → Q false w) ∧
      (w.strictCount ≠ 0 →
        (maxCheckOfStrictMode < w.strictCount + 1 → Q true (w.setStrict 0)) ∧
          (¬ maxCheckOfStrictMode < w.strictCount + 1 →
            Q false (w.setStrict (w.strictCount + 1)))) := by
  simp only [exitsStrictMode, wp_bind, wp_get, wp_ite, wp_modify, wp_pure, ne_eq, not_not]
  rw [and_comm]
  rfl

/-- A tick that gets to its tests stops the watching. -/
def stops (w : Watcher) (beforeVmSize : Int64) : Bool :=
  w.noSpaceToResize || (!w.config.overPeriod beforeVmSize && w.belowLowerLimit)

/-- The tests let a tick ask the native shrink, stop, or end as it is. -/
theorem wp_checks_iff {Q : Unit → Watcher → Prop} :
    wp noSites (checks vss call) Q F H w ↔
      (w.asks vss = true →
        wp noSites (if call.result then startStrictMode else stop) Q F H (w.shrunk call)) ∧
      (w.stops vss = true → wp noSites stop Q F H w) ∧
      (w.asks vss = false → w.stops vss = false → Q () w) := by
  simp only [checks, asks, stops, wp_bind, wp_get, wp_ite, wp_shrinkByStep, wp_pure]
  cases w.noSpaceToResize <;> cases w.config.overPeriod vss <;> cases w.belowLowerLimit <;> simp

theorem stops_congr (h : t.sizes = w.sizes) (vss : Int64) : t.stops vss = w.stops vss := by
  rcases config_of_sizes h with ⟨hp, hs, hl⟩
  unfold stops noSpaceToResize PatronsConfig.overPeriod belowLowerLimit getCurrentRegionSpaceSize
  rw [(sizes_eq_iff.mp h).1, (sizes_eq_iff.mp h).2.1, hp, hs, hl]

def pace : Java Unit := do
  if ← exitsStrictMode then
    startChecks

theorem run_eq_pace (beforeVmSize : Int64) (call : NativeCall) :
    run beforeVmSize call = (do
      pace
      checks beforeVmSize call) := by
  rw [run_eq, pace, bind_assoc]
  apply bind_congr
  intro exits
  cases exits with
  | false => rfl
  | true => rfl

/-! ## Mode and period -/

/-- The strict counter is in range, and every timer has the period of its mode. -/
structure InMode (period : Int32) (w : Watcher) : Prop where
  range : 0 ≤ w.strictCount.toInt ∧ w.strictCount.toInt ≤ 5
  period : ∀ x ∈ w.timers,
    x.period = some (millis (if w.strictCount = 0 then period else period / 2))

structure Paced (period : Int32) (w : Watcher) : Prop where
  watched : w.Watched
  mode : w.InMode period
  config : w.config.periodOfCheck = period

variable {period : Int32}

theorem Paced.auto (h : Paced period w) (ht : w.timers ≠ []) : w.config.auto = true := by
  by_contra hoff
  exact ht (h.watched.2 (by simpa using hoff))

theorem timers_restarted (h : w.OneTimer) (p : Int64) :
    (w.cancelTimer.newTimer.setPeriod p).timers = [⟨w.timersCreated, some p⟩] := by
  have hcreated : w.cancelTimer.timersCreated = w.timersCreated := by
    unfold cancelTimer
    cases w.autoCheckVssTimer <;> rfl
  simp [setPeriod, newTimer, (timers_cancelTimer h).1, hcreated]

theorem strictCount_cancelTimer (w : Watcher) : w.cancelTimer.strictCount = w.strictCount := by
  unfold cancelTimer
  cases w.autoCheckVssTimer <;> rfl

structure Restarted (p : Int32) (w t : Watcher) : Prop where
  watched : t.Watched
  strictCount : t.strictCount = w.strictCount
  config : t.config = w.config
  sizes : t.sizes = w.sizes
  period : ∀ x ∈ t.timers, x.period = some (millis p)
  alive : w.config.auto = true → t.timers ≠ []

theorem wp_restart {p : Int32} (h : w.Watched) (hp : 0 < p.toInt) :
    wp noSites (start_ p) (fun _ => Restarted p w) (fun _ => False) (fun _ => False) w := by
  rw [wp_start]
  refine ⟨fun hauto => ⟨fun hneg => hneg (millis_pos_iff.mpr hp), fun _ => ?_⟩, fun hoff => ?_⟩
  · have htimers := timers_restarted h.1 (millis p)
    refine ⟨?_, strictCount_cancelTimer w, config_cancelTimer w, sizes_cancelTimer w, ?_, ?_⟩
    · exact stable_watched.period _ _ (stable_watched.restart w hauto h)
    · rw [htimers]
      simp
    · rw [htimers]
      simp
  · refine ⟨h, rfl, rfl, rfl, ?_, ?_⟩
    · rw [h.2 hoff]
      simp
    · rw [hoff]
      simp

theorem Restarted.paced {p : Int32} (h : Restarted p w t)
    (hconfig : w.config.periodOfCheck = period)
    (hrange : 0 ≤ w.strictCount.toInt ∧ w.strictCount.toInt ≤ 5)
    (hp : p = if w.strictCount = 0 then period else period / 2) : Paced period t := by
  refine ⟨h.watched, ⟨?_, ?_⟩, ?_⟩
  · rw [h.strictCount]
    exact hrange
  · rw [h.strictCount, ← hp]
    exact h.period
  · rw [h.config, hconfig]

/-! ## One tick -/

theorem toInt_next {n : Int32} (h : 0 ≤ n.toInt ∧ n.toInt ≤ 5) : (n + 1).toInt = n.toInt + 1 := by
  have hone : (1 : Int32).toInt = 1 := by decide
  rw [Int32.toInt_add, hone]
  apply Int.bmod_eq_of_le
  · omega
  · omega

theorem toInt_eq_zero {n : Int32} : n.toInt = 0 ↔ n = 0 := by
  have hzero : (0 : Int32).toInt = 0 := by decide
  rw [← hzero, Int32.toInt_inj]

/-- The counter and the timers after the start of a tick. -/
structure Paces (w t : Watcher) : Prop where
  normal : w.strictCount = 0 → t = w
  strict : w.strictCount ≠ 0 → w.strictCount.toInt < 5 → t = w.setStrict (w.strictCount + 1)
  last : w.strictCount.toInt = 5 → t.strictCount = 0 ∧ (w.timers ≠ [] → t.timers ≠ [])

theorem wp_pace (h : Paced period w) (hp : 0 < period.toInt) :
    wp noSites pace (fun _ t => Paced period t ∧ t.sizes = w.sizes ∧ t.config = w.config ∧
      Paces w t) (fun _ => False) (fun _ => False) w := by
  have hrange := h.mode.range
  have hnext := toInt_next hrange
  have hfive : maxCheckOfStrictMode.toInt = 5 := by decide
  rw [pace, wp_bind, wp_exitsStrictMode]
  refine ⟨fun hzero => ?_, fun hne => ⟨fun hlast => ?_, fun hmore => ?_⟩⟩
  · refine ⟨h, rfl, rfl, fun _ => rfl, fun hne => absurd hzero hne, fun hfive => ?_⟩
    rw [hzero] at hfive
    exact absurd hfive (by decide)
  · rw [Int32.lt_iff_toInt_lt, hfive, hnext] at hlast
    simp only [if_true, startChecks, wp_bind, wp_get]
    have hperiod : (w.setStrict 0).config.periodOfCheck = period := h.config
    rw [hperiod]
    apply wp_imp (wp_restart (stable_watched.strict w 0 h.watched) hp)
    intro _ t ht
    have hzero : (w.setStrict 0).strictCount.toInt = 0 := by rfl
    have hpaced := ht.paced hperiod (by omega) rfl
    refine ⟨hpaced, ht.sizes, ht.config, ?_, ?_, ?_⟩
    · exact fun hzero => absurd hzero hne
    · intro _ hlt
      omega
    · exact fun _ => ⟨ht.strictCount, fun halive => ht.alive (h.auto halive)⟩
  · rw [Int32.lt_iff_toInt_lt, hfive, hnext] at hmore
    have hnonzero : w.strictCount + 1 ≠ 0 := by
      rw [ne_eq, ← toInt_eq_zero, hnext]
      omega
    refine ⟨⟨h.watched, ⟨?_, ?_⟩, h.config⟩, rfl, rfl, ?_, ?_, ?_⟩
    · simp only [setStrict]
      omega
    · have hmode := h.mode.period
      have hcount : (w.setStrict (w.strictCount + 1)).strictCount = w.strictCount + 1 := rfl
      rw [if_neg hne] at hmode
      rw [hcount, if_neg hnonzero]
      exact hmode
    · exact fun hzero => absurd hzero hne
    · exact fun _ _ => rfl
    · intro hfive
      omega

theorem wp_stop_strict :
    wp noSites stop
      (fun _ t => t.strictCount = w.strictCount ∧ t.config.periodOfCheck = w.config.periodOfCheck)
      (fun _ => False) (fun _ => False) w := by
  simp only [stop, inBackground, autoOff, wp_bind, wp_get, wp_when, wp_modify, setAutoOff,
    strictCount_cancelTimer, config_cancelTimer]
  simp

theorem half_pos_iff (hp : 0 < period.toInt) : 0 < (period / 2).toInt ↔ 2 ≤ period.toInt := by
  have hmax := period.toInt_lt
  have htwo : (2 : Int32).toInt = 2 := by decide
  have hdiv : (period / 2).toInt = period.toInt / 2 := by
    rw [Int32.toInt_div, htwo, Int.tdiv_eq_ediv_of_nonneg (by omega)]
    apply Int.bmod_eq_of_le
    · omega
    · omega
  omega

theorem not_stops_of_asks (h : w.asks vss = true) : w.stops vss = false := by
  simp only [asks, Bool.and_eq_true, Bool.not_eq_true'] at h
  simp [stops, h.1, h.2]

theorem Paced.wp_stop (h : Paced period w) :
    wp noSites stop (fun _ => Paced period) (fun _ => False) (fun _ => False) w := by
  refine wp_mono (wp_and (Watcher.wp_stop h.watched) (wp_stop_strict (w := w))) ?_
    (fun _ hend => hend.1) fun _ hend => hend.1
  intro _ t hend
  rcases hend with ⟨⟨hwatched, hoff, hsizes⟩, hcount, hperiod⟩
  refine ⟨hwatched, ⟨?_, ?_⟩, hperiod.trans h.config⟩
  · rw [hcount]
    exact h.mode.range
  · rw [hwatched.2 hoff]
    simp

theorem Paced.wp_strict (h : Paced period w) (hp : 2 ≤ period.toInt) :
    wp noSites startStrictMode
      (fun _ t => Paced period t ∧ t.strictCount = 1 ∧ (w.config.auto = true → t.timers ≠ []))
      (fun _ => False) (fun _ => False) w := by
  simp only [startStrictMode, wp_bind, wp_modify, wp_get]
  have hperiod : (w.setStrict 1).config.periodOfCheck = period := h.config
  have hone : (w.setStrict 1).strictCount.toInt = 1 := by rfl
  rw [hperiod]
  apply wp_imp (wp_restart (stable_watched.strict w 1 h.watched) ((half_pos_iff (by omega)).mpr hp))
  intro _ t ht
  exact ⟨ht.paced hperiod (by omega) rfl, ht.strictCount, ht.alive⟩

/-- What one tick does to the mode. -/
structure TickMode (period : Int32) (w : Watcher) (vss : Int64) (call : NativeCall)
    (t : Watcher) : Prop where
  paced : Paced period t
  shrank : w.timers ≠ [] → w.asks vss = true → call.result = true →
    t.strictCount = 1 ∧ t.timers ≠ []
  quiet : w.asks vss = false → w.stops vss = false → Paces w t

theorem tickMode_after (h : Paced period w) (hp : 2 ≤ period.toInt) :
    TickMode period w vss call ((run vss call).after w) := by
  have hspec : wp noSites (run vss call) (fun _ => TickMode period w vss call) (fun _ => False)
      (fun _ => False) w := by
    rw [run_eq_pace, wp_bind]
    apply wp_imp (wp_pace h (by omega))
    intro _ t hend
    rcases hend with ⟨ht, hsizes, hconfig, hpaces⟩
    have hasks := asks_congr hsizes vss
    have hstops := stops_congr hsizes vss
    rw [wp_checks_iff, hasks, hstops]
    refine ⟨fun hask => ?_, fun hstop => ?_, fun hask hstop => ?_⟩
    · have hshrunk : Paced period (t.shrunk call) :=
        ⟨ht.watched, ⟨ht.mode.range, ht.mode.period⟩, ht.config⟩
      rw [wp_ite]
      refine ⟨fun hresult => ?_, fun hresult => ?_⟩
      · apply wp_imp (hshrunk.wp_strict hp)
        intro _ u hu
        rcases hu with ⟨hpaced, hcount, halive⟩
        refine ⟨hpaced, fun hlive _ _ => ⟨hcount, halive ?_⟩, fun hnot => ?_⟩
        · exact hconfig ▸ h.auto hlive
        · exact absurd (hask.symm.trans hnot) (by simp)
      · apply wp_imp hshrunk.wp_stop
        intro _ u hu
        exact ⟨hu, fun _ _ hyes => absurd hyes hresult,
          fun hnot => absurd (hask.symm.trans hnot) (by simp)⟩
    · apply wp_imp ht.wp_stop
      intro _ u hu
      refine ⟨hu, fun _ hask _ => ?_, fun _ hnot => absurd (hstop.symm.trans hnot) (by simp)⟩
      exact absurd hstop (by simp [not_stops_of_asks hask])
    · exact ⟨ht, fun _ hyes => absurd (hask.symm.trans hyes) (by simp), fun _ _ => hpaces⟩
  exact wp_state.mp (wp_total hspec fun _ _ ht => ht)

/-! ## Runs -/

theorem Paced.wp_lifecycle {x : Java Unit} (h : Paced period w) (hp : 0 < period.toInt)
    (hx : x = inBackground ∨ x = toForeground) :
    wp noSites (ifInit x) (fun _ => Paced period) (fun _ => False) (fun _ => False) w := by
  simp only [ifInit, wp_bind, wp_get, wp_when]
  refine ⟨fun _ => ?_, fun _ => h⟩
  rcases hx with rfl | rfl
  · simp only [inBackground, wp_bind, wp_get, wp_when, wp_modify]
    refine ⟨fun hauto => ?_, fun _ => h⟩
    refine ⟨stable_watched.cancel w hauto h.watched, ⟨?_, ?_⟩, ?_⟩
    · rw [strictCount_cancelTimer]
      exact h.mode.range
    · rw [(timers_cancelTimer h.watched.1).1]
      simp
    · rw [config_cancelTimer, h.config]
  · simp only [toForeground, wp_bind, wp_modify, wp_get]
    have hperiod : (w.setStrict 0).config.periodOfCheck = period := h.config
    have hzero : (w.setStrict 0).strictCount.toInt = 0 := by rfl
    rw [hperiod]
    apply wp_imp (wp_restart (stable_watched.strict w 0 h.watched) hp)
    intro _ t ht
    exact ht.paced hperiod (by omega) rfl

theorem Paced.wp_shrinkRegionSpace (h : Paced period w) (n : Int32) :
    wp noSites (WatcherEvent.shrinkRegionSpace n call).program (fun _ => Paced period)
      (fun _ => False) (fun _ => False) w := by
  simp only [WatcherEvent.program, ifInit, nativeShrink, wp_bind, wp_get, wp_when, wp_modify,
    wp_pure]
  exact ⟨fun _ => ⟨h.watched, ⟨h.mode.range, h.mode.period⟩, h.config⟩, fun _ => h⟩

theorem paced_step {e : WatcherEvent} (h : Paced period w) (hp : 2 ≤ period.toInt)
    (ht : watcher.step w e = some t) : Paced period t := by
  have hafter : ∀ {x : Java Unit}, wp noSites x (fun _ => Paced period) (fun _ => False)
      (fun _ => False) w → Paced period (x.after w) :=
    fun hspec => wp_state.mp (wp_total hspec fun _ _ ht => ht)
  rw [← Option.some.inj ht]
  cases e with
  | tick vss call => exact (tickMode_after h hp).paced
  | inBackground => exact hafter (h.wp_lifecycle (by omega) (.inl rfl))
  | toForeground => exact hafter (h.wp_lifecycle (by omega) (.inr rfl))
  | shrinkRegionSpace n call => exact hafter (h.wp_shrinkRegionSpace n)

/-- A tick that neither shrinks nor stops. -/
def Quiet (w : Watcher) : WatcherEvent → Watcher → Prop
  | .tick vss _, _ => w.asks vss = false ∧ w.stops vss = false
  | _, _ => False

instance : ∀ w e t, Decidable (Quiet w e t)
  | _, .tick _ _, _ => instDecidableAnd
  | _, .inBackground, _ => isFalse id
  | _, .toForeground, _ => isFalse id
  | _, .shrinkRegionSpace _ _, _ => isFalse id

theorem Quiet.tick {e : WatcherEvent} (h : Quiet w e t) :
    ∃ vss call, e = .tick vss call ∧ w.asks vss = false ∧ w.stops vss = false := by
  cases e with
  | tick vss call => exact ⟨vss, call, rfl, h⟩
  | inBackground => exact h.elim
  | toForeground => exact h.elim
  | shrinkRegionSpace n call => exact h.elim

/-- The checks that follow: up to the fifth they are counted and the timer stays, with the
fifth the normal mode is back. -/
structure Counts (w : Watcher) (n : ℕ) (u : Watcher) : Prop where
  alive : u.timers ≠ []
  normal : w.strictCount = 0 → u.strictCount = 0
  strict : w.strictCount ≠ 0 → w.strictCount.toInt + n ≤ 5 →
    u.timers = w.timers ∧ u.strictCount.toInt = w.strictCount.toInt + n
  restored : 5 < w.strictCount.toInt + n → u.strictCount = 0

theorem counts_of_quiet {es : List WatcherEvent} {u : Watcher} (h : Paced period w)
    (hp : 2 ≤ period.toInt) (halive : w.timers ≠ []) (hquiet : watcher.Each Quiet es w)
    (hes : watcher.exec es w = some u) : Counts w es.length u := by
  induction es generalizing w with
  | nil =>
      obtain rfl : w = u := by simpa using hes
      have hrange := h.mode.range
      exact ⟨halive, id, fun _ _ => ⟨rfl, by simp⟩, fun hlong => by simp at hlong; omega⟩
  | cons e es ih =>
      obtain ⟨t, ht, hrest⟩ := Option.bind_eq_some_iff.mp hes
      obtain ⟨hq, hquiet'⟩ := hquiet t ht
      obtain ⟨vss, call, rfl, hasks, hstops⟩ := hq.tick
      obtain rfl : (run vss call).after w = t := Option.some.inj ht
      have hmode : TickMode period w vss call ((run vss call).after w) := tickMode_after h hp
      have hpaces := hmode.quiet hasks hstops
      have hrange := h.mode.range
      have hnext := toInt_next hrange
      have hlength : ((.tick vss call :: es : List WatcherEvent).length : ℤ) = es.length + 1 := by
        simp
      by_cases hzero : w.strictCount = 0
      · have hsame := hpaces.normal hzero
        rw [hsame] at hquiet' hrest
        have hc := ih h halive hquiet' hrest
        exact ⟨hc.alive, hc.normal, fun hne => absurd hzero hne, fun _ => hc.normal hzero⟩
      · have hpos : w.strictCount.toInt ≠ 0 := by rwa [ne_eq, toInt_eq_zero]
        by_cases hlast : w.strictCount.toInt = 5
        · rcases hpaces.last hlast with ⟨hcount, htimers⟩
          have hc := ih hmode.paced (htimers halive) hquiet' hrest
          refine ⟨hc.alive, fun h => absurd h hzero, fun _ hshort => ?_, fun _ => ?_⟩
          · omega
          · exact hc.normal hcount
        · have hsame := hpaces.strict hzero (by omega)
          rw [hsame] at hquiet' hrest
          have hpaced := hsame ▸ hmode.paced
          have hc := ih hpaced halive hquiet' hrest
          have hcount : (w.setStrict (w.strictCount + 1)).strictCount.toInt =
              w.strictCount.toInt + 1 := hnext
          have hne : (w.setStrict (w.strictCount + 1)).strictCount ≠ 0 := by
            rw [ne_eq, ← toInt_eq_zero, hcount]
            omega
          refine ⟨hc.alive, fun h => absurd h hzero, fun _ hshort => ?_, fun hlong => ?_⟩
          · rcases hc.strict hne (by omega) with ⟨htimers, hu⟩
            exact ⟨htimers, by omega⟩
          · exact hc.restored (by omega)

/-! ## After init -/

/-- A `toForeground` that returns has started the checks in normal mode. -/
theorem wp_toForeground (h : w.Watched) :
    wp noSites toForeground
      (fun _ t => t.config = w.config ∧ (w.config.auto = true → 0 < w.config.periodOfCheck.toInt) ∧
        Paced w.config.periodOfCheck t)
      (fun _ => True) (fun _ => True) w := by
  simp only [toForeground, wp_bind, wp_modify, wp_get]
  have hzero : (w.setStrict 0).strictCount.toInt = 0 := by rfl
  have hw : (w.setStrict 0).Watched := stable_watched.strict w 0 h
  by_cases hp : 0 < (w.setStrict 0).config.periodOfCheck.toInt
  · apply wp_total (wp_restart hw hp)
    intro _ t ht
    exact ⟨ht.config, fun _ => hp, ht.paced rfl (by omega) rfl⟩
  · rw [wp_start]
    refine ⟨fun _ => ⟨fun _ => trivial, fun hpos => absurd (millis_pos_iff.mp hpos) hp⟩, ?_⟩
    intro hoff
    refine ⟨rfl, fun hon => absurd (hoff.symm.trans hon) (by simp), hw, ⟨?_, ?_⟩, rfl⟩
    · omega
    · rw [hw.2 hoff]
      simp

/-- The watcher checks, with a period that `schedule` takes. -/
def Checking (w : Watcher) : Prop :=
  w.config.auto = true → 0 < w.config.periodOfCheck.toInt ∧ Paced w.config.periodOfCheck w

theorem wp_startWatching_checking (r : InitReads) (h : w.Watched) :
    wp noSites (startWatching r) (fun code t => code = 0 → t.Checking) (fun _ => True)
      (fun _ => True) w := by
  simp only [startWatching, wp_bind, wp_modify, wp_get, wp_ite, wp_pure]
  refine ⟨fun _ hcode => absurd hcode (by decide), fun _ => ?_⟩
  refine ⟨fun _ hcode => absurd hcode (by decide), fun _ => ⟨fun hauto => ?_, fun hoff => ?_⟩⟩
  · refine ⟨fun _ hcode => absurd hcode (by decide), fun _ => ?_⟩
    apply wp_imp (wp_toForeground (w := w.readRegionSpaces) h)
    intro _ t ht _ _
    rcases ht with ⟨hconfig, hp, hpaced⟩
    rw [hconfig]
    exact ⟨hp hauto, hpaced⟩
  · exact fun _ hon => absurd hon hoff

theorem wp_init_checking (config : Option PatronsConfig) (r : InitReads) (h : w.Watched)
    (hinit : w.hasInit = false) (htimers : w.timers = []) :
    wp noSites (init config r) (fun code t => code = 0 → t.Checking) (fun _ => True)
      (fun _ => True) w := by
  have hw : { w with config := config.getD w.config }.Watched := ⟨h.1, fun _ => htimers⟩
  simp only [init, initWatcher, wp_bind, wp_get, wp_ite, wp_modify, wp_pure]
  refine ⟨fun hyes => absurd (hyes.symm.trans hinit) (by simp),
    fun _ => ⟨fun _ hcode => absurd hcode (by decide),
    fun _ => ⟨fun hne hcode => absurd hcode hne, fun _ => ?_⟩⟩⟩
  apply wp_imp (wp_startWatching_checking r hw)
  intro code t ht hcode hauto
  rcases ht hcode hauto with ⟨hp, hpaced⟩
  exact ⟨hp, hpaced.watched, ⟨hpaced.mode.range, hpaced.mode.period⟩, hpaced.config⟩

theorem Started.checking (h : w.Started) : w.Checking := by
  rcases h with ⟨w₀, config, r, ⟨hinit, htimers, hnull, hreq⟩, hrun⟩
  have hw : w₀.Watched := by
    refine ⟨?_, fun _ => htimers⟩
    rw [OneTimer, htimers, hnull]
    rfl
  exact wp_done (wp_init_checking config r hw hinit htimers) hrun rfl

/-- The ticks after a shrink that left `t`: up to the fourth the timer is the one that the shrink
started, and the fifth puts the period back. -/
structure FastChecks (period : Int32) (t : Watcher) (n : ℕ) (u : Watcher) : Prop where
  fast : n < 5 → u.timers = t.timers ∧ u.strictCount.toInt = n + 1 ∧
    ∀ x ∈ u.timers, x.period = some (millis (period / 2))
  restored : 5 ≤ n → u.strictCount = 0 ∧ ∀ x ∈ u.timers, x.period = some (millis period)
  alive : u.timers ≠ []

theorem fastChecks_of_shrank {es : List WatcherEvent} {u : Watcher} (h : Paced period t)
    (hp : 2 ≤ period.toInt) (hcount : t.strictCount = 1) (halive : t.timers ≠ [])
    (hquiet : watcher.Each Quiet es t) (hes : watcher.exec es t = some u) :
    FastChecks period t es.length u := by
  have hc := counts_of_quiet h hp halive hquiet hes
  have hu : Paced period u := Machine.exec_invariant
    (fun _ _ _ hs hstep => paced_step hs hp hstep) h hes
  have hone : t.strictCount.toInt = 1 := by
    rw [hcount]
    decide
  have hne : t.strictCount ≠ 0 := by
    rw [hcount]
    decide
  refine ⟨fun hn => ?_, fun hn => ?_, hc.alive⟩
  · rcases hc.strict hne (by omega) with ⟨htimers, hu'⟩
    refine ⟨htimers, by omega, ?_⟩
    have hmode := hu.mode.period
    have hstrict : u.strictCount ≠ 0 := by
      rw [ne_eq, ← toInt_eq_zero]
      omega
    rwa [if_neg hstrict] at hmode
  · have hzero := hc.restored (by omega)
    have hmode := hu.mode.period
    rw [if_pos hzero] at hmode
    exact ⟨hzero, hmode⟩

/-- In every state of a run the counter and the period agree, and a shrink is followed by five
checks with half the period. -/
theorem strictMode_run {w₀ : Watcher} (h : w₀.Started) (hauto : w₀.config.auto = true)
    (hperiod : 2 ≤ w₀.config.periodOfCheck.toInt) {es : List WatcherEvent}
    (hes : watcher.exec es w₀ = some w) :
    w.InMode w₀.config.periodOfCheck ∧
      ∀ vss call qs u, w.timers ≠ [] → w.asks vss = true → call.result = true →
        watcher.Each Quiet qs ((run vss call).after w) →
        watcher.exec qs ((run vss call).after w) = some u →
        FastChecks w₀.config.periodOfCheck ((run vss call).after w) qs.length u := by
  have h₀ := (h.checking hauto).2
  have hw : Paced w₀.config.periodOfCheck w := Machine.exec_invariant
    (fun _ _ _ hs hstep => paced_step hs hperiod hstep) h₀ hes
  refine ⟨hw.mode, fun vss call qs u htimers hasks hresult hquiet hqs => ?_⟩
  have hmode : TickMode w₀.config.periodOfCheck w vss call ((run vss call).after w) :=
    tickMode_after hw hperiod
  rcases hmode.shrank htimers hasks hresult with ⟨hcount, halive⟩
  exact fastChecks_of_shrank hmode.paced hperiod hcount halive hquiet hqs

/-- A shrink, and then six ticks that find enough room. -/
theorem strictMode_onPhone :
    let w₀ := onPhone { shrinkStep := 50 }
    let shrunk := (run 4000000000 ⟨true, true⟩).after w₀
    let quiet := List.replicate 6 (WatcherEvent.tick 3000000000 ⟨false, false⟩)
    ∃ u, watcher.exec quiet shrunk = some u ∧ w₀.InMode 30 ∧ FastChecks 30 shrunk 6 u := by
  intro w₀ shrunk quiet
  obtain ⟨u, hu⟩ := Option.isSome_iff_exists.mp
    (by decide +kernel : (watcher.exec quiet shrunk).isSome = true)
  have hs : w₀.Started := started_after ⟨rfl, rfl, rfl, rfl⟩ (by decide +kernel)
  obtain ⟨hmode, hfast⟩ := strictMode_run hs (by decide +kernel) (by decide +kernel)
    (Machine.exec_nil watcher w₀)
  have hquiet : watcher.Each Quiet quiet shrunk := by decide +kernel
  exact ⟨u, hu, hmode, hfast 4000000000 ⟨true, true⟩ quiet u (by decide +kernel)
    (by decide +kernel) rfl hquiet hu⟩

end

end Watcher
end Patrons
