import Patrons.Verification.Watcher.Strict

/-! # When `schedule` throws

`java.util.Timer` throws for a period that is not positive. The only period that the watcher
computes is half the configured one. -/

namespace Patrons

open Prog

namespace Watcher

variable {w t : Watcher} {vss : Int64} {call : NativeCall} {period : Int32}

def entersStrict (w : Watcher) (beforeVmSize : Int64) (call : NativeCall) : Bool :=
  w.config.auto && w.asks beforeVmSize && call.result

/-- The start of the strict mode throws exactly where a timer is started and half the period is
not positive. -/
theorem Paced.wp_startStrictMode (h : Paced period w) :
    wp noSites startStrictMode
      (fun _ t => ¬ (w.config.auto = true ∧ ¬ 0 < (period / 2).toInt) ∧ Paced period t)
      (fun _ => w.config.auto = true ∧ ¬ 0 < (period / 2).toInt) (fun _ => False) w := by
  simp only [startStrictMode, wp_bind, wp_modify, wp_get]
  have hperiod : (w.setStrict 1).config.periodOfCheck = period := h.config
  have hone : (w.setStrict 1).strictCount.toInt = 1 := by rfl
  have hw : (w.setStrict 1).Watched := stable_watched.strict w 1 h.watched
  rw [hperiod]
  by_cases hp : 0 < (period / 2).toInt
  · apply wp_total (wp_restart hw hp)
    intro _ t ht
    exact ⟨fun hbad => hbad.2 hp, ht.paced hperiod (by omega) rfl⟩
  · rw [wp_start]
    refine ⟨fun hauto => ⟨fun _ => ⟨hauto, hp⟩, fun hpos => ?_⟩, fun hoff => ?_⟩
    · exact absurd (millis_pos_iff.mp hpos) hp
    · refine ⟨fun hbad => absurd (hoff.symm.trans hbad.1) (by simp), hw, ⟨?_, ?_⟩, hperiod⟩
      · omega
      · rw [hw.2 hoff]
        simp

/-- A tick throws exactly where it starts the strict mode with half a period that is not
positive. -/
theorem wp_run_throws (h : Paced period w) (hp : 0 < period.toInt) :
    wp noSites (run vss call)
      (fun _ t => ¬ (w.entersStrict vss call = true ∧ ¬ 0 < (period / 2).toInt) ∧ Paced period t)
      (fun _ => w.entersStrict vss call = true ∧ ¬ 0 < (period / 2).toInt) (fun _ => False) w := by
  rw [run_eq_pace, wp_bind]
  apply wp_total (wp_pace h hp)
  intro _ t hend
  rcases hend with ⟨ht, hsizes, hconfig, -⟩
  have hasks := asks_congr hsizes vss
  rw [wp_checks_iff, hasks]
  refine ⟨fun hask => ?_, fun hstop => ?_, fun hask _ => ?_⟩
  · have hshrunk : Paced period (t.shrunk call) :=
      ⟨ht.watched, ⟨ht.mode.range, ht.mode.period⟩, ht.config⟩
    have hauto : (t.shrunk call).config.auto = w.config.auto :=
      congrArg PatronsConfig.auto hconfig
    rw [wp_ite]
    refine ⟨fun hresult => ?_, fun hresult => ?_⟩
    · have hspec := hshrunk.wp_startStrictMode
      rw [hauto] at hspec
      simpa [entersStrict, hask, hresult] using hspec
    · apply wp_total hshrunk.wp_stop
      intro _ u hu
      exact ⟨by simp [entersStrict, hresult], hu⟩
  · apply wp_total ht.wp_stop
    intro _ u hu
    rw [stops_congr hsizes] at hstop
    have hask : w.asks vss = false := by
      by_contra hask
      exact absurd hstop (by simp [not_stops_of_asks (by simpa using hask)])
    exact ⟨by simp [entersStrict, hask], hu⟩
  · exact ⟨by simp [entersStrict, hask], ht⟩

/-! ## Runs -/

/-- No `schedule` of the call throws. -/
def Returns (w : Watcher) (e : WatcherEvent) : Prop :=
  ∃ t, e.program.run noSites w = .done () t

/-- The call does not start the strict mode with a timer, or the period is not 1. -/
def Halvable (w : Watcher) : WatcherEvent → Prop
  | .tick vss call => w.entersStrict vss call = true → w.config.periodOfCheck ≠ 1
  | _ => True

theorem half_pos_iff_ne (hp : 0 < period.toInt) : ¬ 0 < (period / 2).toInt ↔ period = 1 := by
  have hone : (1 : Int32).toInt = 1 := by decide
  rw [half_pos_iff hp, ← Int32.toInt_inj, hone]
  omega

theorem wp_program {e : WatcherEvent} (h : Paced period w) (hp : 0 < period.toInt) :
    wp noSites e.program (fun _ t => Halvable w e ∧ Paced period t)
      (fun _ => ¬ Halvable w e) (fun _ => False) w := by
  cases e with
  | tick vss call =>
      apply wp_mono (wp_run_throws h hp)
      · intro _ t hend
        rcases hend with ⟨hgood, ht⟩
        rw [half_pos_iff_ne hp, ← h.config] at hgood
        exact ⟨fun henters hone => hgood ⟨henters, hone⟩, ht⟩
      · intro t hbad
        rw [half_pos_iff_ne hp, ← h.config] at hbad
        exact fun hgood => hgood hbad.1 hbad.2
      · exact fun _ hend => hend
  | inBackground =>
      exact wp_total (h.wp_lifecycle hp (.inl rfl)) fun _ _ ht => ⟨trivial, ht⟩
  | toForeground =>
      exact wp_total (h.wp_lifecycle hp (.inr rfl)) fun _ _ ht => ⟨trivial, ht⟩
  | shrinkRegionSpace n call =>
      exact wp_total (h.wp_shrinkRegionSpace n) fun _ _ ht => ⟨trivial, ht⟩

theorem returns_iff {e : WatcherEvent} (h : Paced period w) (hp : 0 < period.toInt) :
    Returns w e ↔ Halvable w e := by
  have hspec := wp_program (e := e) h hp
  constructor
  · intro hreturns
    obtain ⟨u, hu⟩ := hreturns
    exact (wp_done hspec hu).1
  · intro hgood
    cases hr : e.program.run noSites w with
    | done _ u => exact ⟨u, hr⟩
    | fault u =>
        have hbad := wp_fault hspec hr
        exact absurd hgood hbad
    | hang u => exact (wp_hang hspec hr).elim

/-- No tick of a run throws exactly if none starts the strict mode with a timer while the
configured period is 1. -/
theorem returns_run_iff {w₀ : Watcher} (h : w₀.Started) (hauto : w₀.config.auto = true)
    (es : List WatcherEvent) :
    watcher.Each (fun w e _ => Returns w e) es w₀ ↔
      watcher.Each (fun w e _ => Halvable w e) es w₀ := by
  rcases h.checking hauto with ⟨hp, hpaced⟩
  apply Machine.each_congr (I := Paced w₀.config.periodOfCheck) _ _ hpaced
  · intro w e t hw _
    exact returns_iff hw hp
  · intro w e t hw ht hreturns
    obtain ⟨u, hu⟩ := hreturns
    have hsame : u = t := by
      rw [← Option.some.inj ht, Java.after, hu]
      rfl
    rw [← hsame]
    exact (wp_done (wp_program hw hp) hu).2

theorem returns_run_iff_onPhone :
    watcher.Each (fun w e _ => Returns w e)
        [.tick 4000000000 ⟨true, true⟩, .inBackground, .toForeground]
        (onPhone { shrinkStep := 50 }) ↔
      watcher.Each (fun w e _ => Halvable w e)
        [.tick 4000000000 ⟨true, true⟩, .inBackground, .toForeground]
        (onPhone { shrinkStep := 50 }) :=
  returns_run_iff (started_after ⟨rfl, rfl, rfl, rfl⟩ (by decide +kernel)) (by decide +kernel) _

/-- With a configured period of 1 the first real shrink throws out of the tick: it schedules a
period of 0. -/
theorem half_of_one_throws :
    (onPhone { periodOfCheck := 1 }).Started ∧
      (onPhone { periodOfCheck := 1 }).config.auto = true ∧
      ¬ watcher.Each (fun w e _ => Returns w e) [.tick 4000000000 ⟨true, true⟩]
        (onPhone { periodOfCheck := 1 }) := by
  refine ⟨started_after ⟨rfl, rfl, rfl, rfl⟩ (by decide +kernel), by decide +kernel, ?_⟩
  intro h
  obtain ⟨t, ht⟩ := (h _ rfl).1
  have hnone : ((run 4000000000 ⟨true, true⟩).run noSites
      (onPhone { periodOfCheck := 1 })).result?.isSome = false := by decide +kernel
  rw [show (run 4000000000 ⟨true, true⟩).run noSites (onPhone { periodOfCheck := 1 }) =
    .done () t from ht] at hnone
  exact absurd hnone (by simp)

end Watcher
end Patrons
