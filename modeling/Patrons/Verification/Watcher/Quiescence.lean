import Patrons.Model.Ticks
import Patrons.Verification.Watcher.Tick

/-! # Quiescence after `inBackground` and `stop`

A tick that is running when the watching is ended may still restart it, and `stop` is not
atomic. -/

namespace Patrons

open Prog

/-- The steps of a tick, without a break, are `AutoCheckerTask.run`. -/
theorem TickPc.finish_eq_run (vss : Int64) (call : NativeCall) :
    TickPc.finish vss call 7 .strictTest = Watcher.run vss call := by
  unfold Watcher.run
  simp only [TickPc.finish, TickPc.step, Watcher.startStrictMode, Watcher.stop, bind_assoc,
    ite_bind, pure_bind, bind_pure_unit, reduceCtorEq, if_false, if_true]

namespace Watcher

/-! ## What the steps do to the timers -/

def control (w : Watcher) : List TimerObject × Option ℕ × Bool :=
  (w.timers, w.autoCheckVssTimer, w.config.auto)

theorem watched_congr {w t : Watcher} (h : w.Watched) (ht : t.control = w.control) :
    t.Watched := by
  simp only [control, Prod.mk.injEq] at ht
  rcases ht with ⟨htimers, hnull, hauto⟩
  unfold Watched OneTimer at *
  rw [htimers, hnull, hauto]
  exact h

variable {c : List TimerObject × Option ℕ × Bool}

theorem keeps_control_shrinkByStep (call : NativeCall) :
    Keeps noSites (fun t => t.control = c) (shrinkByStep call) := by
  intro w hw
  rw [wp_shrinkByStep]
  exact hw

end Watcher

namespace TickPc

def restarts : TickPc → Bool
  | startChecks | startStrictMode => true
  | _ => false

variable {vss : Int64} {call : NativeCall} {pc : TickPc} {w : Watcher}

theorem quiets_of_restarts (h : pc.restarts = true) : pc.quiets = false := by
  cases pc with
  | startChecks => rfl
  | startStrictMode => rfl
  | _ => exact absurd h (by simp [restarts])

theorem eq_stopInBackground (h : pc.quiets = true) (hne : pc ≠ stopAuto) :
    pc = stopInBackground := by
  cases pc with
  | stopInBackground => rfl
  | stopAuto => exact absurd rfl hne
  | _ => exact absurd h (by simp [quiets])

/-- The tests, the native shrink and the write of the strict counter. -/
theorem keeps_control_step (hrestart : pc.restarts = false) (hquiet : pc.quiets = false)
    {c : List TimerObject × Option ℕ × Bool} :
    Keeps noSites (fun t => t.control = c) (TickPc.step vss call pc) := by
  have hpure : ∀ next : TickPc, Keeps noSites (fun t : Watcher => t.control = c) (pure next) :=
    fun next => keeps_pure next
  cases pc with
  | startChecks => exact absurd hrestart (by simp [restarts])
  | startStrictMode => exact absurd hrestart (by simp [restarts])
  | stopInBackground => exact absurd hquiet (by simp [quiets])
  | stopAuto => exact absurd hquiet (by simp [quiets])
  | idle => exact hpure _
  | dead => exact hpure _
  | strictTest =>
      apply keeps_bind (Watcher.keeps_exitsStrictMode fun _ _ h => h)
      intro exits
      exact keeps_ite (hpure _) (hpure _)
  | spaceTest =>
      apply keeps_bind keeps_get
      intro w
      exact keeps_ite (hpure _) (hpure _)
  | periodTest =>
      apply keeps_bind keeps_get
      intro w
      exact keeps_ite (hpure _) (hpure _)
  | sizeTest =>
      apply keeps_bind keeps_get
      intro w
      exact keeps_ite (hpure _) (hpure _)
  | shrink =>
      apply keeps_bind (Watcher.keeps_control_shrinkByStep call)
      intro result
      exact keeps_ite (hpure _) (hpure _)
  | enterStrictMode =>
      have hset : Keeps noSites (fun t => t.control = c) (Prog.modify (Watcher.setStrict 1)) :=
        keeps_modify fun _ h => h
      apply keeps_bind hset
      intro _
      exact hpure _

/-- A restart creates a timer while `config.auto` is set, and does nothing otherwise. -/
structure Restarted (w t : Watcher) : Prop where
  watched : t.Watched
  live : w.config.auto = true → t.timers ≠ []
  off : w.config.auto = false → t.timers = w.timers

theorem restarted_of_auto {t : Watcher} (hauto : w.config.auto = true) (hwatched : t.Watched)
    (hlive : t.timers ≠ []) : Restarted w t := by
  refine ⟨hwatched, fun _ => hlive, ?_⟩
  intro hoff
  exact absurd (hoff.symm.trans hauto) (by simp)

theorem wp_start (p : Int32) (h : w.Watched) :
    wp noSites (Watcher.start_ p) (fun _ => Restarted w) (Restarted w) (Restarted w) w := by
  simp only [Watcher.start_, Watcher.schedule, wp_bind, wp_get, wp_when, wp_modify, wp_guard]
  constructor
  · intro hauto
    have hwatched := Watcher.stable_watched.restart w hauto h
    constructor
    · intro _
      exact restarted_of_auto hauto hwatched (List.cons_ne_nil _ _)
    · intro _
      exact restarted_of_auto hauto (Watcher.stable_watched.period _ _ hwatched)
        (List.cons_ne_nil _ _)
  · intro hoff
    refine ⟨h, ?_, fun _ => rfl⟩
    intro hauto
    exact absurd (hoff.symm.trans hauto) (by simp)

theorem after_restart (hrestart : pc.restarts = true) (h : w.Watched) :
    Restarted w ((TickPc.step vss call pc).after w) := by
  apply wp_state.mp
  cases pc with
  | startChecks =>
      simp only [TickPc.step, Watcher.startChecks, wp_bind, wp_get, wp_pure]
      exact wp_start _ h
  | startStrictMode =>
      simp only [TickPc.step, wp_bind, wp_get, wp_pure]
      exact wp_start _ h
  | _ => exact absurd hrestart (by simp [restarts])

theorem after_neutral (hrestart : pc.restarts = false) (hquiet : pc.quiets = false) :
    ((TickPc.step vss call pc).after w).control = w.control :=
  wp_state.mp (keeps_control_step hrestart hquiet w rfl)

end TickPc

namespace Watcher

def Idle (w : Watcher) : Prop := w.Watched ∧ w.timers = []

theorem wp_inBackground {w : Watcher} (h : w.Watched) :
    wp noSites inBackground (fun _ => Idle) Idle Idle w := by
  simp only [inBackground, wp_bind, wp_get, wp_when, wp_modify]
  constructor
  · intro hauto
    exact ⟨stable_watched.cancel w hauto h, (timers_cancelTimer h.1).1⟩
  · intro hoff
    exact ⟨h, h.2 hoff⟩

end Watcher

namespace Ticks

/-! ## Runs -/

/-- Nothing is left un-cancelled once the watching has been ended. -/
def Quiescent (_ : Ticks) (_ : TickEvent) (t : Ticks) : Prop :=
  t.quiet = true → t.watcher.timers = []

/-- No tick restarts the checks after an `inBackground` or a `stop`, and `stop` resets
`config.auto` while there is no timer. -/
def Prompt (s : Ticks) (e : TickEvent) (_ : Ticks) : Prop :=
  match e with
  | .step k _ _ =>
    ((s.pc k).restarts = true → s.watcher.config.auto = true → s.quiet = false) ∧
      (s.pc k = .stopAuto → s.watcher.autoCheckVssTimer = none)
  | _ => True

instance (s : Ticks) (e : TickEvent) (t : Ticks) : Decidable (Quiescent s e t) :=
  inferInstanceAs (Decidable (_ → _))

instance (s : Ticks) (e : TickEvent) (t : Ticks) : Decidable (Prompt s e t) :=
  match e with
  | .step _ _ _ => inferInstanceAs (Decidable ((_ → _ → _) ∧ (_ → _)))
  | .begin _ => isTrue trivial
  | .inBackground => isTrue trivial
  | .toForeground => isTrue trivial

/-- A state of a run that has been quiescent so far. -/
structure Calm (s : Ticks) : Prop where
  watched : s.watcher.Watched
  quiet : s.quiet = true → s.watcher.timers = []

variable {s t : Ticks} {k : ℕ} {vss : Int64} {call : NativeCall}

theorem watcher_stepTick :
    (s.stepTick k vss call).watcher = (TickPc.step vss call (s.pc k)).after s.watcher := rfl

theorem quiet_stepTick (h : (s.pc k).quiets = false) :
    (s.stepTick k vss call).quiet = s.quiet := by
  simp [stepTick, h]

theorem calm_neutral (hs : s.Calm) (hrestart : (s.pc k).restarts = false)
    (hquiet : (s.pc k).quiets = false) : (s.stepTick k vss call).Calm := by
  have hcontrol : ((TickPc.step vss call (s.pc k)).after s.watcher).control = s.watcher.control :=
    TickPc.after_neutral hrestart hquiet
  refine ⟨Watcher.watched_congr hs.watched hcontrol, ?_⟩
  rw [quiet_stepTick hquiet, watcher_stepTick]
  intro h
  exact (congrArg Prod.fst hcontrol).trans (hs.quiet h)

theorem calm_stopInBackground (hs : s.Calm) (hpc : s.pc k = .stopInBackground) :
    (s.stepTick k vss call).Calm := by
  have hidle : ((TickPc.step vss call .stopInBackground).after s.watcher).Idle := by
    apply wp_state.mp
    simp only [TickPc.step, wp_bind, wp_pure]
    exact Watcher.wp_inBackground hs.watched
  rw [← hpc, ← watcher_stepTick] at hidle
  exact ⟨hidle.1, fun _ => hidle.2⟩

/-- The step is quiescent exactly when it is prompt, and then it leaves a calm state. -/
structure Agrees (s : Ticks) (e : TickEvent) (t : Ticks) : Prop where
  iff : Quiescent s e t ↔ Prompt s e t
  calm : Quiescent s e t → t.Calm

theorem agrees_of_calm {e : TickEvent} (ht : t.Calm) (hprompt : Prompt s e t) :
    Agrees s e t :=
  ⟨⟨fun _ => hprompt, fun _ => ht.quiet⟩, fun _ => ht⟩

/-- The end of `stop` leaves nothing un-cancelled exactly when there is no timer. -/
theorem agrees_stopAuto (hs : s.Calm) (hpc : s.pc k = .stopAuto) :
    Agrees s (.step k vss call) (s.stepTick k vss call) := by
  have hwatcher : (s.stepTick k vss call).watcher = s.watcher.setAutoOff := by
    rw [watcher_stepTick, hpc]
    rfl
  have hquiet : (s.stepTick k vss call).quiet = true := by
    simp [stepTick, hpc, TickPc.quiets]
  have hone : s.watcher.timers = [] ↔ s.watcher.autoCheckVssTimer = none := by
    have h := hs.watched.1
    unfold Watcher.OneTimer at h
    rw [← List.map_eq_nil_iff (f := TimerObject.id), h]
    cases s.watcher.autoCheckVssTimer <;> simp
  have htimers : (s.stepTick k vss call).watcher.timers = s.watcher.timers := by
    rw [hwatcher]
    rfl
  constructor
  · rw [Quiescent, htimers, hone, Prompt, hpc]
    constructor
    · intro h
      exact ⟨fun hrestart => absurd hrestart (by simp [TickPc.restarts]), fun _ => h hquiet⟩
    · intro h _
      exact h.2 rfl
  · intro h
    refine ⟨?_, h⟩
    have hnone := h hquiet
    rw [htimers] at hnone
    rw [hwatcher]
    exact ⟨hs.watched.1, fun _ => hnone⟩

/-- A restart leaves nothing un-cancelled after the end of the watching exactly when the
watching has not been ended or `config.auto` is reset. -/
theorem agrees_restart (hs : s.Calm) (hrestart : (s.pc k).restarts = true) :
    Agrees s (.step k vss call) (s.stepTick k vss call) := by
  have h : TickPc.Restarted s.watcher (s.stepTick k vss call).watcher :=
    TickPc.after_restart hrestart hs.watched
  have hquiet : (s.stepTick k vss call).quiet = s.quiet :=
    quiet_stepTick (TickPc.quiets_of_restarts hrestart)
  have hstop : s.pc k ≠ .stopAuto := by
    intro hpc
    rw [hpc] at hrestart
    exact absurd hrestart (by simp [TickPc.restarts])
  refine ⟨?_, fun hq => ⟨h.watched, hq⟩⟩
  unfold Quiescent Prompt
  rw [hquiet]
  constructor
  · intro hq
    refine ⟨?_, fun hpc => absurd hpc hstop⟩
    intro _ hauto
    by_contra hended
    exact h.live hauto (hq (Bool.not_eq_false _ ▸ hended))
  · intro hprompt hended
    cases hauto : s.watcher.config.auto with
    | true => exact absurd (hended.symm.trans (hprompt.1 hrestart hauto)) (by simp)
    | false =>
        rw [h.off hauto]
        exact hs.quiet hended

theorem agrees_stepTick (hs : s.Calm) :
    Agrees s (.step k vss call) (s.stepTick k vss call) := by
  cases hrestart : (s.pc k).restarts with
  | true => exact agrees_restart hs hrestart
  | false =>
      have hprompt : s.pc k ≠ .stopAuto →
          Prompt s (.step k vss call) (s.stepTick k vss call) := by
        intro hstop
        refine ⟨fun h => absurd (h.symm.trans hrestart) (by simp), fun h => absurd h hstop⟩
      cases hquiet : (s.pc k).quiets with
      | false =>
          apply agrees_of_calm (calm_neutral hs hrestart hquiet)
          apply hprompt
          intro hpc
          rw [hpc] at hquiet
          exact absurd hquiet (by simp [TickPc.quiets])
      | true =>
          by_cases hstop : s.pc k = .stopAuto
          · exact agrees_stopAuto hs hstop
          · have hpc : s.pc k = .stopInBackground := TickPc.eq_stopInBackground hquiet hstop
            exact agrees_of_calm (calm_stopInBackground hs hpc) (hprompt hstop)

theorem agrees_step {e : TickEvent} (hs : s.Calm) (h : ticks.step s e = some t) :
    Agrees s e t := by
  cases e with
  | begin k =>
      simp only [ticks, Option.ite_none_right_eq_some, Option.some.injEq] at h
      rw [← h.2]
      exact agrees_of_calm ⟨hs.watched, hs.quiet⟩ trivial
  | inBackground =>
      have hidle : (Watcher.inBackground.after s.watcher).Idle :=
        wp_state.mp (Watcher.wp_inBackground hs.watched)
      rw [← Option.some.inj h]
      exact agrees_of_calm ⟨hidle.1, fun _ => hidle.2⟩ trivial
  | toForeground =>
      have hwatched : (Watcher.toForeground.after s.watcher).Watched :=
        wp_state.mp (Watcher.stable_watched.keeps_toForeground _ hs.watched)
      rw [← Option.some.inj h]
      exact agrees_of_calm ⟨hwatched, fun hquiet => absurd hquiet (by simp)⟩ trivial
  | step k vss call =>
      simp only [ticks, Option.ite_none_left_eq_some, Option.some.injEq] at h
      rw [← h.2]
      exact agrees_stepTick hs

/-- In every run nothing un-cancelled is left once the watching has been ended exactly when
no tick restarts the checks after that and `stop` resets `config.auto` while there is no
timer. -/
theorem quiescent_iff_prompt {w : Watcher} (hw : w.Started) (es : List TickEvent) :
    ticks.Each Quiescent es { watcher := w } ↔ ticks.Each Prompt es { watcher := w } := by
  have hs : Calm { watcher := w } := ⟨hw.ready.watched, by simp⟩
  apply Machine.each_congr _ _ hs
  · intro s e t hs hstep
    exact (agrees_step hs hstep).iff
  · intro s e t hs hstep hquiescent
    exact (agrees_step hs hstep).calm hquiescent

theorem quiescent_onPhone :
    ticks.Each Quiescent
      [.begin 0, .step 0 0 ⟨true, true⟩, .step 0 0 ⟨true, true⟩, .step 0 4000000000 ⟨true, true⟩,
        .step 0 0 ⟨true, true⟩, .step 0 0 ⟨true, true⟩, .step 0 0 ⟨true, true⟩, .inBackground]
      { watcher := Watcher.onPhone {} } :=
  (quiescent_iff_prompt (Watcher.started_after ⟨rfl, rfl, rfl, rfl⟩ (by decide +kernel)) _).mpr
    (by decide +kernel)

/-- A tick that has shrunk the space restarts the checks after the app went to the
background. -/
theorem restart_after_inBackground :
    (Watcher.onPhone {}).Started ∧
      ¬ ticks.Each Quiescent
        [.begin 0, .step 0 0 ⟨true, true⟩, .step 0 0 ⟨true, true⟩,
          .step 0 4000000000 ⟨true, true⟩, .step 0 0 ⟨true, true⟩, .step 0 0 ⟨true, true⟩,
          .inBackground, .step 0 0 ⟨true, true⟩]
        { watcher := Watcher.onPhone {} } :=
  ⟨Watcher.started_after ⟨rfl, rfl, rfl, rfl⟩ (by decide +kernel), by decide +kernel⟩

end Ticks
end Patrons
