import Mathlib.Data.Fintype.Basic
import Patrons.Model.TimerSteps
import Patrons.Verification.Watcher.Tick

/-! # One timer, on several threads

As long as no call cancels or creates a timer or writes the field while another one is in
progress, what a thread has read of `autoCheckVssTimer` is still true when it uses it. -/

namespace Patrons

open Prog

namespace TimerPc

/-- The field and the timers are between two writes. -/
def unsettled : TimerPc → Bool
  | clear _ | assign _ _ => true
  | _ => false

end TimerPc

namespace Watcher

/-- What a thread relies on at its next step. -/
def Local (w : Watcher) : TimerPc → Prop
  | .outside | .test _ => True
  | .read _ => w.autoCheckVssTimer ≠ none
  | .cancel ref _ => ref = w.autoCheckVssTimer ∧ ref ≠ none
  | .clear _ => w.timers = []
  | .construct _ => w.autoCheckVssTimer = none
  | .assign k _ => w.timers.map TimerObject.id = [k]
  | .reread _ => w.autoCheckVssTimer ≠ none ∧ w.OneTimer
  | .schedule ref _ => ref = w.autoCheckVssTimer ∧ ref ≠ none ∧ w.OneTimer
  | .nullPointer | .illegalState => False

variable {w v : Watcher} {pc : TimerPc}

/-- The same field and the same timers, which may have been scheduled meanwhile. -/
structure SameTimers (w v : Watcher) : Prop where
  field : v.autoCheckVssTimer = w.autoCheckVssTimer
  ids : v.timers.map TimerObject.id = w.timers.map TimerObject.id

theorem SameTimers.oneTimer (h : SameTimers w v) : v.OneTimer ↔ w.OneTimer := by
  rw [OneTimer, OneTimer, h.field, h.ids]

theorem SameTimers.nil (h : SameTimers w v) : v.timers = [] ↔ w.timers = [] := by
  rw [← List.map_eq_nil_iff (f := TimerObject.id), h.ids, List.map_eq_nil_iff]

theorem SameTimers.local_iff (h : SameTimers w v) : v.Local pc ↔ w.Local pc := by
  cases pc <;> simp only [Local, h.field, h.ids, h.oneTimer, h.nil]

/-! ## One step -/

theorem SameTimers.refl (w : Watcher) : SameTimers w w := ⟨rfl, rfl⟩

theorem local_after {next : Then} (h : w.autoCheckVssTimer = none) :
    w.Local (.after next) ∧ (TimerPc.after next).unsettled = false := by
  cases next with
  | none => exact ⟨trivial, rfl⟩
  | some period => exact ⟨h, rfl⟩

theorem map_id_scheduleRef (k : ℕ) (period : Int64) (w : Watcher) :
    (w.scheduleRef k period).timers.map TimerObject.id = w.timers.map TimerObject.id := by
  simp only [scheduleRef, List.map_map]
  apply List.map_congr_left
  intro t _
  dsimp only [Function.comp]
  split <;> rfl

theorem isLive_of_oneTimer {k : ℕ} (h : w.OneTimer) (hk : w.autoCheckVssTimer = some k) :
    w.isLive k = true := by
  have hids : k ∈ w.timers.map TimerObject.id := by
    rw [h, hk]
    simp
  obtain ⟨t, ht, hid⟩ := List.mem_map.mp hids
  exact List.any_eq_true.mpr ⟨t, ht, by simpa using hid⟩

/-- The field is read and nothing else is touched, or the timer of the field is scheduled. -/
theorem timerStep_reads (hl : w.Local pc) (hw : pc.writes = false) :
    SameTimers w (w.timerStep pc).1 ∧ (w.timerStep pc).1.Local (w.timerStep pc).2 ∧
      (w.timerStep pc).2.unsettled = false := by
  cases pc with
  | outside => exact ⟨.refl w, trivial, rfl⟩
  | test next =>
      refine ⟨.refl w, ?_⟩
      simp only [timerStep]
      split
      · rename_i hnone
        exact local_after hnone
      · rename_i hsome
        exact ⟨hsome, rfl⟩
  | read next => exact ⟨.refl w, ⟨rfl, hl⟩, rfl⟩
  | reread period => exact ⟨.refl w, ⟨rfl, hl⟩, rfl⟩
  | schedule ref period =>
      rcases hl with ⟨href, hne, hone⟩
      cases ref with
      | none => exact absurd rfl hne
      | some k =>
          simp only [timerStep, isLive_of_oneTimer hone href.symm, if_true]
          exact ⟨⟨rfl, map_id_scheduleRef k _ w⟩, trivial, rfl⟩
  | nullPointer => exact hl.elim
  | illegalState => exact hl.elim
  | _ => exact absurd hw (by simp [TimerPc.writes])

/-- A write of a thread for which the field and the timers are as it left them. -/
theorem timerStep_writes (hl : w.Local pc) (hw : pc.writes = true)
    (hone : pc.unsettled = false → w.OneTimer) :
    (w.timerStep pc).1.Local (w.timerStep pc).2 ∧
      ((w.timerStep pc).2.unsettled = false → (w.timerStep pc).1.OneTimer) := by
  cases pc with
  | cancel ref next =>
      rcases hl with ⟨href, hne⟩
      cases ref with
      | none => exact absurd rfl hne
      | some k =>
          have hids := hone rfl
          rw [OneTimer, ← href] at hids
          refine ⟨?_, fun hsettled => absurd hsettled (by simp [timerStep, TimerPc.unsettled])⟩
          simp only [timerStep, Local, cancelRef, List.filter_eq_nil_iff]
          intro t ht
          have hmem : t.id ∈ w.timers.map TimerObject.id := List.mem_map_of_mem ht
          rw [hids] at hmem
          simpa using hmem
  | clear next =>
      have hnone : w.timers = [] := hl
      refine ⟨(local_after rfl).1, fun _ => ?_⟩
      simp only [timerStep, OneTimer, setTimer, hnone]
      rfl
  | construct period =>
      have hfield : w.autoCheckVssTimer = none := hl
      have hids := hone rfl
      rw [OneTimer, hfield] at hids
      have hnone : w.timers = [] := List.map_eq_nil_iff.mp hids
      refine ⟨?_, fun hsettled => absurd hsettled (by simp [timerStep, TimerPc.unsettled])⟩
      simp [timerStep, Local, construct, hnone]
  | assign k period =>
      have hids : w.timers.map TimerObject.id = [k] := hl
      have hset : (w.setTimer (some k)).OneTimer := hids
      exact ⟨⟨by simp [timerStep, setTimer], hset⟩, fun _ => hset⟩
  | _ => exact absurd hw (by simp [TimerPc.writes])

end Watcher

/-! ## All interleavings -/

section
variable {ι : Type*}

/-- No thread is stopped by an exception, and between the calls the only timer that is not
cancelled is that of the field. -/
structure TimersSafe (s : TimerThreads ι) : Prop where
  noThrow : ∀ i, (s.pc i).threw = false
  oneTimer : (∀ i, (s.pc i).inProgress = false) →
    ∀ t ∈ s.watcher.timers, s.watcher.autoCheckVssTimer = some t.id

/-- No call cancels or creates a timer or writes the field while another one is in progress. -/
def Exclusive (s : TimerThreads ι) : TimerEvent ι → Prop
  | .step i => (s.pc i).writes = true → ∀ j, j ≠ i → (s.pc j).inProgress = false
  | _ => True

instance [Fintype ι] [DecidableEq ι] (s : TimerThreads ι) : ∀ e, Decidable (Exclusive s e)
  | .step i => inferInstanceAs (Decidable ((s.pc i).writes = true →
      ∀ j, j ≠ i → (s.pc j).inProgress = false))
  | .inBackground _ => isTrue trivial
  | .start _ _ => isTrue trivial
  | .autoOff => isTrue trivial

structure Tidy (s : TimerThreads ι) : Prop where
  local_ : ∀ i, s.watcher.Local (s.pc i)
  oneTimer : (∀ i, (s.pc i).unsettled = false) → s.watcher.OneTimer

theorem not_threw_of_local {w : Watcher} {pc : TimerPc} (h : w.Local pc) : pc.threw = false := by
  cases pc <;> first | rfl | exact h.elim

theorem local_of_not_inProgress {w v : Watcher} {pc : TimerPc} (h : w.Local pc)
    (hpc : pc.inProgress = false) : v.Local pc ∧ pc.unsettled = false := by
  cases pc with
  | outside => exact ⟨trivial, rfl⟩
  | nullPointer => exact h.elim
  | illegalState => exact h.elim
  | _ => exact absurd hpc (by simp [TimerPc.inProgress])

theorem Tidy.safe {s : TimerThreads ι} (h : Tidy s) : TimersSafe s := by
  refine ⟨fun i => not_threw_of_local (h.local_ i), fun hidle t ht => ?_⟩
  have hone := h.oneTimer fun i => (local_of_not_inProgress (v := s.watcher) (h.local_ i)
    (hidle i)).2
  have hmem : t.id ∈ s.watcher.autoCheckVssTimer.toList := by
    rw [← hone]
    exact List.mem_map_of_mem ht
  simpa using hmem

variable [DecidableEq ι] {s t : TimerThreads ι} {i : ι}

theorem Tidy.enter (hs : Tidy s) {next : Then} (h : s.enter i next = some t) : Tidy t := by
  unfold TimerThreads.enter at h
  split at h
  · rename_i hout
    have ht := Option.some.inj h
    split at ht
    · rw [← ht]
      refine ⟨fun j => ?_, fun hsettled => hs.oneTimer fun j => ?_⟩
      · by_cases hji : j = i
        · simp [hji, Watcher.Local]
        · simpa [hji] using hs.local_ j
      · by_cases hji : j = i
        · rw [hji, hout]
          rfl
        · simpa [hji] using hsettled j
    · exact ht ▸ hs
  · exact absurd h (by simp)

theorem Tidy.step (hs : Tidy s) (h : timerThreads.step s (.step i) = some t)
    (hexcl : Exclusive s (.step i)) : Tidy t := by
  have hi := hs.local_ i
  simp only [timerThreads] at h
  split at h
  · rw [← Option.some.inj h]
    cases hw : (s.pc i).writes with
    | false =>
        obtain ⟨hsame, hnext, hset⟩ := Watcher.timerStep_reads hi hw
        have hbefore : (s.pc i).unsettled = false := by
          cases hpc : s.pc i <;> rw [hpc] at hw <;>
            first | rfl | exact absurd hw (by simp [TimerPc.writes])
        refine ⟨fun j => ?_, fun hsettled => hsame.oneTimer.mpr (hs.oneTimer fun j => ?_)⟩
        · by_cases hji : j = i
          · simpa [hji] using hnext
          · simpa [hji] using hsame.local_iff.mpr (hs.local_ j)
        · by_cases hji : j = i
          · rw [hji, hbefore]
          · simpa [hji] using hsettled j
    | true =>
        have hothers := fun j (hji : j ≠ i) => local_of_not_inProgress
          (v := (s.watcher.timerStep (s.pc i)).1) (hs.local_ j) (hexcl hw j hji)
        have hone : (s.pc i).unsettled = false → s.watcher.OneTimer := by
          intro hself
          refine hs.oneTimer fun j => ?_
          by_cases hji : j = i
          · rw [hji, hself]
          · exact (hothers j hji).2
        obtain ⟨hnext, hset⟩ := Watcher.timerStep_writes hi hw hone
        refine ⟨fun j => ?_, fun hsettled => hset ?_⟩
        · by_cases hji : j = i
          · simpa [hji] using hnext
          · simpa [hji] using (hothers j hji).1
        · simpa using hsettled i
  · exact absurd h (by simp)

theorem tidy_step {e : TimerEvent ι} (hs : Tidy s) (h : timerThreads.step s e = some t)
    (hexcl : Exclusive s e) : Tidy t := by
  cases e with
  | inBackground i => exact hs.enter h
  | start i period =>
      simp only [timerThreads] at h
      split at h
      · exact hs.enter h
      · exact absurd h (by simp)
  | step i => exact hs.step h hexcl
  | autoOff =>
      rw [← Option.some.inj h]
      refine ⟨fun i => ?_, hs.oneTimer⟩
      have hsame : Watcher.SameTimers s.watcher s.watcher.setAutoOff := ⟨rfl, rfl⟩
      exact hsame.local_iff.mpr (hs.local_ i)

/-- From an init that returned 0 on, exclusive writes keep the timer handling safe on any
threads. -/
theorem timersSafe_run {w : Watcher} (hw : w.Started) (es : List (TimerEvent ι))
    (h : timerThreads.Each (fun s e _ => Exclusive s e) es { watcher := w }) :
    timerThreads.Each (fun _ _ t => TimersSafe t) es { watcher := w } := by
  refine Machine.each_of_invariant (I := Tidy) ?_ ⟨fun _ => trivial, fun _ => ?_⟩ h
  · intro s e t hs hstep hexcl
    have ht := tidy_step hs hstep hexcl
    exact ⟨ht.safe, ht⟩
  · exact hw.ready.watched.1

/-! ## Without a break -/

def Alone (i : ι) (w : Watcher) (pc : TimerPc) (w' : Watcher) (pc' : TimerPc) : Prop :=
  ∃ n, ∀ pcs : ι → TimerPc,
    timerThreads.exec (List.replicate n (.step i)) ⟨w, Function.update pcs i pc⟩ =
      some ⟨w', Function.update pcs i pc'⟩

theorem alone_step (w : Watcher) (pc : TimerPc) (h : pc.inProgress = true) :
    Alone i w pc (w.timerStep pc).1 (w.timerStep pc).2 :=
  ⟨1, fun _ => by simp [timerThreads, h]⟩

theorem Alone.trans {w w' w'' : Watcher} {pc pc' pc'' : TimerPc} (h : Alone i w pc w' pc')
    (h' : Alone i w' pc' w'' pc'') : Alone i w pc w'' pc'' := by
  obtain ⟨n, hn⟩ := h
  obtain ⟨m, hm⟩ := h'
  refine ⟨n + m, fun pcs => ?_⟩
  rw [List.replicate_add, Machine.exec_append, hn, Option.bind_some, hm]

theorem alone_cancelTimer (w : Watcher) (next : Then) :
    Alone i w (.test next) w.cancelTimer (.after next) := by
  have htest := alone_step (i := i) w (.test next) rfl
  cases hfield : w.autoCheckVssTimer with
  | none =>
      simp only [Watcher.timerStep, hfield, if_true] at htest
      simpa only [Watcher.cancelTimer, hfield] using htest
  | some k =>
      simp only [Watcher.timerStep, hfield, reduceCtorEq, if_false] at htest
      have hread := alone_step (i := i) w (.read next) rfl
      simp only [Watcher.timerStep, hfield] at hread
      have hcancel := alone_step (i := i) w (.cancel (some k) next) rfl
      have hclear := alone_step (i := i) (w.cancelRef k) (.clear next) rfl
      have hall := ((htest.trans hread).trans hcancel).trans hclear
      simpa only [Watcher.cancelTimer, hfield, Watcher.cancelRef, Watcher.setTimer,
        Watcher.timerStep] using hall

theorem alone_inBackground {w : Watcher} (hauto : w.config.auto = true) :
    Alone i w (.test none) (Watcher.inBackground.after w) .outside := by
  have hafter : Watcher.inBackground.after w = w.cancelTimer := by
    simp [Java.after, Watcher.inBackground, hauto, Prog.when, Outcome.state]
  rw [hafter]
  exact alone_cancelTimer w none

/-- The steps of `_start`, one after the other, are `Watcher.start_`. -/
theorem alone_start {w : Watcher} {p : Int32} (hauto : w.config.auto = true)
    (hp : 0 < p.toInt64 * Watcher.S) :
    Alone i w (.test (some p)) ((Watcher.start_ p).after w) .outside := by
  have hafter : (Watcher.start_ p).after w =
      w.cancelTimer.newTimer.setPeriod (p.toInt64 * Watcher.S) := by
    simp [Java.after, Watcher.start_, Watcher.schedule, hauto, Prog.when, Prog.run_guard, hp,
      Outcome.state]
  have hcancel := alone_cancelTimer (i := i) w (some p)
  have hconstruct := alone_step (i := i) w.cancelTimer (.construct p) rfl
  have hassign := alone_step (i := i) w.cancelTimer.construct
    (.assign w.cancelTimer.timersCreated p) rfl
  have hreread := alone_step (i := i) w.cancelTimer.newTimer (.reread p) rfl
  have hschedule := alone_step (i := i) w.cancelTimer.newTimer
    (.schedule (some w.cancelTimer.timersCreated) p) rfl
  have hlive : w.cancelTimer.newTimer.isLive w.cancelTimer.timersCreated = true := by
    simp [Watcher.newTimer, Watcher.isLive]
  simp only [Watcher.timerStep, hlive, if_true] at hschedule
  have hsame : w.cancelTimer.newTimer.scheduleRef w.cancelTimer.timersCreated
      (p.toInt64 * Watcher.S) = w.cancelTimer.newTimer.setPeriod (p.toInt64 * Watcher.S) := by
    simp [Watcher.scheduleRef, Watcher.setPeriod, Watcher.newTimer]
  rw [hafter, ← hsame]
  exact (((hcancel.trans hconstruct).trans hassign).trans hreread).trans hschedule

end

namespace Watcher

inductive Caller where
  | timer
  | main
  deriving DecidableEq

instance : Fintype Caller := ⟨{.timer, .main}, fun c => by cases c <;> decide⟩

theorem timersSafe_onPhone :
    timerThreads.Each (fun _ _ t => TimersSafe t)
      (.start Caller.timer 15 :: List.replicate 8 (.step .timer) ++ .inBackground .main ::
        List.replicate 4 (.step .main) ++ .start .main 30 :: List.replicate 5 (.step .main))
      { watcher := onPhone {} } :=
  timersSafe_run (started_after ⟨rfl, rfl, rfl, rfl⟩ (by decide +kernel)) _ (by decide +kernel)

/-- The thread of the timer has tested the field when `inBackground` sets it to `null`. -/
def clearedMeanwhile : List (TimerEvent Caller) :=
  [.start .timer 15, .step .timer, .inBackground .main, .step .main, .step .main, .step .main,
    .step .main, .step .timer]

/-- The next step of the tick is a call on `null`. -/
theorem cancel_of_null :
    (onPhone {}).Started ∧
      ∃ t, timerThreads.exec (clearedMeanwhile ++ [.step .timer]) { watcher := onPhone {} } =
          some t ∧
        t.pc .timer = .nullPointer ∧
        ¬ timerThreads.Each (fun _ _ t => TimersSafe t) (clearedMeanwhile ++ [.step .timer])
          { watcher := onPhone {} } := by
  refine ⟨started_after ⟨rfl, rfl, rfl, rfl⟩ (by decide +kernel), ?_⟩
  obtain ⟨u, hu⟩ := Option.isSome_iff_exists.mp (by decide +kernel :
    (timerThreads.exec clearedMeanwhile { watcher := onPhone {} }).isSome = true)
  obtain ⟨t, ht, hpc⟩ := Option.map_eq_some_iff.mp (by decide +kernel :
    (timerThreads.exec (clearedMeanwhile ++ [.step .timer]) { watcher := onPhone {} }).map
      (fun t => t.pc .timer) = some .nullPointer)
  refine ⟨t, ht, hpc, fun h => ?_⟩
  have hstep := Machine.step_of_exec_append hu ht
  have hsafe := ((timerThreads.each_append.mp h).2 u hu t hstep).1
  have hthrew := hsafe.noThrow .timer
  rw [hpc] at hthrew
  exact absurd hthrew (by decide)

/-- Two calls find `null` and go on in turn. -/
def bothFindNull : List (TimerEvent Caller) :=
  .inBackground .main :: List.replicate 4 (.step .main) ++
    [.start .timer 15, .start .main 30, .step .timer, .step .main, .step .timer, .step .main,
      .step .timer, .step .main, .step .timer, .step .timer, .step .main, .step .main]

-- they leave two timers, of which `autoCheckVssTimer` has one
example :
    (timerThreads.exec bothFindNull { watcher := onPhone {} }).map (fun t =>
      (t.watcher.timers.map TimerObject.id, t.watcher.autoCheckVssTimer)) =
        some ([2, 1], some 2) := by
  decide +kernel

end Watcher
end Patrons
