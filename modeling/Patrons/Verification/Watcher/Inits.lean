import Patrons.Model.Inits
import Patrons.Verification.Watcher.Strict

/-! # Inits on several threads

A watcher that runs can be controlled as long as no init that failed takes back the `hasInit`
of one that succeeded. -/

namespace Patrons

open Prog

namespace Watcher

/-! ## What init and a tick leave of `hasInit` -/

variable {I : Watcher → Prop} {vss : Int64} {call : NativeCall}

theorem Stable.keeps_run (h : Stable I) (hshrunk : ∀ w call, I w → I (w.shrunk call))
    (hoff : ∀ w, I w → I w.setAutoOff) : Keeps noSites I (run vss call) := by
  have hstop : Keeps noSites I stop := keeps_bind h.keeps_inBackground fun _ => keeps_modify hoff
  rw [run_eq_pace]
  apply keeps_bind
  · apply keeps_bind (keeps_exitsStrictMode h.strict)
    intro exits
    cases exits with
    | false => exact keeps_pure ()
    | true => exact h.keeps_startChecks
  · intro _ w hw
    rw [wp_checks_iff]
    refine ⟨fun _ => ?_, fun _ => hstop w hw, fun _ _ => hw⟩
    exact keeps_ite h.keeps_startStrictMode hstop _ (hshrunk w call hw)

theorem hasInit_cancelTimer (w : Watcher) : w.cancelTimer.hasInit = w.hasInit := by
  unfold cancelTimer
  cases w.autoCheckVssTimer <;> rfl

theorem stable_hasInit (b : Bool) : Stable fun w => w.hasInit = b := by
  constructor
  · intro w n h
    exact h
  · intro w _ h
    exact (hasInit_cancelTimer w).trans h
  · intro w _ h
    exact (hasInit_cancelTimer w).trans h
  · intro w p h
    exact h

theorem hasInit_run (w : Watcher) : ((run vss call).after w).hasInit = w.hasInit :=
  wp_state.mp ((stable_hasInit w.hasInit).keeps_run (fun _ _ h => h) (fun _ h => h) w rfl)

theorem after_ifInit {x : Java Unit} (w : Watcher) (hx : x = inBackground ∨ x = toForeground) :
    ((ifInit x).after w).hasInit = w.hasInit ∧
      (w.hasInit = false → (ifInit x).after w = w) := by
  have hstable := stable_hasInit w.hasInit
  have hkeeps : Keeps noSites (fun t => t.hasInit = w.hasInit) x := by
    rcases hx with rfl | rfl
    · exact hstable.keeps_inBackground
    · exact hstable.keeps_toForeground
  constructor
  · exact wp_state.mp (keeps_ifInit hkeeps w rfl)
  · intro hoff
    have hspec : wp noSites (ifInit x) (fun _ t => t = w) (fun t => t = w) (fun t => t = w) w := by
      simp only [ifInit, wp_bind, wp_get, wp_when]
      exact ⟨fun hon => absurd (hoff.symm.trans hon) (by simp), fun _ => trivial⟩
    exact wp_state.mp hspec

def startsChecks (config : Option PatronsConfig) (r : InitReads) (w : Watcher) : Bool :=
  let config := config.getD w.config
  let size := w.getCurrentRegionSpaceSize / bytesOfMB
  r.isSupport && r.nativeCode == 0 && !(decide (size ≤ 0) || decide (1024 < size)) &&
    !decide (size < config.lowerLimit.toInt64) && config.auto && !decide (r.vssSize < 0)

/-- An init that fails touches neither `hasInit` nor the timers, and it throws only where it
starts the checks with a period that is not positive. -/
theorem wp_initWatcher (config : Option PatronsConfig) (r : InitReads) (w : Watcher) :
    wp noSites (initWatcher config r)
      (fun code t => t.hasInit = w.hasInit ∧
        (code ≠ 0 → t.timers = w.timers ∧ t.timersCreated = w.timersCreated))
      (fun _ => startsChecks config r w = true ∧ ¬ 0 < (config.getD w.config).periodOfCheck.toInt)
      (fun _ => False) w := by
  simp only [initWatcher, startWatching, wp_bind, wp_get, wp_ite, wp_modify, wp_pure]
  refine ⟨fun _ => by simp, fun hsupport => ⟨fun _ => by simp, fun hnative => ?_⟩⟩
  refine ⟨fun _ => by simp [readRegionSpaces], fun hrange => ?_⟩
  refine ⟨fun _ => by simp [readRegionSpaces], fun hlimit => ⟨fun hauto => ?_, fun _ => ?_⟩⟩
  · refine ⟨fun _ => by simp [readRegionSpaces], fun hvss => ?_⟩
    have hsize : ¬ (decide (w.getCurrentRegionSpaceSize / bytesOfMB ≤ 0) ||
        decide (1024 < w.getCurrentRegionSpaceSize / bytesOfMB)) = true := hrange
    have hfloor : ¬ w.getCurrentRegionSpaceSize / bytesOfMB <
        (config.getD w.config).lowerLimit.toInt64 := hlimit
    have hstarts : startsChecks config r w = true := by
      simp only [startsChecks, Bool.and_eq_true, beq_iff_eq]
      exact ⟨⟨⟨⟨⟨by simpa using hsupport, by simpa using hnative⟩, by simpa using hsize⟩,
        by simpa using hfloor⟩, hauto⟩, by simpa using hvss⟩
    simp only [toForeground, wp_bind, wp_modify, wp_get, wp_start]
    refine ⟨fun _ => ⟨fun hneg => ⟨hstarts, ?_⟩, fun _ => ?_⟩, fun _ => ⟨rfl, by simp⟩⟩
    · exact fun hpos => hneg (millis_pos_iff.mpr hpos)
    · exact ⟨hasInit_cancelTimer _, by simp⟩
  · simp [readRegionSpaces]

end Watcher

/-! ## Runs -/

section
variable {ι : Type*} {config : ι → Option PatronsConfig}

/-- While no init is in progress, a timer that is not cancelled can be reached through `hasInit`,
and an init that fails starts no timer and does not take `hasInit` back. -/
structure Controllable (s : Inits ι) (e : InitEvent ι) (t : Inits ι) : Prop where
  controllable : (∀ i, (t.pc i).inProgress = false) → t.watcher.timers ≠ [] →
    t.watcher.hasInit = true
  noTimer : ∀ i r code, e = .body i r → t.pc i = .answered code → code ≠ 0 →
    t.watcher.timers = s.watcher.timers ∧ t.watcher.timersCreated = s.watcher.timersCreated
  hasInit : ∀ i code, e = .write i → s.pc i = .answered code → code ≠ 0 →
    s.watcher.hasInit = true → t.watcher.hasInit = true

/-- An init that starts the checks has a positive period, and one that failed writes `hasInit`
only if no other has written `true` since its test. -/
def InTurn (config : ι → Option PatronsConfig) (s : Inits ι) : InitEvent ι → Prop
  | .body i r => s.watcher.startsChecks (config i) r = true →
      0 < ((config i).getD s.watcher.config).periodOfCheck.toInt
  | .write i => (s.pc i).failed = true → s.overtaken i = false
  | _ => True

instance (s : Inits ι) : ∀ e, Decidable (InTurn config s e)
  | .body i r => inferInstanceAs (Decidable (s.watcher.startsChecks (config i) r = true →
      0 < ((config i).getD s.watcher.config).periodOfCheck.toInt))
  | .write i => inferInstanceAs (Decidable ((s.pc i).failed = true → s.overtaken i = false))
  | .test _ => isTrue trivial
  | .inBackground => isTrue trivial
  | .toForeground => isTrue trivial
  | .tick _ _ => isTrue trivial

/-- Who can answer for the timers, and what `hasInit` was tested for. -/
structure Accounted (s : Inits ι) : Prop where
  timers : s.watcher.timers ≠ [] → s.watcher.hasInit = true ∨ ∃ i, s.pc i = .answered 0
  fresh : ∀ i, (s.pc i).inProgress = true → s.overtaken i = false → s.watcher.hasInit = false

theorem Accounted.controllable {s : Inits ι} (h : Accounted s)
    (hidle : ∀ i, (s.pc i).inProgress = false) (htimers : s.watcher.timers ≠ []) :
    s.watcher.hasInit = true := by
  rcases h.timers htimers with hinit | ⟨i, hi⟩
  · exact hinit
  · have hbusy := hidle i
    rw [hi] at hbusy
    exact absurd hbusy (by simp [InitPc.inProgress])

variable [DecidableEq ι] {s t : Inits ι} {i : ι}

/-! ### What a step does -/

theorem step_test (h : (inits config).step s (.test i) = some t) :
    s.pc i = .called ∧ t.watcher = s.watcher ∧
      t.pc = Function.update s.pc i (if s.watcher.hasInit then .returned 0 else .tested) ∧
      t.overtaken = Function.update s.overtaken i false := by
  simp only [inits] at h
  split at h
  · rename_i hcalled
    rw [← Option.some.inj h]
    exact ⟨hcalled, rfl, rfl, rfl⟩
  · exact absurd h (by simp)

theorem step_body {r : Watcher.InitReads} (h : (inits config).step s (.body i r) = some t) :
    s.pc i = .tested ∧ t.watcher = (Watcher.initWatcher (config i) r).after s.watcher ∧
      t.pc = Function.update s.pc i
        (.afterBody ((Watcher.initWatcher (config i) r).run noSites s.watcher)) ∧
      t.overtaken = s.overtaken := by
  simp only [inits] at h
  split at h
  · rename_i htested
    rw [← Option.some.inj h]
    exact ⟨htested, rfl, rfl, rfl⟩
  · exact absurd h (by simp)

theorem step_write (h : (inits config).step s (.write i) = some t) :
    ∃ code, s.pc i = .answered code ∧ t.watcher = s.watcher.setHasInit (code == 0) ∧
      t.pc = Function.update s.pc i (.returned code) ∧
      t.overtaken = fun j => s.overtaken j || code == 0 := by
  simp only [inits] at h
  split at h
  · rename_i code hcode
    rw [← Option.some.inj h]
    exact ⟨code, hcode, rfl, rfl, rfl⟩
  · exact absurd h (by simp)

structure Watches (s t : Inits ι) : Prop where
  pc : t.pc = s.pc
  overtaken : t.overtaken = s.overtaken
  hasInit : t.watcher.hasInit = s.watcher.hasInit
  timers : s.watcher.hasInit = false → s.watcher.timers = [] → t.watcher.timers = []

omit [DecidableEq ι] in
theorem watches_ifInit {x : Java Unit} (hx : x = Watcher.inBackground ∨ x = Watcher.toForeground)
    (h : some { s with watcher := (Watcher.ifInit x).after s.watcher } = some t) :
    Watches s t := by
  rcases Watcher.after_ifInit s.watcher hx with ⟨hinit, hsame⟩
  rw [← Option.some.inj h]
  refine ⟨rfl, rfl, hinit, fun hoff hnone => ?_⟩
  dsimp only
  rw [hsame hoff, hnone]

theorem watches_step {e : InitEvent ι} (h : (inits config).step s e = some t)
    (he : ∀ i, e ≠ .test i ∧ (∀ r, e ≠ .body i r) ∧ e ≠ .write i) : Watches s t := by
  cases e with
  | test i => exact absurd rfl (he i).1
  | body i r => exact absurd rfl ((he i).2.1 r)
  | write i => exact absurd rfl (he i).2.2
  | inBackground => exact watches_ifInit (.inl rfl) h
  | toForeground => exact watches_ifInit (.inr rfl) h
  | tick vss call =>
      simp only [inits] at h
      split at h
      · rename_i hlive
        rw [← Option.some.inj h]
        refine ⟨rfl, rfl, Watcher.hasInit_run s.watcher, fun _ hnone => ?_⟩
        simp [Watcher.canTick, hnone] at hlive
      · exact absurd h (by simp)

theorem afterBody_eq_answered {o : Outcome Watcher ℤ} {code : ℤ}
    (h : InitPc.afterBody o = .answered code) : ∃ w, o = .done code w := by
  cases o with
  | done a w =>
      obtain rfl : a = code := by simpa [InitPc.afterBody] using h
      exact ⟨w, rfl⟩
  | fault w => simp [InitPc.afterBody] at h
  | hang w => simp [InitPc.afterBody] at h

/-! ### The invariant -/

theorem accounted_test (hs : Accounted s) (h : (inits config).step s (.test i) = some t) :
    Accounted t := by
  rcases step_test h with ⟨hcalled, hw, hpc, hover⟩
  rw [← hw] at hpc
  refine ⟨fun htimers => ?_, fun j hj hfree => ?_⟩
  · rw [hw] at htimers
    rcases hs.timers htimers with hinit | ⟨j, hj⟩
    · exact .inl (hw ▸ hinit)
    · have hne : j ≠ i := by
        intro hji
        rw [hji, hcalled] at hj
        exact absurd hj (by simp)
      exact .inr ⟨j, by rw [hpc, Function.update_of_ne hne, hj]⟩
  · by_cases hji : j = i
    · cases hinit : t.watcher.hasInit with
      | false => rfl
      | true =>
          rw [hpc, hji, Function.update_self, hinit] at hj
          exact absurd hj (by simp [InitPc.inProgress])
    · rw [hpc, Function.update_of_ne hji] at hj
      rw [hover, Function.update_of_ne hji] at hfree
      rw [hw]
      exact hs.fresh j hj hfree

theorem accounted_body {r : Watcher.InitReads} (hs : Accounted s)
    (h : (inits config).step s (.body i r) = some t) (hturn : InTurn config s (.body i r)) :
    Accounted t ∧ ∀ code, t.pc i = .answered code → code ≠ 0 →
      t.watcher.timers = s.watcher.timers ∧
        t.watcher.timersCreated = s.watcher.timersCreated := by
  rcases step_body h with ⟨htested, hw, hpc, hover⟩
  have hspec := Watcher.wp_initWatcher (config i) r s.watcher
  cases hr : (Watcher.initWatcher (config i) r).run noSites s.watcher with
  | fault w =>
      rcases wp_fault hspec hr with ⟨hstarts, hneg⟩
      exact absurd (hturn hstarts) hneg
  | hang w => exact (wp_hang hspec hr).elim
  | done code w =>
      rcases wp_done hspec hr with ⟨hinit, htimers⟩
      rw [Java.after, hr] at hw
      rw [hr] at hpc
      obtain rfl : t.watcher = w := hw
      have hself : t.pc i = .answered code := by rw [hpc, Function.update_self]; rfl
      have hothers : ∀ j, j ≠ i → t.pc j = s.pc j := fun j hne => by
        rw [hpc, Function.update_of_ne hne]
      refine ⟨⟨fun hlive => ?_, fun j hj hfree => ?_⟩, fun code' hcode hne => ?_⟩
      · by_cases hzero : code = 0
        · exact .inr ⟨i, hzero ▸ hself⟩
        · rw [(htimers hzero).1] at hlive
          rcases hs.timers hlive with hyes | ⟨j, hj⟩
          · exact .inl (hinit.trans hyes)
          · have hne : j ≠ i := by
              intro hji
              rw [hji, htested] at hj
              exact absurd hj (by simp)
            exact .inr ⟨j, (hothers j hne).trans hj⟩
      · rw [hover] at hfree
        rw [hinit]
        by_cases hji : j = i
        · exact hs.fresh j (by rw [hji, htested]; rfl) hfree
        · rw [hothers j hji] at hj
          exact hs.fresh j hj hfree
      · obtain rfl : code = code' := by simpa [hself] using hcode
        exact htimers hne

theorem accounted_write (hs : Accounted s) (h : (inits config).step s (.write i) = some t)
    (hturn : InTurn config s (.write i)) :
    Accounted t ∧ ∀ code, s.pc i = .answered code → code ≠ 0 → s.watcher.hasInit = false := by
  rcases step_write h with ⟨code, hcode, hw, hpc, hover⟩
  have hbusy : (s.pc i).inProgress = true := by rw [hcode]; rfl
  have hfailed : ∀ code', s.pc i = .answered code' → code' ≠ 0 → s.watcher.hasInit = false :=
    fun code' hcode' hne => hs.fresh i hbusy (hturn (by simp [hcode', InitPc.failed, hne]))
  refine ⟨⟨fun htimers => ?_, fun j hj hfree => ?_⟩, hfailed⟩
  · by_cases hzero : code = 0
    · exact .inl (by rw [hw, hzero]; rfl)
    · rw [hw] at htimers
      rcases hs.timers htimers with hinit | ⟨j, hj⟩
      · exact absurd (hinit.symm.trans (hfailed code hcode hzero)) (by simp)
      · have hne : j ≠ i := by
          intro hji
          rw [hji, hcode] at hj
          exact hzero (by simpa using hj)
        exact .inr ⟨j, by rw [hpc, Function.update_of_ne hne, hj]⟩
  · rw [hover] at hfree
    have hzero : code ≠ 0 := by
      intro hzero
      simp [hzero] at hfree
    rw [hw]
    exact beq_eq_false_iff_ne.mpr hzero

theorem accounted_step {e : InitEvent ι} (hs : Accounted s)
    (h : (inits config).step s e = some t) (hturn : InTurn config s e) :
    Controllable s e t ∧ Accounted t := by
  have hwatch : (∀ i, e ≠ .test i ∧ (∀ r, e ≠ .body i r) ∧ e ≠ .write i) →
      Controllable s e t ∧ Accounted t := by
    intro he
    have hw := watches_step h he
    have ht : Accounted t := by
      refine ⟨fun htimers => ?_, fun j hj hfree => ?_⟩
      · rw [hw.hasInit, hw.pc]
        by_cases hlive : s.watcher.timers = []
        · cases hinit : s.watcher.hasInit with
          | false => exact absurd (hw.timers hinit hlive) htimers
          | true => exact .inl rfl
        · exact hs.timers hlive
      · rw [hw.pc] at hj
        rw [hw.overtaken] at hfree
        rw [hw.hasInit]
        exact hs.fresh j hj hfree
    exact ⟨⟨ht.controllable, fun i r _ he' => absurd he' ((he i).2.1 r),
      fun i _ he' => absurd he' (he i).2.2⟩, ht⟩
  cases e with
  | test i =>
      have ht := accounted_test hs h
      exact ⟨⟨ht.controllable, by simp, by simp⟩, ht⟩
  | body i r =>
      rcases accounted_body hs h hturn with ⟨ht, hfailed⟩
      refine ⟨⟨ht.controllable, ?_, by simp⟩, ht⟩
      intro j r' code he hcode hne
      cases he
      exact hfailed code hcode hne
  | write i =>
      rcases accounted_write hs h hturn with ⟨ht, hfailed⟩
      refine ⟨⟨ht.controllable, by simp, ?_⟩, ht⟩
      intro j code he hcode hne hinit
      cases he
      exact absurd (hinit.symm.trans (hfailed code hcode hne)) (by simp)
  | inBackground => exact hwatch (by simp)
  | toForeground => exact hwatch (by simp)
  | tick vss call => exact hwatch (by simp)

/-- From the loaded class on, with inits in turn a watcher that runs can be controlled. -/
theorem controllable_run (config : ι → Option PatronsConfig) {w : Watcher}
    (hinit : w.hasInit = false) (htimers : w.timers = []) (es : List (InitEvent ι))
    (h : (inits config).Each (fun s e _ => InTurn config s e) es { watcher := w }) :
    (inits config).Each Controllable es { watcher := w } := by
  refine Machine.each_of_invariant (I := Accounted) ?_ ⟨fun hlive => ?_, fun _ _ _ => hinit⟩ h
  · intro s e t hs hstep hturn
    exact accounted_step hs hstep hturn
  · exact absurd htimers hlive

theorem init_of_uninterrupted {r : Watcher.InitReads} {u v : Inits ι} {code : ℤ}
    (htest : (inits config).step s (.test i) = some t)
    (hbody : (inits config).step t (.body i r) = some u)
    (hwrite : (inits config).step u (.write i) = some v) (hcode : v.pc i = .returned code) :
    (Watcher.init (config i) r).run noSites s.watcher = .done code v.watcher := by
  rcases step_test htest with ⟨-, hwt, hpct, -⟩
  rcases step_body hbody with ⟨htested, hwu, hpcu, -⟩
  obtain ⟨code', hanswered, hwv, hpcv, -⟩ := step_write hwrite
  have hoff : s.watcher.hasInit = false := by
    cases hinit : s.watcher.hasInit with
    | false => rfl
    | true =>
        rw [hpct, Function.update_self, hinit] at htested
        exact absurd htested (by simp)
  obtain rfl : code' = code := by simpa [hpcv] using hcode
  rw [hpcu, Function.update_self] at hanswered
  obtain ⟨w, hrun⟩ := afterBody_eq_answered hanswered
  rw [Java.after, hrun] at hwu
  rw [hwt] at hrun
  have hu : u.watcher = w := hwu
  rw [Watcher.init, run_bind, run_get, Outcome.bind_done, hoff]
  simp only [Bool.false_eq_true, if_false, run_bind, hrun, Outcome.bind_done, run_modify, run_pure,
    hwv, hu]
  rfl

end

namespace Watcher

/-- Of two inits only the one of `true` has a lower limit that the region space reaches. -/
def twoConfigs (b : Bool) : Option PatronsConfig :=
  some { lowerLimit := if b then 384 else 600 }

/-- Both inits have tested `hasInit` when the first one runs. -/
def firstInit : List (InitEvent Bool) :=
  [.test true, .test false, .body true android81, .write true, .body false android81]

theorem controllable_after_failure :
    (inits twoConfigs).Each Controllable
      [.test false, .body false android81, .write false, .test true, .body true android81,
        .write true, .tick 4000000000 ⟨true, true⟩, .inBackground]
      { watcher := { capacity := 512 * MB } } :=
  controllable_run twoConfigs rfl rfl _ (by decide +kernel)

/-- The second init fails and writes `false` while the timer of the first one runs. -/
theorem uncontrollable_after_failure :
    ∃ t, (inits twoConfigs).exec (firstInit ++ [.write false])
          { watcher := { capacity := 512 * MB } } = some t ∧
      (∀ i, (t.pc i).inProgress = false) ∧ t.watcher.timers ≠ [] ∧ t.watcher.hasInit = false ∧
      ¬ (inits twoConfigs).Each Controllable (firstInit ++ [.write false])
        { watcher := { capacity := 512 * MB } } := by
  obtain ⟨u, hu⟩ := Option.isSome_iff_exists.mp (by decide +kernel :
    ((inits twoConfigs).exec firstInit { watcher := { capacity := 512 * MB } }).isSome = true)
  obtain ⟨t, ht, hfacts⟩ := Option.map_eq_some_iff.mp (by decide +kernel :
    ((inits twoConfigs).exec (firstInit ++ [.write false])
      { watcher := { capacity := 512 * MB } }).map (fun t => (t.pc true, t.pc false,
        t.watcher.timers.length, t.watcher.hasInit)) =
      some (.returned 0, .returned 2003, 1, false))
  simp only [Prod.mk.injEq] at hfacts
  rcases hfacts with ⟨htrue, hfalse, htimers, hinit⟩
  have hidle : ∀ i, (t.pc i).inProgress = false := by
    intro i
    cases i
    · rw [hfalse]
      rfl
    · rw [htrue]
      rfl
  have hlive : t.watcher.timers ≠ [] := by
    intro hnone
    simp [hnone] at htimers
  refine ⟨t, ht, hidle, hlive, hinit, fun h => ?_⟩
  have hstep := Machine.step_of_exec_append hu ht
  have hlast := (((inits twoConfigs).each_append.mp h).2 u hu t hstep).1
  exact absurd (hinit.symm.trans (hlast.controllable hidle hlive)) (by simp)

end Watcher
end Patrons
