import Mathlib.Data.List.Induction
import Patrons.Verification.Hook.Threads

/-! # Single calls among others

A call that no other thread interrupts does what the functions of `xh_core.c` do in one step. A
call can fail because another one has not finished its initialisation. -/

namespace Patrons.Xhook

open Interleave

variable {ι π : Type*} [DecidableEq ι] {maps : ℕ → Maps π} {vm : Vm π}
  {ls : List (Tid ι × CoreAct)} {x y : CoreState ι π}

/-! ## Calls without interruption -/

section Alone

variable (maps) {t : Tid ι} {s : CoreShared ι π}

end Alone

section Runs

variable {ls : List (Tid ι × CoreAct)} {x y : CoreState ι π}

/-- No call is under way, and the refresh thread has not begun or is at its loop. -/
structure Idle (x : CoreState ι π) : Prop where
  mutex : x.shared.mutex = none
  refreshMutex : x.shared.refreshMutex = none
  callers : ∀ i, ∃ code, x.pc (.inl i) = .returned code
  worker : x.pc (.inr 0) = .absent ∨ x.pc (.inr 0) = .loop

theorem Idle.caller (hx : Idle x) {i : ι} {code : Option ℤ} {s' : CoreShared ι π}
    (hmutex : s'.mutex = none) (hrefresh : s'.refreshMutex = none) :
    Idle (⟨s', Function.update x.pc (.inl i) (.returned code)⟩ : CoreState ι π) where
  mutex := hmutex
  refreshMutex := hrefresh
  callers j := by
    by_cases hj : j = i
    · exact ⟨code, by simp [hj]⟩
    · simpa [Function.update_of_ne, hj] using hx.callers j
  worker := by simpa using hx.worker

namespace CorePc

def initialising : CorePc → Bool
  | addHandler _ | setOk _ => true
  | _ => false

def creating : CorePc → Bool
  | setRunning | create | setAsyncOk => true
  | _ => false

end CorePc

/-- An initialisation that has begun and is not done has failed or is under way. -/
structure Underway (x : CoreState ι π) : Prop where
  init : x.shared.hooks.core.inited = true → x.shared.hooks.core.initOk = false →
    x.shared.failed = true ∨ ∃ t, (x.pc t).initialising = true
  async : x.shared.hooks.core.asyncInited = true → x.shared.hooks.core.asyncInitOk = false →
    x.shared.failed = true ∨ ∃ t, (x.pc t).creating = true

/-- A section that sets one flag and later another, at one step. -/
def SectionStep (within within' before before' after after' failed failed' : Bool) : Prop :=
  (within = true → after' = false → failed' = true ∨ within' = true) ∧
    (within = false → before' = true → after' = false →
      (before = true ∧ after = false) ∨ within' = true) ∧
    (failed = true → failed' = true)

theorem SectionStep.outside {within' before after failed : Bool} :
    SectionStep false within' before before after after failed failed :=
  ⟨nofun, fun _ hbefore hafter => Or.inl ⟨hbefore, hafter⟩, id⟩

theorem SectionStep.enter {before before' after after' failed : Bool} :
    SectionStep false true before before' after after' failed failed :=
  ⟨nofun, fun _ _ _ => Or.inr rfl, id⟩

theorem SectionStep.stay {before before' after after' failed : Bool} :
    SectionStep true true before before' after after' failed failed :=
  ⟨fun _ _ => Or.inr rfl, nofun, id⟩

theorem SectionStep.leave {before before' after failed : Bool} :
    SectionStep true false before before' after true failed failed :=
  ⟨nofun, nofun, id⟩

theorem SectionStep.fail {before before' after after' failed : Bool} :
    SectionStep true false before before' after after' failed true :=
  ⟨fun _ _ => Or.inl rfl, nofun, fun _ => rfl⟩

theorem SectionStep.failOutside {within' before after failed : Bool} :
    SectionStep false within' before before after after failed true :=
  ⟨nofun, fun _ hbefore hafter => Or.inl ⟨hbefore, hafter⟩, fun _ => rfl⟩

section

variable {t : Tid ι} {act : CoreAct} {s s' : CoreShared ι π} {p p' : CorePc}

omit [DecidableEq ι] in
theorem section_write (h : Writes s p s' p') :
    SectionStep p.initialising p'.initialising s.hooks.core.inited s'.hooks.core.inited
        s.hooks.core.initOk s'.hooks.core.initOk s.failed s'.failed ∧
      SectionStep p.creating p'.creating s.hooks.core.asyncInited s'.hooks.core.asyncInited
        s.hooks.core.asyncInitOk s'.hooks.core.asyncInitOk s.failed s'.failed := by
  cases h with
  | inited => exact ⟨.enter, .outside⟩
  | handler => exact ⟨.stay, .outside⟩
  | noHandler => exact ⟨.fail, .failOutside⟩
  | initOk => exact ⟨.leave, .outside⟩
  | asyncInited => exact ⟨.outside, .enter⟩
  | running => exact ⟨.outside, .stay⟩
  | created => exact ⟨.outside, .stay⟩
  | notCreated => exact ⟨.failOutside, .fail⟩
  | asyncInitOk => exact ⟨.outside, .leave⟩
  | _ => exact ⟨.outside, .outside⟩

theorem section_step (h : coreStep maps t act s p = some (s', p')) :
    SectionStep p.initialising p'.initialising s.hooks.core.inited s'.hooks.core.inited
        s.hooks.core.initOk s'.hooks.core.initOk s.failed s'.failed ∧
      SectionStep p.creating p'.creating s.hooks.core.asyncInited s'.hooks.core.asyncInited
        s.hooks.core.asyncInitOk s'.hooks.core.asyncInitOk s.failed s'.failed := by
  rcases coreStep_cases h with hgo | ⟨rfl, _, _, -, rfl, -⟩ | ⟨rfl, -, rfl⟩
  · cases hgo with
    | test h => cases h <;> exact ⟨.outside, .outside⟩
    | acquire _ h => cases h <;> exact ⟨.outside, .outside⟩
    | release h => cases h <;> exact ⟨.outside, .outside⟩
    | sleep => exact ⟨.outside, .outside⟩
    | write h => exact section_write h
    | refresh h => cases h <;> exact ⟨.outside, .outside⟩
  · exact ⟨.outside, .outside⟩
  · exact ⟨.outside, .outside⟩

end

omit [DecidableEq ι] in
theorem SectionStep.underway [DecidableEq ι] {within : CorePc → Bool} {t : Tid ι} {p' : CorePc}
    {before before' after after' failed failed' : Bool}
    (h : SectionStep (within (x.pc t)) (within p') before before' after after' failed failed')
    (hx : before = true → after = false → failed = true ∨ ∃ u, within (x.pc u) = true)
    (hbefore : before' = true) (hafter : after' = false) :
    failed' = true ∨ ∃ u, within (Function.update x.pc t p' u) = true := by
  obtain ⟨hstays, henters, hfailed⟩ := h
  have hself : within p' = true → ∃ u, within (Function.update x.pc t p' u) = true :=
    fun hp => ⟨t, by rw [Function.update_self, hp]⟩
  cases hin : within (x.pc t) with
  | true => exact (hstays hin hafter).imp_right hself
  | false =>
      rcases henters hin hbefore hafter with ⟨hb, ha⟩ | hp
      · refine (hx hb ha).imp hfailed ?_
        rintro ⟨u, hu⟩
        refine ⟨u, ?_⟩
        rw [Function.update_of_ne, hu]
        rintro rfl
        simp [hin] at hu
      · exact Or.inr (hself hp)

theorem underway_step {l : Tid ι × CoreAct} (hx : Underway x)
    (hy : (coreThreads ι maps).step x l = some y) : Underway y := by
  obtain ⟨⟨s', p'⟩, hstep, rfl⟩ := Option.map_eq_some_iff.mp hy
  obtain ⟨hinit, hasync⟩ := section_step hstep
  exact ⟨hinit.underway hx.init, hasync.underway hx.async⟩

theorem underway_of_exec (hx : (coreThreads ι maps).exec ls (coreStart vm) = some x) :
    Underway x := by
  refine Machine.exec_invariant (fun _ _ _ hu hv => underway_step hu hv) ?_ hx
  constructor <;> simp [coreStart]

/-- Where the code for an unknown error comes from. -/
theorem unknown_go {t : Tid ι} {s s' : CoreShared ι π} {p p' : CorePc}
    (h : GoStep maps t s p s' p') (hcode : p' = .returned (some errnoUnknown)) :
    (∃ async, p = .okTest async ∧ s.hooks.core.initOk = false) ∨
      (p = .asyncOkTest ∧ s.hooks.core.asyncInitOk = false) := by
  cases h with
  | test h =>
      cases h with
      | notOk h => exact Or.inl ⟨_, rfl, h⟩
      | notAsyncOk h => exact Or.inr ⟨rfl, h⟩
      | _ => simp [errnoUnknown, errnoInval, errnoNomem] at hcode
  | acquire _ h => cases h <;> simp at hcode
  | release h => cases h <;> simp [errnoUnknown] at hcode
  | sleep => simp at hcode
  | write h => cases h <;> simp at hcode
  | refresh h =>
      cases h with
      | unlock => cases t <;> simp [CorePc.afterRefresh, errnoUnknown] at hcode
      | _ => simp at hcode

/-- A call that fails for no known reason either comes after a failure of the C library or meets
an initialisation that another thread has begun and not finished. -/
theorem unknown_of_unfinished (hx : (coreThreads ι maps).exec ls (coreStart vm) = some x)
    {t : Tid ι} {ok : Bool} (hy : (coreThreads ι maps).step x (t, .go ok) = some y)
    (hcode : y.pc t = .returned (some errnoUnknown)) :
    x.shared.failed = true ∨
      ∃ u, u ≠ t ∧ ((x.pc u).initialising = true ∨ (x.pc u).creating = true) := by
  obtain ⟨⟨s', p'⟩, hstep, rfl⟩ := Option.map_eq_some_iff.mp hy
  obtain rfl : p' = .returned (some errnoUnknown) := by simpa using hcode
  have hknows := ((flags_of_exec hx).2 t).2.knows
  have hunderway := underway_of_exec hx
  rcases unknown_go (goStep_of_coreGo hstep) rfl with ⟨async, hp, hok⟩ | ⟨hp, hok⟩
  · rw [hp] at hknows
    refine (hunderway.init hknows hok).imp_right ?_
    rintro ⟨u, hu⟩
    refine ⟨u, ?_, Or.inl hu⟩
    rintro rfl
    simp [hp, CorePc.initialising] at hu
  · rw [hp] at hknows
    refine (hunderway.async hknows hok).imp_right ?_
    rintro ⟨u, hu⟩
    refine ⟨u, ?_, Or.inr hu⟩
    rintro rfl
    simp [hp, CorePc.creating] at hu

/-- One caller is about to register the handler, the other one finds `xh_core_inited` set. -/
def unfinished : List (Tid Bool × CoreAct) :=
  (.inl false, .refresh false) :: steps (.inl false) 4 ++
    (.inl true, .refresh false) :: steps (.inl true) 1

def CorePc.code : CorePc → Option ℤ
  | returned code => code
  | _ => none

theorem CorePc.eq_of_code {p : CorePc} {c : ℤ} (h : p.code = some c) : p = .returned (some c) := by
  unfold code at h
  split at h
  · rw [h]
  · simp at h

/-- The second caller is refused, and then the first one initialises `xh_core` and refreshes. -/
theorem unknown_of_unfinished_raced : ∃ x y z : CoreState Bool SizeT,
    (coreThreads Bool growing).exec unfinished (coreStart ⟨memoryOf [], 1⟩) = some x ∧
      (coreThreads Bool growing).step x (.inl true, .go true) = some y ∧
      y.pc (.inl true) = .returned (some errnoUnknown) ∧ x.shared.failed = false ∧
      (∃ u, u ≠ .inl true ∧ ((x.pc u).initialising = true ∨ (x.pc u).creating = true)) ∧
      (coreThreads Bool growing).exec (steps (.inl false) 9) y = some z ∧
      z.pc (.inl false) = .returned (some 0) ∧ z.shared.hooks.core.initOk = true := by
  have hany : ((coreThreads Bool growing).exec unfinished (coreStart ⟨memoryOf [], 1⟩)).any
      (fun x => !x.shared.failed &&
        ((coreThreads Bool growing).step x (.inl true, .go true)).any fun y =>
          decide ((y.pc (.inl true)).code = some errnoUnknown) &&
            ((coreThreads Bool growing).exec (steps (.inl false) 9) y).any fun z =>
              decide ((z.pc (.inl false)).code = some 0 ∧ z.shared.hooks.core.initOk = true)) =
        true := by
    decide +kernel
  obtain ⟨x, hx, hrest⟩ := (Option.any_eq_true ..).mp hany
  obtain ⟨hfailed, hrest⟩ := Bool.and_eq_true_iff.mp hrest
  obtain ⟨y, hy, hrest⟩ := (Option.any_eq_true ..).mp hrest
  obtain ⟨hcode, hrest⟩ := Bool.and_eq_true_iff.mp hrest
  obtain ⟨z, hz, hdone⟩ := (Option.any_eq_true ..).mp hrest
  have hnot : x.shared.failed = false := by simpa using hfailed
  have hunknown := CorePc.eq_of_code (of_decide_eq_true hcode)
  have hcases := (unknown_of_unfinished hx hy hunknown).resolve_left (by simp [hnot])
  obtain ⟨hzero, hok⟩ := of_decide_eq_true hdone
  exact ⟨x, y, z, hx, hy, hunknown, hnot, hcases, hz, CorePc.eq_of_code hzero, hok⟩

end Runs

end Patrons.Xhook
