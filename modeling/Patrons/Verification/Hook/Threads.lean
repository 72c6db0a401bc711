import Patrons.Verification.Hook.BaseAddr
import Patrons.Verification.Hook.CoreSteps

/-! # Calls of `xh_core` do not get into each other's way

`xh_core_mutex` guards the flags and the list of hooks, `xh_core_refresh_mutex` the map tree and
the memory that a refresh writes. -/

namespace Patrons.Xhook

open Interleave

variable {ι π : Type*} {maps : ℕ → Maps π} {t u : Tid ι} {s s' : CoreShared ι π} {p p' : CorePc}

/-! ## Flags -/

namespace CorePc

def ofThread : Tid ι → CorePc → Bool
  | .inl _, absent | .inl _, loop | .inl _, workerLock | .inl _, workerTest | .inl _, asleep
  | .inl _, clearDo | .inl _, workerUnlock | .inl _, exitUnlock | .inl _, exited => false
  | .inr _, refreshLock | .inr _, refresh | .inr _, refreshing .. | .inr _, refreshUnlock
  | .inr _, absent | .inr _, loop | .inr _, workerLock | .inr _, workerTest | .inr _, asleep
  | .inr _, clearDo | .inr _, workerUnlock | .inr _, exitUnlock | .inr _, exited => true
  | .inl _, _ => true
  | .inr _, _ => false

def serving : CorePc → Bool
  | workerUnlock | refreshLock | refresh => true
  | _ => false

end CorePc

/-- What the flags say of each other. -/
structure Consistent (s : CoreShared ι π) : Prop where
  handlers : s.handlers ≤ 1
  notInited : s.hooks.core.inited = false → s.handlers = 0 ∧ s.hooks.core.initOk = false
  initOk : s.hooks.core.initOk = true → s.handlers = 1
  created : s.created ≤ 1
  notAsync : s.hooks.core.asyncInited = false → s.created = 0 ∧ s.hooks.core.asyncInitOk = false
  asyncOk : s.hooks.core.asyncInitOk = true → s.created = 1
  running : s.created = 1 → s.running = true
  requested : s.hooks.core.refreshThreadDo = true → s.hooks.core.asyncInitOk = true
  taken : s.hooks.core.refreshThreadDo = false → s.taken = s.requests
  begun : s.created = 0 → s.begun = s.taken

/-- What a thread knows of the flags at its place. -/
def Knows (s : CoreShared ι π) : CorePc → Prop
  | .initSet _ => s.hooks.core.inited = false
  | .addHandler _ => s.hooks.core.inited = true ∧ s.hooks.core.initOk = false ∧ s.handlers = 0
  | .setOk _ => s.hooks.core.inited = true ∧ s.handlers = 1
  | .initUnlock _ | .okTest _ => s.hooks.core.inited = true
  | .asyncSet => s.hooks.core.asyncInited = false
  | .asyncUnlock | .asyncOkTest => s.hooks.core.asyncInited = true
  | .setRunning | .clearRunning =>
    s.hooks.core.asyncInited = true ∧ s.hooks.core.asyncInitOk = false ∧ s.created = 0
  | .create =>
    s.hooks.core.asyncInited = true ∧ s.hooks.core.asyncInitOk = false ∧ s.created = 0 ∧
      s.running = true
  | .setAsyncOk => s.hooks.core.asyncInited = true ∧ s.created = 1
  | .doLock | .doSet | .signal | .doUnlock => s.hooks.core.asyncInitOk = true
  | .clearDo => s.hooks.core.refreshThreadDo = true
  | .exitUnlock | .exited => False
  | _ => True

/-- Where thread `t` can be. -/
structure Situated (t : Tid ι) (s : CoreShared ι π) (p : CorePc) : Prop where
  code : p.ofThread t = true
  exists_thread : ∀ k, t = .inr k → p = .absent ∨ k < s.created
  knows : Knows s p
  begun : ∀ k, t = .inr k → k < s.created → s.begun = s.taken ∨ p.serving = true

theorem knows_congr (h : s'.guarded = s.guarded) (hs : Knows s p) : Knows s' p := by
  simp only [CoreShared.guarded, Guarded.mk.injEq] at h
  cases p <;> simp_all [Knows]

theorem Situated.running (hI : Consistent s) (hA : Situated t s p)
    (hp : p = .loop ∨ p = .workerTest) : s.running = true := by
  have hcode := hA.code
  cases t with
  | inl i => rcases hp with rfl | rfl <;> simp [CorePc.ofThread] at hcode
  | inr k =>
      have hlt : k < s.created :=
        (hA.exists_thread k rfl).resolve_left (by rcases hp with rfl | rfl <;> simp)
      have hone := hI.created
      exact hI.running (by omega)

theorem Tests.knows (hI : Consistent s) (hA : Situated t s p) (h : Tests t s p p') :
    Knows s p' := by
  cases h with
  | inited h | initedAgain h | notInitedAgain h => exact h
  | asyncInited h | asyncInitedAgain h | notAsyncInitedAgain h | asyncOk h => exact h
  | task h _ => exact h
  | notRunning h => simp [hA.running hI (Or.inl rfl)] at h
  | exits h => simp [hA.running hI (Or.inr rfl)] at h
  | _ => trivial

theorem Tests.situated (hI : Consistent s) (hA : Situated t s p) (h : Tests t s p p') :
    Situated t s p' where
  code := by
    have hcode := hA.code
    cases t <;> cases h <;> first | rfl | exact hcode
  exists_thread k hk := by
    subst hk
    cases h with
    | begins h => exact Or.inr (of_decide_eq_true h)
    | _ => exact Or.inr ((hA.exists_thread k rfl).resolve_left (by simp))
  knows := h.knows hI hA
  begun k hk hlt := by
    have hnot : p.serving = false := by cases h <;> rfl
    exact Or.inl ((hA.begun k hk hlt).resolve_right (by simp [hnot]))

theorem Acquires.situated (hA : Situated t s p) (h : Acquires p p') :
    Situated t { s with mutex := some t } p' where
  code := by
    have hcode := hA.code
    cases t <;> cases h <;> first | rfl | exact hcode
  exists_thread k hk := by
    have hne : p ≠ .absent := by cases h <;> simp
    exact Or.inr ((hA.exists_thread k hk).resolve_left hne)
  knows := by
    cases h with
    | request => exact hA.knows
    | _ => trivial
  begun k hk hlt := by
    have hnot : p.serving = false := by cases h <;> rfl
    exact Or.inl ((hA.begun k hk hlt).resolve_right (by simp [hnot]))

theorem Releases.situated (hA : Situated t s p) (h : Releases p p') :
    Situated t { s with mutex := none } p' where
  code := by
    have hcode := hA.code
    cases t <;> cases h <;> first | rfl | exact hcode
  exists_thread k hk := by
    have hne : p ≠ .absent := by cases h <;> simp
    exact Or.inr ((hA.exists_thread k hk).resolve_left hne)
  knows := by
    have hknows := hA.knows
    cases h with
    | init | async | exit => exact hknows
    | _ => trivial
  begun k hk hlt := by
    have hbegun := hA.begun k hk hlt
    cases h with
    | worker => exact Or.inr rfl
    | _ => exact Or.inl (hbegun.resolve_right (by simp [CorePc.serving]))

theorem Writes.knows (hI : Consistent s) (hK : Knows s p) (h : Writes s p s' p') :
    Knows s' p' := by
  cases h with
  | insert => trivial
  | inited => exact ⟨rfl, (hI.notInited hK).2, (hI.notInited hK).1⟩
  | handler => exact ⟨hK.1, congrArg (· + 1) hK.2.2⟩
  | noHandler => exact hK.1
  | initOk => exact hK.1
  | asyncInited => exact ⟨rfl, (hI.notAsync hK).2, (hI.notAsync hK).1⟩
  | running => exact ⟨hK.1, hK.2.1, hK.2.2, rfl⟩
  | created => exact ⟨hK.1, congrArg (· + 1) hK.2.2.1⟩
  | notCreated => exact ⟨hK.1, hK.2.1, hK.2.2.1⟩
  | notRunning => exact hK.1
  | asyncInitOk => exact hK.1
  | request => exact hK
  | signal => exact hK
  | taken => trivial

/-- Each write keeps the flags consistent, for what is known where it stands. -/
theorem Writes.consistent (hI : Consistent s) (hK : Knows s p) (h : Writes s p s' p') :
    Consistent s' := by
  cases h with
  | insert | noHandler | notCreated | signal => exact { hI with }
  | inited => exact { hI with notInited := nofun }
  | handler =>
      obtain ⟨hinited, hok, hzero⟩ := hK
      exact { hI with
        handlers := by simp [hzero]
        notInited := fun h => by simp [hinited] at h
        initOk := fun h => by simp [hok] at h }
  | initOk =>
      exact { hI with
        notInited := fun h => by simp [CoreShared.setCore, hK.1] at h
        initOk := fun _ => hK.2 }
  | asyncInited => exact { hI with notAsync := nofun }
  | running => exact { hI with running := fun _ => rfl }
  | created =>
      obtain ⟨hinited, hok, hzero, hrunning⟩ := hK
      exact { hI with
        created := by simp [hzero]
        notAsync := fun h => by simp [hinited] at h
        asyncOk := fun h => by simp [hok] at h
        running := fun _ => hrunning
        begun := nofun }
  | notRunning => exact { hI with running := fun h => by simp [hK.2.2] at h }
  | asyncInitOk =>
      exact { hI with
        notAsync := fun h => by simp [CoreShared.setCore, hK.1] at h
        asyncOk := fun _ => hK.2
        requested := fun _ => rfl }
  | request => exact { hI with requested := fun _ => hK, taken := nofun }
  | taken =>
      -- somebody asked, so the thread exists
      have hone := hI.asyncOk (hI.requested hK)
      exact { hI with
        requested := nofun
        taken := fun _ => rfl
        begun := fun h => by simp [CoreShared.setCore, hone] at h }

theorem Writes.situated (hI : Consistent s) (hA : Situated t s p) (h : Writes s p s' p') :
    Situated t s' p' where
  code := by
    have hcode := hA.code
    cases t <;> cases h <;> first | rfl | exact hcode
  exists_thread k hk := by
    have hlt := (hA.exists_thread k hk).resolve_left (by cases h <;> simp)
    cases h with
    | created => exact Or.inr (Nat.lt_succ_of_lt hlt)
    | _ => exact Or.inr hlt
  knows := h.knows hI hA.knows
  begun k hk hlt := by
    have hbegun := hA.begun k hk
    have hcode := hA.code
    cases h with
    | taken => exact Or.inr rfl
    | created =>
        subst hk
        simp [CorePc.ofThread] at hcode
    | _ => exact Or.inl ((hbegun hlt).resolve_right (by simp [CorePc.serving]))

theorem Refreshes.consistent (hI : Consistent s) (h : Refreshes maps t s p s' p') :
    Consistent s' := by
  cases h with
  | opened => exact { hI with begun := fun hzero => by simp [hI.begun hzero] }
  | notOpened => exact { hI with begun := fun hzero => by simp [hI.begun hzero] }
  | _ => exact { hI with }

theorem Refreshes.situated (hA : Situated t s p) (h : Refreshes maps t s p s' p') :
    Situated t s' p' where
  code := by cases t <;> cases h <;> rfl
  exists_thread k hk := by
    have hlt := (hA.exists_thread k hk).resolve_left (by cases h <;> simp)
    cases h <;> exact Or.inr hlt
  knows := by
    cases h with
    | unlock => cases t <;> trivial
    | _ => trivial
  begun k hk hlt := by
    subst hk
    cases h with
    | lock => exact Or.inr rfl
    | opened | notOpened => exact Or.inl rfl
    | _ => exact Or.inl ((hA.begun k rfl hlt).resolve_right (by simp [CorePc.serving]))

theorem Writes.grows (h : Writes s p s' p') :
    (s.hooks.core.inited = true → s'.hooks.core.inited = true) ∧
      (s.hooks.core.asyncInited = true → s'.hooks.core.asyncInited = true) ∧
      (s.hooks.core.asyncInitOk = true → s'.hooks.core.asyncInitOk = true) ∧
      s.created ≤ s'.created := by
  cases h with
  | inited => exact ⟨fun _ => rfl, id, id, le_rfl⟩
  | asyncInited => exact ⟨id, fun _ => rfl, id, le_rfl⟩
  | asyncInitOk => exact ⟨id, id, fun _ => rfl, le_rfl⟩
  | created => exact ⟨id, id, id, Nat.le_succ _⟩
  | _ => exact ⟨id, id, id, le_rfl⟩

/-! ## Who is where -/

/-- The locks belong to the threads in their sections, and callers and refresh threads are in
their own code. -/
structure Placed (t : Tid ι) (s : CoreShared ι π) (p : CorePc) : Prop where
  mutex : Owns CorePc.holdsMutex s.mutex t p
  refreshMutex : Owns CorePc.holdsRefresh s.refreshMutex t p

variable [DecidableEq ι] {act : CoreAct}

theorem placed_kept : Kept (coreStep (ι := ι) maps) (fun _ => True) Placed where
  own _ hA hstep := by
    obtain ⟨hmutex, hrefresh⟩ := locks_step hstep
    exact ⟨trivial, hmutex.own hA.mutex, hrefresh.own hA.refreshMutex⟩
  others hu _ hA hB hstep := by
    obtain ⟨hmutex, hrefresh⟩ := locks_step hstep
    exact ⟨hmutex.others hA.mutex hu hB.mutex, hrefresh.others hA.refreshMutex hu hB.refreshMutex⟩

/-! ## Flags at one step -/

theorem GoStep.flags (hI : Consistent s) (hA : Situated t s p) (h : GoStep maps t s p s' p') :
    Consistent s' ∧ Situated t s' p' := by
  cases h with
  | test h => exact ⟨hI, h.situated hI hA⟩
  | acquire _ h => exact ⟨{ hI with }, h.situated hA⟩
  | release h => exact ⟨{ hI with }, h.situated hA⟩
  | sleep =>
      have hserving : ∀ k, t = .inr k → k < s.created → s.begun = s.taken := fun k hk hlt =>
        (hA.begun k hk hlt).resolve_right (by simp [CorePc.serving])
      refine ⟨{ hI with }, ?_, ?_, trivial, fun k hk hlt => Or.inl (hserving k hk hlt)⟩
      · have hcode := hA.code
        cases t <;> exact hcode
      · exact fun k hk => Or.inr ((hA.exists_thread k hk).resolve_left (by simp))
  | write h => exact ⟨h.consistent hI hA.knows, h.situated hI hA⟩
  | refresh h => exact ⟨h.consistent hI, h.situated hA⟩

theorem flags_step (hI : Consistent s) (hA : Situated t s p)
    (h : coreStep maps t act s p = some (s', p')) : Consistent s' ∧ Situated t s' p' := by
  rcases coreStep_cases h with hgo | ⟨rfl, i, code, rfl, rfl, ⟨hi, rfl⟩ | ⟨async, rfl⟩⟩ |
    ⟨rfl, rfl, rfl⟩
  · exact hgo.flags hI hA
  · exact ⟨hI, rfl, by simp, trivial, by simp⟩
  · exact ⟨hI, rfl, by simp, trivial, by simp⟩
  · obtain ⟨hcode, hthread, -, hbegun⟩ := hA
    refine ⟨{ hI with }, ?_, ?_, trivial, ?_⟩
    · cases t <;> exact hcode
    · exact fun k hk => Or.inr ((hthread k hk).resolve_left (by simp))
    · exact fun k hk hlt => Or.inl ((hbegun k hk hlt).resolve_right (by simp [CorePc.serving]))

/-- Without the lock, what a thread knows stays. -/
theorem grows_step (h : coreStep maps t act s p = some (s', p')) :
    (s.hooks.core.inited = true → s'.hooks.core.inited = true) ∧
      (s.hooks.core.asyncInited = true → s'.hooks.core.asyncInited = true) ∧
      (s.hooks.core.asyncInitOk = true → s'.hooks.core.asyncInitOk = true) ∧
      s.created ≤ s'.created := by
  rcases coreStep_cases h with hgo | ⟨rfl, -⟩ | ⟨-, -, rfl⟩
  · cases hgo with
    | write h => exact h.grows
    | refresh h => cases h <;> exact ⟨id, id, id, le_rfl⟩
    | _ => exact ⟨id, id, id, le_rfl⟩
  · exact ⟨id, id, id, le_rfl⟩
  · exact ⟨id, id, id, le_rfl⟩

theorem begun_step (hA : Situated t s p) (h : coreStep maps t act s p = some (s', p')) :
    (s'.begun = s.begun ∧ s'.taken = s.taken) ∨ ∃ k, t = .inr k ∧ k < s.created := by
  obtain ⟨hcode, hthread, -, -⟩ := hA
  rcases coreStep_cases h with hgo | ⟨rfl, -⟩ | ⟨-, -, rfl⟩
  · cases t with
    | inl i =>
        left
        cases hgo with
        | write h =>
            cases h with
            | taken => simp [CorePc.ofThread] at hcode
            | _ => exact ⟨rfl, rfl⟩
        | refresh h => cases h <;> exact ⟨rfl, rfl⟩
        | _ => exact ⟨rfl, rfl⟩
    | inr k =>
        rcases hthread k rfl with rfl | hk
        · left
          cases hgo with
          | test => exact ⟨rfl, rfl⟩
          | acquire _ h => cases h
          | release h => cases h
          | write h => cases h
          | refresh h => cases h
        · exact Or.inr ⟨k, rfl, hk⟩
  · exact Or.inl ⟨rfl, rfl⟩
  · exact Or.inl ⟨rfl, rfl⟩

/-- Another thread's step leaves what a thread knows. -/
theorem situated_others (hu : u ≠ t) (hP : Placed t s p) {q : CorePc} (hQ : Placed u s q)
    (hI : Consistent s) (hA : Situated t s p) (hB : Situated u s q)
    (h : coreStep maps t act s p = some (s', p')) : Situated u s' q := by
  obtain ⟨hinited, hasync, hok, hcreated⟩ := grows_step h
  have hone := (flags_step hI hA h).1.created
  refine ⟨hB.code, ?_, ?_, ?_⟩
  · intro k hk
    exact (hB.exists_thread k hk).imp_right fun hlt => hlt.trans_le hcreated
  · by_cases hq : q.holdsMutex = true
    · have hp : p.holdsMutex = false := by
        by_contra hp
        exact hu (eq_of_owns hQ.mutex hP.mutex hq (by simpa using hp))
      exact knows_congr (guarded_step h hp) hB.knows
    · have hknows := hB.knows
      cases q <;> simp_all [Knows, CorePc.holdsMutex]
  · intro k hk hlt
    subst hk
    rcases begun_step hA h with ⟨hbegun, htaken⟩ | ⟨j, rfl, hj⟩
    · rw [hbegun, htaken]
      by_cases hk : k < s.created
      · exact hB.begun k rfl hk
      · -- The thread is new, and nobody has taken a request yet.
        exact Or.inl (hI.begun (by omega))
    · exfalso
      obtain rfl : k = j := by omega
      exact hu rfl

theorem flags_added :
    Adds (coreStep (ι := ι) maps) (fun _ => True) Placed Consistent Situated where
  own _ _ hI hA hstep := flags_step hI hA hstep
  others hu _ hP hQ hI hA hB hstep := situated_others hu hP hQ hI hA hB hstep

/-! ## Runs -/

section Runs

variable {vm : Vm π} {ls : List (Tid ι × CoreAct)} {x y : CoreState ι π}

omit [DecidableEq ι] in
theorem coreStart_placed (vm : Vm π) (t : Tid ι) :
    Placed t (coreStart vm : CoreState ι π).shared ((coreStart vm : CoreState ι π).pc t) := by
  cases t <;> exact ⟨iff_of_false (by simp [coreStart, CorePc.holdsMutex]) (by simp [coreStart]),
    iff_of_false (by simp [coreStart, CorePc.holdsRefresh]) (by simp [coreStart])⟩

omit [DecidableEq ι] in
theorem coreStart_situated (vm : Vm π) (t : Tid ι) :
    Situated t (coreStart vm : CoreState ι π).shared ((coreStart vm : CoreState ι π).pc t) := by
  cases t with
  | inl i => exact ⟨rfl, by simp, trivial, by simp⟩
  | inr k => exact ⟨rfl, fun _ _ => Or.inl rfl, trivial, by simp [coreStart]⟩

/-- In every state that a run reaches, the flags are consistent and the threads in their places. -/
theorem flags_of_exec (hx : (coreThreads ι maps).exec ls (coreStart vm) = some x) :
    Consistent x.shared ∧ ∀ t, Placed t x.shared (x.pc t) ∧ Situated t x.shared (x.pc t) := by
  have hstart : Holds (fun s => True ∧ Consistent s) (fun t s p => Placed t s p ∧ Situated t s p)
      (coreStart vm : CoreState ι π) := by
    refine ⟨⟨trivial, ?_⟩, fun t => ⟨coreStart_placed vm t, coreStart_situated vm t⟩⟩
    constructor <;> simp [coreStart]
  obtain ⟨hI, hA⟩ := (placed_kept.and flags_added).holds_exec hstart hx
  exact ⟨hI.2, hA⟩

/-! ## Requests to the refresh thread -/

/-- A request that the waiting thread has not been told of is about to be signalled. -/
def Signalled (x : CoreState ι π) : Prop :=
  ∀ t, x.pc t = .asleep → x.shared.waiting t = true →
    x.shared.hooks.core.refreshThreadDo = true → ∃ u, x.pc u = .signal

omit [DecidableEq ι] in
theorem Tests.waiting (h : Tests t s p p') : p ≠ .signal ∧ p' ≠ .asleep := by
  cases h <;> simp

/-- What a step does to the request and to those who wait for it. -/
theorem waiting_step (h : coreStep maps t act s p = some (s', p')) :
    (p = .doSet ∧ p' = .signal) ∨
    (p = .signal ∧ s'.waiting = fun _ => false) ∨
    (p ≠ .signal ∧
      (s'.hooks.core.refreshThreadDo = true → s.hooks.core.refreshThreadDo = true) ∧
      (s'.waiting = s.waiting ∨ ∃ b, s'.waiting = Function.update s.waiting t b) ∧
      (p' = .asleep → s'.hooks.core.refreshThreadDo = false)) := by
  rcases coreStep_cases h with hgo | ⟨rfl, _, _, -, rfl, ⟨_, rfl⟩ | ⟨_, rfl⟩⟩ | ⟨rfl, rfl, rfl⟩
  · cases hgo with
    | test h =>
        obtain ⟨hp, hp'⟩ := h.waiting
        exact Or.inr (Or.inr ⟨hp, id, Or.inl rfl, fun h => absurd h hp'⟩)
    | acquire _ h =>
        exact Or.inr (Or.inr ⟨by cases h <;> simp, id, Or.inl rfl, by cases h <;> simp⟩)
    | release h =>
        exact Or.inr (Or.inr ⟨by cases h <;> simp, id, Or.inl rfl, by cases h <;> simp⟩)
    | sleep hdo => exact Or.inr (Or.inr ⟨by simp, id, Or.inr ⟨true, rfl⟩, fun _ => hdo⟩)
    | write h =>
        cases h with
        | request => exact Or.inl ⟨rfl, rfl⟩
        | signal => exact Or.inr (Or.inl ⟨rfl, rfl⟩)
        | taken => exact Or.inr (Or.inr ⟨by simp, nofun, Or.inl rfl, by simp⟩)
        | _ => exact Or.inr (Or.inr ⟨by simp, id, Or.inl rfl, by simp⟩)
    | refresh h =>
        refine Or.inr (Or.inr ⟨by cases h <;> simp, ?_, Or.inl h.guarded.2.2, ?_⟩)
        · cases h <;> exact id
        · cases h with
          | unlock => cases t <;> simp [CorePc.afterRefresh]
          | _ => simp
  · simp
  · simp
  · simp

theorem signalled_step {l : Tid ι × CoreAct} (hx : Signalled x)
    (hy : (coreThreads ι maps).step x l = some y) : Signalled y := by
  obtain ⟨⟨s', p'⟩, hstep, rfl⟩ := Option.map_eq_some_iff.mp hy
  intro u hu hwait hdo
  simp only at hu hwait hdo ⊢
  rcases waiting_step hstep with ⟨-, rfl⟩ | ⟨-, hnone⟩ | ⟨hp, hkeep, hsame, hasleep⟩
  · exact ⟨l.1, Function.update_self ..⟩
  · simp [hnone] at hwait
  · have hothers : ∀ u, u ≠ l.1 → s'.waiting u = x.shared.waiting u := by
      intro u hne
      rcases hsame with hsame | ⟨b, hsame⟩
      · rw [hsame]
      · rw [hsame, Function.update_of_ne hne]
    by_cases heq : u = l.1
    · subst heq
      rw [Function.update_self] at hu
      simp [hasleep hu] at hdo
    · rw [Function.update_of_ne heq] at hu
      obtain ⟨v, hv⟩ := hx u hu (hothers u heq ▸ hwait) (hkeep hdo)
      have hvl : v ≠ l.1 := by
        rintro rfl
        exact hp hv
      exact ⟨v, by rw [Function.update_of_ne hvl, hv]⟩

theorem signalled_of_exec (hx : (coreThreads ι maps).exec ls (coreStart vm) = some x) :
    Signalled x := by
  refine Machine.exec_invariant (fun _ _ _ hu hv => signalled_step hu hv) ?_ hx
  rintro (i | k) h <;> simp [coreStart] at h

/-! ## Where nothing moves -/

/-- No thread can go on. -/
def Quiet (maps : ℕ → Maps π) (x : CoreState ι π) : Prop :=
  ∀ t ok, coreGo maps t ok x.shared (x.pc t) = none

theorem go_of_holds (maps : ℕ → Maps π) (t : Tid ι) (s : CoreShared ι π)
    (hp : p.holdsMutex = true ∨ p.holdsRefresh = true) :
    coreGo maps t true s p ≠ none := by
  cases p with
  | refreshing refreshed lines => cases lines <;> simp [coreGo]
  | workerTest =>
      simp only [coreGo]
      split <;> simp
  | _ => simp [coreGo, CorePc.holdsMutex, CorePc.holdsRefresh] at hp ⊢

/-- With free locks only who has no more to do stops. -/
theorem stopped_of_go (hmutex : s.mutex = none) (hrefresh : s.refreshMutex = none)
    (h : coreGo maps t true s p = none) :
    (∃ code, p = .returned code) ∨ (p = .absent ∧ ∀ k, t = .inr k → s.created ≤ k) ∨
      (p = .asleep ∧ s.waiting t = true) ∨ p = .exited := by
  cases p with
  | refreshing refreshed lines => cases lines <;> simp [coreGo] at h
  | workerTest =>
      simp only [coreGo] at h
      split at h <;> simp at h
  | absent =>
      refine Or.inr (Or.inl ⟨rfl, ?_⟩)
      rintro k rfl
      simpa [coreGo, CoreShared.hasThread] using h
  | _ => simp_all [coreGo]

end Runs

/-! ## Two callers and the refresh thread -/

def steps {ι : Type*} (t : Tid ι) (n : ℕ) : List (Tid ι × CoreAct) :=
  List.replicate n (t, .go true)

/-- A library is loaded after the first refresh. -/
def growing (n : ℕ) : Maps SizeT :=
  if n = 0 then fopenMaps [⟨0xb0000000, "r--p", 0, "/system/lib/libart.so"⟩] else twoLibraries

def registering : List (Tid Bool × CoreAct) :=
  (.inl false, .register artFopen) :: steps (.inl false) 7

/-- Both callers find `xh_core` not initialised, and the refresh thread waits for the refresh of
the first of them. -/
def refreshing : List (Tid Bool × CoreAct) :=
  [(.inl false, .refresh false), (.inl true, .refresh true)] ++
    steps (.inl false) 1 ++ steps (.inl true) 1 ++ steps (.inl false) 6 ++ steps (.inl true) 4 ++
    steps (.inl false) 3 ++ steps (.inl true) 13 ++ steps (.inr 0) 6 ++ steps (.inl false) 3 ++
    steps (.inr 0) 9

def raced : Option (CoreState Bool SizeT) :=
  (coreThreads Bool growing).exec (registering ++ refreshing) (coreStart ⟨memoryOf [], 1⟩)

theorem exists_raced : ∃ x, raced = some x ∧ x.shared.created = 1 ∧ x.shared.requests = 1 ∧
    Quiet growing x := by
  have hany : raced.any (fun x => decide (x.shared.created = 1 ∧ x.shared.requests = 1 ∧
      ∀ t ∈ ([.inl false, .inl true, .inr 0] : List (Tid Bool)), ∀ ok,
        (coreGo growing t ok x.shared (x.pc t)).isNone = true)) = true := by
    decide +kernel
  obtain ⟨x, hx, hfacts⟩ := (Option.any_eq_true ..).mp hany
  obtain ⟨hcreated, hrequests, hstopped⟩ := of_decide_eq_true hfacts
  refine ⟨x, hx, hcreated, hrequests, fun t ok => ?_⟩
  rcases t with (_ | _) | _ | k
  · simpa using hstopped (.inl false) (by simp) ok
  · simpa using hstopped (.inl true) (by simp) ok
  · simpa using hstopped (.inr 0) (by simp) ok
  · have hpc : x.pc (.inr (k + 1)) = .absent :=
      pc_of_exec (u := .inr (k + 1)) (by simp [registering, refreshing, steps]) hx
    simp [hpc, coreGo, CoreShared.hasThread, hcreated]

section Runs

variable {vm : Vm π} {ls : List (Tid ι × CoreAct)} {x y : CoreState ι π}

/-- However calls interleave, the handler is registered once and one refresh thread is created at
most, and the thread does not end. -/
theorem initialised_once (hx : (coreThreads ι maps).exec ls (coreStart vm) = some x) :
    x.shared.handlers ≤ 1 ∧ x.shared.created ≤ 1 ∧
      (x.shared.hooks.core.initOk = true → x.shared.handlers = 1) ∧
      (x.shared.hooks.core.asyncInitOk = true →
        x.shared.created = 1 ∧ x.shared.running = true) ∧
      ∀ t, x.pc t ≠ .exited := by
  obtain ⟨hI, hA⟩ := flags_of_exec hx
  refine ⟨hI.handlers, hI.created, hI.initOk, fun hok => ?_, fun t hp => ?_⟩
  · exact ⟨hI.asyncOk hok, hI.running (hI.asyncOk hok)⟩
  · have hknows := (hA t).2.knows
    rw [hp] at hknows
    exact hknows

theorem initialised_once_raced : ∃ x, raced = some x ∧ x.shared.created = 1 ∧
    x.shared.handlers ≤ 1 ∧ ∀ t, x.pc t ≠ .exited := by
  obtain ⟨x, hx, hcreated, -, -⟩ := exists_raced
  obtain ⟨hhandlers, -, -, -, hexited⟩ := initialised_once hx
  exact ⟨x, hx, hcreated, hhandlers, hexited⟩

/-- Where no thread can go on, every call has returned and every request has been served by a
refresh that began after it. -/
theorem served_of_quiet (hx : (coreThreads ι maps).exec ls (coreStart vm) = some x)
    (hquiet : Quiet maps x) :
    (∀ i, ∃ code, x.pc (.inl i) = .returned code) ∧ x.shared.mutex = none ∧
      x.shared.refreshMutex = none ∧ x.shared.hooks.core.refreshThreadDo = false ∧
      x.shared.begun = x.shared.requests := by
  obtain ⟨hI, hA⟩ := flags_of_exec hx
  have hmutex : x.shared.mutex = none := by
    rw [Option.eq_none_iff_forall_ne_some]
    intro t ht
    exact go_of_holds maps t _ (Or.inl ((hA t).1.mutex.mpr ht)) (hquiet t true)
  have hrefresh : x.shared.refreshMutex = none := by
    rw [Option.eq_none_iff_forall_ne_some]
    intro t ht
    exact go_of_holds maps t _ (Or.inr ((hA t).1.refreshMutex.mpr ht)) (hquiet t true)
  have hstopped := fun t => stopped_of_go hmutex hrefresh (hquiet t true)
  have hdo : x.shared.hooks.core.refreshThreadDo = false := by
    by_contra hdo
    have hcreated := hI.asyncOk (hI.requested (by simpa using hdo))
    have hworker := hstopped (.inr 0)
    have hcode := (hA (.inr 0)).2.code
    have hknows := (hA (.inr 0)).2.knows
    rcases hworker with ⟨code, hp⟩ | ⟨-, hk⟩ | ⟨hp, hwait⟩ | hp
    · simp [hp, CorePc.ofThread] at hcode
    · have := hk 0 rfl
      omega
    · obtain ⟨u, hu⟩ := signalled_of_exec hx _ hp hwait (by simpa using hdo)
      exact go_of_holds maps u x.shared (Or.inl rfl) (hu ▸ hquiet u true)
    · simp [hp, Knows] at hknows
  refine ⟨?_, hmutex, hrefresh, hdo, ?_⟩
  · intro i
    have hcode := (hA (.inl i)).2.code
    rcases hstopped (.inl i) with hp | ⟨hp, -⟩ | ⟨hp, -⟩ | hp
    · exact hp
    · simp [hp, CorePc.ofThread] at hcode
    · simp [hp, CorePc.ofThread] at hcode
    · simp [hp, CorePc.ofThread] at hcode
  · rw [← hI.taken hdo]
    by_cases hcreated : x.shared.created = 0
    · exact hI.begun hcreated
    · have hlt : 0 < x.shared.created := by omega
      refine ((hA (.inr 0)).2.begun 0 rfl hlt).resolve_right ?_
      have hcode := (hA (.inr 0)).2.code
      rcases hstopped (.inr 0) with ⟨code, hp⟩ | ⟨hp, -⟩ | ⟨hp, -⟩ | hp <;>
        simp [hp, CorePc.serving]

theorem served_of_quiet_raced : ∃ x, raced = some x ∧ x.shared.begun = 1 := by
  obtain ⟨x, hx, -, hrequests, hquiet⟩ := exists_raced
  obtain ⟨-, -, -, -, hbegun⟩ := served_of_quiet hx hquiet
  exact ⟨x, hx, hbegun.trans hrequests⟩

end Runs

end Patrons.Xhook
