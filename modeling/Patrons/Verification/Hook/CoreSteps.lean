import Patrons.Model.CoreThreads

/-! # What a step of a thread can do

A step reads, takes or lets go of one of the locks, writes under `xh_core_mutex`, or is one of a
refresh under its own lock. -/

namespace Patrons.Xhook

open Interleave

variable {ι π : Type*}

namespace CorePc

def holdsMutex : CorePc → Bool
  | registerInsert _ | registerUnlock => true
  | initAgain _ | initSet _ | addHandler _ | setOk _ | initUnlock _ => true
  | asyncAgain | asyncSet | setRunning | create | clearRunning | setAsyncOk | asyncUnlock => true
  | doSet | signal | doUnlock => true
  | workerTest | clearDo | workerUnlock | exitUnlock => true
  | _ => false

def holdsRefresh : CorePc → Bool
  | refresh | refreshing .. | refreshUnlock => true
  | _ => false

end CorePc

/-! ## Kinds of steps -/

/-- A step that only reads, or asks the C library for memory. -/
inductive Tests (t : Tid ι) (s : CoreShared ι π) : CorePc → CorePc → Prop
  -- `xh_core_register`
  | closed {hi} (h : s.hooks.core.inited = true) :
      Tests t s (.registerTest hi) (.returned (some errnoInval))
  | openRegistry {hi} (h : s.hooks.core.inited = false) :
      Tests t s (.registerTest hi) (.registerRegcomp hi)
  | regcomp {hi} : Tests t s (.registerRegcomp hi) (.registerMalloc hi)
  | noRegcomp {hi} : Tests t s (.registerRegcomp hi) (.returned (some errnoInval))
  | malloc {hi} : Tests t s (.registerMalloc hi) (.registerStrdup hi)
  | noMalloc {hi} : Tests t s (.registerMalloc hi) (.returned (some errnoNomem))
  | strdup {hi} : Tests t s (.registerStrdup hi) (.registerLock hi)
  | noStrdup {hi} : Tests t s (.registerStrdup hi) (.returned (some errnoNomem))
  -- `xh_core_init_once`
  | inited {async} (h : s.hooks.core.inited = true) : Tests t s (.initTest async) (.okTest async)
  | notInited {async} (h : s.hooks.core.inited = false) :
      Tests t s (.initTest async) (.initLock async)
  | initedAgain {async} (h : s.hooks.core.inited = true) :
      Tests t s (.initAgain async) (.initUnlock async)
  | notInitedAgain {async} (h : s.hooks.core.inited = false) :
      Tests t s (.initAgain async) (.initSet async)
  -- `xh_core_init_async_once`
  | asyncInited (h : s.hooks.core.asyncInited = true) : Tests t s .asyncTest .asyncOkTest
  | notAsyncInited (h : s.hooks.core.asyncInited = false) : Tests t s .asyncTest .asyncLock
  | asyncInitedAgain (h : s.hooks.core.asyncInited = true) : Tests t s .asyncAgain .asyncUnlock
  | notAsyncInitedAgain (h : s.hooks.core.asyncInited = false) : Tests t s .asyncAgain .asyncSet
  -- `xh_core_refresh`
  | notOk {async} (h : s.hooks.core.initOk = false) :
      Tests t s (.okTest async) (.returned (some errnoUnknown))
  | okAsync (h : s.hooks.core.initOk = true) : Tests t s (.okTest true) .asyncTest
  | okSync (h : s.hooks.core.initOk = true) : Tests t s (.okTest false) .refreshLock
  | notAsyncOk (h : s.hooks.core.asyncInitOk = false) :
      Tests t s .asyncOkTest (.returned (some errnoUnknown))
  | asyncOk (h : s.hooks.core.asyncInitOk = true) : Tests t s .asyncOkTest .doLock
  -- `xh_core_refresh_thread_func`
  | begins (h : s.hasThread t = true) : Tests t s .absent .loop
  | running (h : s.running = true) : Tests t s .loop .workerLock
  | notRunning (h : s.running = false) : Tests t s .loop .exited
  | task (h : s.hooks.core.refreshThreadDo = true) (hrunning : s.running = true) :
      Tests t s .workerTest .clearDo
  | exits (h : s.running = false) : Tests t s .workerTest .exitUnlock
  | wakes (h : s.waiting t = false) : Tests t s .asleep .workerLock

/-- Where `xh_core_mutex` is taken. -/
inductive Acquires : CorePc → CorePc → Prop
  | register {hi} : Acquires (.registerLock hi) (.registerInsert hi)
  | init {async} : Acquires (.initLock async) (.initAgain async)
  | async : Acquires .asyncLock .asyncAgain
  | request : Acquires .doLock .doSet
  | worker : Acquires .workerLock .workerTest

inductive Releases : CorePc → CorePc → Prop
  | register : Releases .registerUnlock (.returned (some 0))
  | init {async} : Releases (.initUnlock async) (.okTest async)
  | async : Releases .asyncUnlock .asyncOkTest
  | request : Releases .doUnlock (.returned (some 0))
  | worker : Releases .workerUnlock .refreshLock
  | exit : Releases .exitUnlock .exited

/-- A write under `xh_core_mutex`. -/
inductive Writes (s : CoreShared ι π) : CorePc → CoreShared ι π → CorePc → Prop
  | insert {hi} : Writes s (.registerInsert hi)
      (s.setCore fun core => { core with hookInfo := core.hookInfo ++ [hi] }) .registerUnlock
  | inited {async} : Writes s (.initSet async)
      (s.setCore fun core => { core with inited := true }) (.addHandler async)
  | handler {async} : Writes s (.addHandler async)
      { s with handlers := s.handlers + 1 } (.setOk async)
  | noHandler {async} : Writes s (.addHandler async) { s with failed := true } (.initUnlock async)
  | initOk {async} : Writes s (.setOk async)
      (s.setCore fun core => { core with initOk := true }) (.initUnlock async)
  | asyncInited : Writes s .asyncSet
      (s.setCore fun core => { core with asyncInited := true }) .setRunning
  | running : Writes s .setRunning { s with running := true } .create
  | created : Writes s .create { s with created := s.created + 1 } .setAsyncOk
  | notCreated : Writes s .create { s with failed := true } .clearRunning
  | notRunning : Writes s .clearRunning { s with running := false } .asyncUnlock
  | asyncInitOk : Writes s .setAsyncOk
      (s.setCore fun core => { core with asyncInitOk := true }) .asyncUnlock
  | request : Writes s .doSet
      { s.setCore fun core => { core with refreshThreadDo := true } with
        requests := s.requests + 1 } .signal
  | signal : Writes s .signal { s with waiting := fun _ => false } .doUnlock
  | taken : Writes s .clearDo
      { s.setCore fun core => { core with refreshThreadDo := false } with
        taken := s.requests } .workerUnlock

inductive Refreshes (maps : ℕ → Maps π) (t : Tid ι) (s : CoreShared ι π) :
    CorePc → CoreShared ι π → CorePc → Prop
  | lock (h : s.refreshMutex = none) :
      Refreshes maps t s .refreshLock { s with refreshMutex := some t } .refresh
  | opened : Refreshes maps t s .refresh
      { s with begun := if t.isRight then s.taken else s.begun }
      (.refreshing [] (maps s.ended.length).lines)
  | notOpened : Refreshes maps t s .refresh
      { s with begun := if t.isRight then s.taken else s.begun, ended := s.ended ++ [none] }
      .refreshUnlock
  | line {refreshed line lines} : Refreshes maps t s (.refreshing refreshed (line :: lines))
      (s.afterLine (maps s.ended.length) refreshed line)
      (.refreshing (s.scan (maps s.ended.length) refreshed line).refreshed lines)
  | done {refreshed} :
      Refreshes maps t s (.refreshing refreshed []) (s.endRefresh refreshed) .refreshUnlock
  | unlock : Refreshes maps t s .refreshUnlock { s with refreshMutex := none } (.afterRefresh t)

inductive GoStep [DecidableEq ι] (maps : ℕ → Maps π) (t : Tid ι) (s : CoreShared ι π) :
    CorePc → CoreShared ι π → CorePc → Prop
  | test {p p'} (h : Tests t s p p') : GoStep maps t s p s p'
  | acquire {p p'} (hfree : s.mutex = none) (h : Acquires p p') :
      GoStep maps t s p { s with mutex := some t } p'
  | release {p p'} (h : Releases p p') : GoStep maps t s p { s with mutex := none } p'
  | sleep (hdo : s.hooks.core.refreshThreadDo = false) : GoStep maps t s .workerTest
      { s with mutex := none, waiting := Function.update s.waiting t true } .asleep
  | write {p s' p'} (h : Writes s p s' p') : GoStep maps t s p s' p'
  | refresh {p s' p'} (h : Refreshes maps t s p s' p') : GoStep maps t s p s' p'

variable {maps : ℕ → Maps π} {t : Tid ι} {s s' : CoreShared ι π} {p p' : CorePc}

/-! ## Steps and sections -/

theorem Tests.sections (h : Tests t s p p') :
    p'.holdsMutex = p.holdsMutex ∧ p.holdsRefresh = false ∧ p'.holdsRefresh = false := by
  cases h <;> exact ⟨rfl, rfl, rfl⟩

theorem Acquires.sections (h : Acquires p p') :
    p.holdsMutex = false ∧ p'.holdsMutex = true ∧
      p.holdsRefresh = false ∧ p'.holdsRefresh = false := by
  cases h <;> exact ⟨rfl, rfl, rfl, rfl⟩

theorem Releases.sections (h : Releases p p') :
    p.holdsMutex = true ∧ p'.holdsMutex = false ∧
      p.holdsRefresh = false ∧ p'.holdsRefresh = false := by
  cases h <;> exact ⟨rfl, rfl, rfl, rfl⟩

theorem Writes.sections (h : Writes s p s' p') :
    p.holdsMutex = true ∧ p'.holdsMutex = true ∧
      p.holdsRefresh = false ∧ p'.holdsRefresh = false := by
  cases h <;> exact ⟨rfl, rfl, rfl, rfl⟩

theorem Refreshes.sections (h : Refreshes maps t s p s' p') :
    p.holdsMutex = false ∧ p'.holdsMutex = false := by
  cases h with
  | unlock => exact ⟨rfl, by cases t <;> rfl⟩
  | _ => exact ⟨rfl, rfl⟩

/-- A write keeps what belongs to a refresh, and the locks. -/
theorem Writes.kept (h : Writes s p s' p') :
    s'.mutex = s.mutex ∧ s'.refreshMutex = s.refreshMutex ∧
      s'.hooks.core.mapInfo = s.hooks.core.mapInfo ∧ s'.hooks.vm = s.hooks.vm ∧
      s'.seen = s.seen ∧ s'.ended = s.ended ∧ s'.begun = s.begun := by
  cases h <;> exact ⟨rfl, rfl, rfl, rfl, rfl, rfl, rfl⟩

/-! ## What the locks guard -/

/-- What `xh_core_mutex` guards. -/
structure Guarded where
  hookInfo : List HookInfo
  inited : Bool
  initOk : Bool
  asyncInited : Bool
  asyncInitOk : Bool
  refreshThreadDo : Bool
  running : Bool
  handlers : ℕ
  created : ℕ
  failed : Bool
  requests : ℕ
  taken : ℕ

def CoreShared.guarded (s : CoreShared ι π) : Guarded where
  hookInfo := s.hooks.core.hookInfo
  inited := s.hooks.core.inited
  initOk := s.hooks.core.initOk
  asyncInited := s.hooks.core.asyncInited
  asyncInitOk := s.hooks.core.asyncInitOk
  refreshThreadDo := s.hooks.core.refreshThreadDo
  running := s.running
  handlers := s.handlers
  created := s.created
  failed := s.failed
  requests := s.requests
  taken := s.taken

theorem Refreshes.guarded (h : Refreshes maps t s p s' p') :
    s'.guarded = s.guarded ∧ s'.mutex = s.mutex ∧ s'.waiting = s.waiting := by
  cases h <;> exact ⟨rfl, rfl, rfl⟩

/-! ## Steps -/

variable [DecidableEq ι] {act : CoreAct} {ok : Bool}

/-- Each line of `coreGo` is a step of one of these kinds. -/
theorem goStep_of_coreGo (h : coreGo maps t ok s p = some (s', p')) : GoStep maps t s p s' p' := by
  cases p <;> simp only [coreGo] at h <;>
    grind -ring -linarith [GoStep, Tests, Acquires, Releases, Writes, Refreshes]

/-- A step of the code, the start of a call, or a wake-up without a signal. -/
theorem coreStep_cases (h : coreStep maps t act s p = some (s', p')) :
    GoStep maps t s p s' p' ∨
    (s' = s ∧ ∃ i code, t = .inl i ∧ p = .returned code ∧
      ((∃ hi, p' = .registerTest hi) ∨ ∃ async, p' = .initTest async)) ∨
    (p = .asleep ∧ p' = .workerLock ∧
      s' = { s with waiting := Function.update s.waiting t false }) := by
  unfold coreStep at h
  split at h
  · exact Or.inl (goStep_of_coreGo h)
  · obtain ⟨rfl, rfl⟩ := Prod.mk.inj (Option.some.inj h)
    exact Or.inr (Or.inl ⟨rfl, _, _, rfl, rfl, Or.inl ⟨_, rfl⟩⟩)
  · obtain ⟨rfl, rfl⟩ := Prod.mk.inj (Option.some.inj h)
    exact Or.inr (Or.inl ⟨rfl, _, _, rfl, rfl, Or.inr ⟨_, rfl⟩⟩)
  · obtain ⟨rfl, rfl⟩ := Prod.mk.inj (Option.some.inj h)
    exact Or.inr (Or.inr ⟨rfl, rfl, rfl⟩)
  · simp at h

/-- Outside of the sections nothing is changed. -/
theorem guarded_step (h : coreStep maps t act s p = some (s', p'))
    (hp : p.holdsMutex = false) : s'.guarded = s.guarded := by
  rcases coreStep_cases h with hgo | ⟨rfl, -⟩ | ⟨-, -, rfl⟩
  · cases hgo with
    | write h => simp [h.sections.1] at hp
    | refresh h => exact h.guarded.1
    | _ => rfl
  · rfl
  · rfl

/-- Only a refresh changes the tree, memory and its records. -/
theorem tree_step (h : coreStep maps t act s p = some (s', p'))
    (hp : p.holdsRefresh = false) :
    s'.hooks.core.mapInfo = s.hooks.core.mapInfo ∧ s'.hooks.vm = s.hooks.vm ∧
      s'.seen = s.seen ∧ s'.ended = s.ended := by
  rcases coreStep_cases h with hgo | ⟨rfl, -⟩ | ⟨-, -, rfl⟩
  · cases hgo with
    | write h =>
        obtain ⟨-, -, hmap, hvm, hseen, hended, -⟩ := h.kept
        exact ⟨hmap, hvm, hseen, hended⟩
    | refresh h =>
        cases h with
        | lock => exact ⟨rfl, rfl, rfl, rfl⟩
        | _ => simp [CorePc.holdsRefresh] at hp
    | _ => exact ⟨rfl, rfl, rfl, rfl⟩
  · exact ⟨rfl, rfl, rfl, rfl⟩
  · exact ⟨rfl, rfl, rfl, rfl⟩

theorem locks_step (h : coreStep maps t act s p = some (s', p')) :
    LockStep CorePc.holdsMutex t s.mutex s'.mutex p p' ∧
      LockStep CorePc.holdsRefresh t s.refreshMutex s'.refreshMutex p p' := by
  rcases coreStep_cases h with hgo | ⟨rfl, i, code, rfl, rfl, ⟨hi, rfl⟩ | ⟨async, rfl⟩⟩ |
    ⟨rfl, rfl, rfl⟩
  · cases hgo with
    | test h =>
        obtain ⟨hmutex, hp, hp'⟩ := h.sections
        exact ⟨.keep rfl hmutex, .keep rfl (hp'.trans hp.symm)⟩
    | acquire hfree h =>
        obtain ⟨-, hmutex, hp, hp'⟩ := h.sections
        exact ⟨.acquire hfree rfl hmutex, .keep rfl (hp'.trans hp.symm)⟩
    | release h =>
        obtain ⟨hmutex, hmutex', hp, hp'⟩ := h.sections
        exact ⟨.release hmutex rfl hmutex', .keep rfl (hp'.trans hp.symm)⟩
    | sleep => exact ⟨.release rfl rfl rfl, .keep rfl rfl⟩
    | write h =>
        obtain ⟨hmutex, hmutex', hp, hp'⟩ := h.sections
        obtain ⟨hm, hr, -⟩ := h.kept
        exact ⟨.keep hm (hmutex'.trans hmutex.symm), .keep hr (hp'.trans hp.symm)⟩
    | refresh h =>
        obtain ⟨hp, hp'⟩ := h.sections
        refine ⟨.keep h.guarded.2.1 (hp'.trans hp.symm), ?_⟩
        cases h with
        | lock hfree => exact .acquire hfree rfl rfl
        | unlock => exact .release rfl rfl (by cases t <;> rfl)
        | _ => exact .keep rfl rfl
  · exact ⟨.keep rfl rfl, .keep rfl rfl⟩
  · exact ⟨.keep rfl rfl, .keep rfl rfl⟩
  · exact ⟨.keep rfl rfl, .keep rfl rfl⟩

end Patrons.Xhook
