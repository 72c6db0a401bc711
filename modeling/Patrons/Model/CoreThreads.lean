import Patrons.Library.Interleave
import Patrons.Model.Core

/-! # Calls of `xh_core` on several threads

Any number of threads register hooks and refresh, and the refresh thread serves what was asked
for asynchronously. One step is one access to a shared variable, one call of the C library, or one
line of `/proc/self/maps` in a refresh. What is mapped changes between refreshes.
`xh_core_clear` and `xh_core_ignore` have no caller. -/

namespace Patrons.Xhook

open Interleave

/-- Callers, and the refresh threads in the order of their creation. -/
abbrev Tid (ι : Type*) := ι ⊕ ℕ

/-- Where a thread is; what is named comes next. -/
inductive CorePc where
  /-- Outside of `xh_core`; its last call returned `code`. -/
  | returned (code : Option ℤ)
  -- `xh_core_register`
  | registerTest (hi : HookInfo)
  | registerRegcomp (hi : HookInfo)
  | registerMalloc (hi : HookInfo)
  | registerStrdup (hi : HookInfo)
  | registerLock (hi : HookInfo)
  | registerInsert (hi : HookInfo)
  | registerUnlock
  -- `xh_core_init_once`
  | initTest (async : Bool)
  | initLock (async : Bool)
  | initAgain (async : Bool)
  | initSet (async : Bool)
  | addHandler (async : Bool)
  | setOk (async : Bool)
  | initUnlock (async : Bool)
  | okTest (async : Bool)
  -- `xh_core_init_async_once`
  | asyncTest
  | asyncLock
  | asyncAgain
  | asyncSet
  | setRunning
  | create
  | clearRunning
  | setAsyncOk
  | asyncUnlock
  | asyncOkTest
  -- `xh_core_refresh` for the refresh thread
  | doLock
  | doSet
  | signal
  | doUnlock
  -- `xh_core_refresh_impl` under its lock
  | refreshLock
  | refresh
  | refreshing (refreshed : List MapInfo) (lines : List MapsLine)
  | refreshUnlock
  -- `xh_core_refresh_thread_func`
  | absent
  | loop
  | workerLock
  | workerTest
  | asleep
  | clearDo
  | workerUnlock
  | exitUnlock
  | exited

/-- The globals of `xh_core.c`. -/
structure CoreShared (ι π : Type*) where
  hooks : Hooks π
  running : Bool := false
  mutex : Option (Tid ι) := none
  refreshMutex : Option (Tid ι) := none
  /-- Who waits on `xh_core_cond`. -/
  waiting : Tid ι → Bool := fun _ => false
  /-- How often `sigaction` took the handler, and `pthread_create` made a thread. -/
  handlers : ℕ := 0
  created : ℕ := 0
  /-- One of the two has failed. -/
  failed : Bool := false
  /-- The requests made so far, those before the last one was taken, and those before the last
  refresh began that serves them. -/
  requests : ℕ := 0
  taken : ℕ := 0
  begun : ℕ := 0
  /-- The lines that the refresh under way has read, with the hooks it found at each of them. -/
  seen : List (MapsLine × List HookInfo) := []
  /-- The refreshes that have ended; where `fopen` failed there are no lines. -/
  ended : List (Option (List (MapsLine × List HookInfo))) := []

inductive CoreAct where
  | register (hi : HookInfo)
  | refresh (async : Bool)
  /-- The next step; `ok` is the answer of the C library. -/
  | go (ok : Bool)
  /-- `pthread_cond_wait` may return without a signal. -/
  | spurious

variable {ι π : Type*}

namespace CoreShared

variable (s : CoreShared ι π)

def setCore (f : Core → Core) : CoreShared ι π :=
  { s with hooks := { s.hooks with core := f s.hooks.core } }

def hasThread : Tid ι → Bool
  | .inl _ => false
  | .inr k => k < s.created

def scan (maps : Maps π) (refreshed : List MapInfo) (line : MapsLine) : Maps.Scan π :=
  maps.scanLine s.hooks.core.hookInfo ⟨s.hooks.core.mapInfo, refreshed, s.hooks.vm⟩ line

/-- `xh_core_map_info` and memory afterwards. -/
def afterLine (maps : Maps π) (refreshed : List MapInfo) (line : MapsLine) : CoreShared ι π :=
  let scan := s.scan maps refreshed line
  { s with
    hooks := { core := { s.hooks.core with mapInfo := scan.old }, vm := scan.vm }
    seen := s.seen ++ [(line, s.hooks.core.hookInfo)] }

def endRefresh (refreshed : List MapInfo) : CoreShared ι π :=
  { s.setCore fun core => { core with mapInfo := refreshed } with
    seen := []
    ended := s.ended ++ [some s.seen] }

end CoreShared

def CorePc.afterRefresh : Tid ι → CorePc
  | .inl _ => .returned (some 0)
  | .inr _ => .loop

variable [DecidableEq ι] (maps : ℕ → Maps π)

/-- The step of thread `t` at each place; `maps n` is what refresh number `n` finds mapped. -/
def coreGo (t : Tid ι) (ok : Bool) (s : CoreShared ι π) :
    CorePc → Option (CoreShared ι π × CorePc)
  | .returned _ => none
  | .registerTest hi =>
    some (s, if s.hooks.core.inited then .returned (some errnoInval) else .registerRegcomp hi)
  | .registerRegcomp hi =>
    some (s, if ok then .registerMalloc hi else .returned (some errnoInval))
  | .registerMalloc hi => some (s, if ok then .registerStrdup hi else .returned (some errnoNomem))
  | .registerStrdup hi => some (s, if ok then .registerLock hi else .returned (some errnoNomem))
  | .registerLock hi =>
    if s.mutex = none then some ({ s with mutex := some t }, .registerInsert hi) else none
  | .registerInsert hi =>
    some (s.setCore fun core => { core with hookInfo := core.hookInfo ++ [hi] }, .registerUnlock)
  | .registerUnlock => some ({ s with mutex := none }, .returned (some 0))
  | .initTest async => some (s, if s.hooks.core.inited then .okTest async else .initLock async)
  | .initLock async =>
    if s.mutex = none then some ({ s with mutex := some t }, .initAgain async) else none
  | .initAgain async =>
    some (s, if s.hooks.core.inited then .initUnlock async else .initSet async)
  | .initSet async => some (s.setCore fun core => { core with inited := true }, .addHandler async)
  | .addHandler async =>
    if ok then some ({ s with handlers := s.handlers + 1 }, .setOk async)
    else some ({ s with failed := true }, .initUnlock async)
  | .setOk async => some (s.setCore fun core => { core with initOk := true }, .initUnlock async)
  | .initUnlock async => some ({ s with mutex := none }, .okTest async)
  | .okTest async =>
    some (s,
      if !s.hooks.core.initOk then .returned (some errnoUnknown)
      else if async then .asyncTest else .refreshLock)
  | .asyncTest => some (s, if s.hooks.core.asyncInited then .asyncOkTest else .asyncLock)
  | .asyncLock => if s.mutex = none then some ({ s with mutex := some t }, .asyncAgain) else none
  | .asyncAgain => some (s, if s.hooks.core.asyncInited then .asyncUnlock else .asyncSet)
  | .asyncSet => some (s.setCore fun core => { core with asyncInited := true }, .setRunning)
  | .setRunning => some ({ s with running := true }, .create)
  | .create =>
    if ok then some ({ s with created := s.created + 1 }, .setAsyncOk)
    else some ({ s with failed := true }, .clearRunning)
  | .clearRunning => some ({ s with running := false }, .asyncUnlock)
  | .setAsyncOk => some (s.setCore fun core => { core with asyncInitOk := true }, .asyncUnlock)
  | .asyncUnlock => some ({ s with mutex := none }, .asyncOkTest)
  | .asyncOkTest =>
    some (s, if s.hooks.core.asyncInitOk then .doLock else .returned (some errnoUnknown))
  | .doLock => if s.mutex = none then some ({ s with mutex := some t }, .doSet) else none
  | .doSet =>
    some ({ s.setCore fun core => { core with refreshThreadDo := true } with
      requests := s.requests + 1 }, .signal)
  | .signal => some ({ s with waiting := fun _ => false }, .doUnlock)
  | .doUnlock => some ({ s with mutex := none }, .returned (some 0))
  | .refreshLock =>
    if s.refreshMutex = none then some ({ s with refreshMutex := some t }, .refresh) else none
  | .refresh =>
    let s := { s with begun := if t.isRight then s.taken else s.begun }
    if ok then some (s, .refreshing [] (maps s.ended.length).lines)
    else some ({ s with ended := s.ended ++ [none] }, .refreshUnlock)
  | .refreshing refreshed lines =>
    match lines with
    | [] => some (s.endRefresh refreshed, .refreshUnlock)
    | line :: lines =>
      some (s.afterLine (maps s.ended.length) refreshed line,
        .refreshing (s.scan (maps s.ended.length) refreshed line).refreshed lines)
  | .refreshUnlock => some ({ s with refreshMutex := none }, .afterRefresh t)
  | .absent => if s.hasThread t then some (s, .loop) else none
  | .loop => some (s, if s.running then .workerLock else .exited)
  | .workerLock => if s.mutex = none then some ({ s with mutex := some t }, .workerTest) else none
  | .workerTest =>
    if !s.hooks.core.refreshThreadDo && s.running then
      some ({ s with mutex := none, waiting := Function.update s.waiting t true }, .asleep)
    else some (s, if s.running then .clearDo else .exitUnlock)
  | .asleep => if s.waiting t then none else some (s, .workerLock)
  | .clearDo =>
    some ({ s.setCore fun core => { core with refreshThreadDo := false } with
      taken := s.requests }, .workerUnlock)
  | .workerUnlock => some ({ s with mutex := none }, .refreshLock)
  | .exitUnlock => some ({ s with mutex := none }, .exited)
  | .exited => none

def coreStep (t : Tid ι) (act : CoreAct) (s : CoreShared ι π) (p : CorePc) :
    Option (CoreShared ι π × CorePc) :=
  match act, t, p with
  | .go ok, t, p => coreGo maps t ok s p
  | .register hi, .inl _, .returned _ => some (s, .registerTest hi)
  | .refresh async, .inl _, .returned _ => some (s, .initTest async)
  | .spurious, t, .asleep =>
    some ({ s with waiting := Function.update s.waiting t false }, .workerLock)
  | _, _, _ => none

abbrev CoreState (ι π : Type*) := Interleaved (Tid ι) (CoreShared ι π) CorePc

def coreThreads (ι : Type*) [DecidableEq ι] (maps : ℕ → Maps π) :
    Machine (CoreState ι π) (Tid ι × CoreAct) :=
  interleave (coreStep maps)

/-- No call has been made. -/
def coreStart (vm : Vm π) : CoreState ι π where
  shared := { hooks := ⟨{}, vm⟩ }
  pc
    | .inl _ => .returned none
    | .inr _ => .absent

end Patrons.Xhook
