import Mathlib.Logic.Function.Basic
import Patrons.Library.Fault
import Patrons.Model.Log

/-! # The native state

The globals of the library, the part of ART that it touches, the signal state and
the log. ART's memory is a word store; the library reaches the region space only
through the addresses that `NativeInit` computes. -/

namespace Patrons

/-! ## Return codes -/

inductive Code where
  | success
  | errorReadVssFailed
  | signalHandlerRegError
  | androidVersionNotSupport
  | heapSizeIsNotBigEnough
  | lowerLimitIsTooSmall
  | artLoadFailed
  | runtimeLoadFailed
  | heapLoadFailed
  | regionSpaceLoadFailed
  | loaderFunctionNotFound
  | resizeMethodNotFound
  | exclusiveLockMethodNotFound
  | exclusiveUnlockMethodNotFound
  | threadCurrentMethodNotFound
  | finalCheckFailed
  | nativeInitSegmentFault
  deriving DecidableEq

def Code.value : Code → ℤ
  | success => 0
  | errorReadVssFailed => 1001
  | signalHandlerRegError => 1002
  | androidVersionNotSupport => 2001
  | heapSizeIsNotBigEnough => 2002
  | lowerLimitIsTooSmall => 2003
  | artLoadFailed => 3001
  | runtimeLoadFailed => 3002
  | heapLoadFailed => 3003
  | regionSpaceLoadFailed => 3004
  | loaderFunctionNotFound => 4001
  | resizeMethodNotFound => 4002
  | exclusiveLockMethodNotFound => 4003
  | exclusiveUnlockMethodNotFound => 4004
  | threadCurrentMethodNotFound => 4005
  | finalCheckFailed => 9001
  | nativeInitSegmentFault => 10001

/-! ## Globals -/

/-- What the pointer `ClampGrowthLimit` refers to: the library's own function below
Android P, an address inside `libart` from P on. -/
inductive ClampFn where
  | null
  | own
  | art (f : Addr)
  deriving DecidableEq

def ClampFn.logArg : ClampFn → LogArg
  | null => .ptr 0
  | own => .sym "ClampGrowthLimit__"
  | art f => .ptr f

/-- All globals are zero when the library is loaded. -/
structure Globals where
  debuggable : Bool := false
  apiLevel : ℤ := 0
  brand : String := ""
  systemBrand : String := ""
  device : String := ""
  heapsize : String := ""
  fingerprint : String := ""
  romVersion : String := ""
  clampGrowthLimit : ClampFn := .null
  loaderDlopen : Addr := 0
  loaderDlsym : Addr := 0
  stubMethodInArt : Addr := 0
  setHeapSize : Addr := 0
  setSize : Addr := 0
  exclusiveLock : Addr := 0
  exclusiveUnlock : Addr := 0
  threadCurrent : Addr := 0
  art_ : Addr := 0
  runtime_ : Addr := 0
  heap_ : Addr := 0
  regionSpace_ : Addr := 0
  nonFreeRegionIndexLimit_ : Addr := 0
  begin_ : Addr := 0
  end_ : Addr := 0
  limit_ : Addr := 0
  numRegions_ : Addr := 0
  offsetHeapInRuntime : SizeT := 0
  offsetRegionSpaceInHeap : SizeT := 0
  offsetRegionLimitInRegionSpace : SizeT := 0
  offsetNumRegionsInRegionSpace : SizeT := 0
  offsetSpaceBitmapInRegionSpace : SizeT := 0
  init_ : Bool := false
  hasExceptionHandle_ : Bool := false

/-! ## ART -/

/-- The words of ART that the library reads or writes. -/
abbrev Mem := Addr → SizeT

inductive ArtCall where
  | threadCurrent
  | exclusiveLock (mutex : Addr)
  | exclusiveUnlock (mutex : Addr)
  | setHeapSize (bitmap : Addr) (size : SizeT)
  | setSize (memMap : Addr) (size : SizeT)
  | clampGrowthLimit (space : Addr) (capacity : SizeT)
  deriving DecidableEq

structure Art where
  mem : Mem
  /-- The mutexes that a call of the library has locked and not released. -/
  locked : Addr → Bool := fun _ => false
  /-- Calls made so far, the last one first. -/
  calls : List ArtCall := []

/-- The functions of `libart`, as their effects on memory and on which mutexes are held.
`ClampGrowthLimit` is called from Android P on, the others below. -/
structure ArtLib where
  clampGrowthLimit : (space : Addr) → (capacity : SizeT) → Mem → Mem
  threadCurrent : Mem → Mem
  setHeapSize : (bitmap : Addr) → (size : SizeT) → Mem → Mem
  setSize : (memMap : Addr) → (size : SizeT) → Mem → Mem
  /-- On a mutex that is free. -/
  exclusiveLock : (mutex : Addr) → (Addr → Bool) → Addr → Bool
  exclusiveUnlock : (mutex : Addr) → (Addr → Bool) → Addr → Bool
  -- of these words the calls below Android P write none
  threadCurrent_keeps : ∀ mem, threadCurrent mem = mem
  setHeapSize_keeps : ∀ bitmap size mem, setHeapSize bitmap size mem = mem
  setSize_keeps : ∀ memMap size mem, setSize memMap size mem = mem
  exclusiveLock_takes : ∀ mutex locked,
    exclusiveLock mutex locked = Function.update locked mutex true
  exclusiveUnlock_releases : ∀ mutex locked,
    exclusiveUnlock mutex locked = Function.update locked mutex false

/-! ## Signals -/

/-- A SIGSEGV disposition: the library's handler, or one set up by somebody else
(`SIG_DFL` is `foreign 0`). -/
inductive Disposition where
  | customSignalHandler
  | foreign (handler : ℕ)
  deriving DecidableEq

structure Signals where
  /-- The disposition that the kernel holds for SIGSEGV. -/
  sigsegv : Disposition
  /-- `sig_act_old[SIGSEGV]`. -/
  sigActOld : Disposition := .foreign 0
  iWantHandleSignalFlag : Bool := false
  deriving DecidableEq

structure Process where
  g : Globals
  art : Art
  sig : Signals
  log : LogRing

/-! ## Accesses -/

/-- The accesses that can raise a SIGSEGV, in the order of the source. -/
inductive Site where
  | resizeUsed | resizeLimit | resizeBegin | resizeLog | resizeClamp
  | lockThread | lock
  | clampUsed | clampNumRegions | clampBegin | clampLimit | clampEnd | clampSizeBegin
  | clampNewEnd | clampSetEnd | clampBitmap | clampSetHeapSize | clampMemMap | clampSetSize
  | unlockThread | unlock
  | sizeLimit | sizeBegin
  | initRuntime | initHeap | initRegionSpace | initLimit | initBegin | initNumRegions
  | initLogNumRegions | initLogLimit | initLogBegin
  deriving DecidableEq

abbrev Native := Prog Site Process

namespace Art

def store (a : Art) (p : Addr) (v : SizeT) : Art :=
  { a with mem := Function.update a.mem p v }

def call (a : Art) (c : ArtCall) : Art := { a with calls := c :: a.calls }

def setLocked (a : Art) (mutex : Addr) (b : Bool) : Art :=
  { a with locked := Function.update a.locked mutex b }

def callWith (a : Art) (c : ArtCall) (effect : Mem → Mem) : Art :=
  { a.call c with mem := effect a.mem }

def callLocking (a : Art) (c : ArtCall) (effect : (Addr → Bool) → Addr → Bool) : Art :=
  { a.call c with locked := effect a.locked }

variable (a : Art) (p : Addr) (v : SizeT) (c : ArtCall) (b : Bool) (lib : ArtLib)

@[simp] theorem mem_store : (a.store p v).mem = Function.update a.mem p v := rfl

@[simp] theorem locked_store : (a.store p v).locked = a.locked := rfl

@[simp] theorem calls_store : (a.store p v).calls = a.calls := rfl

@[simp] theorem mem_call : (a.call c).mem = a.mem := rfl

@[simp] theorem locked_call : (a.call c).locked = a.locked := rfl

@[simp] theorem calls_call : (a.call c).calls = c :: a.calls := rfl

@[simp] theorem mem_setLocked : (a.setLocked p b).mem = a.mem := rfl

@[simp] theorem locked_setLocked :
    (a.setLocked p b).locked = Function.update a.locked p b := rfl

@[simp] theorem calls_setLocked : (a.setLocked p b).calls = a.calls := rfl

theorem callWith_of_keeps {effect : Mem → Mem} (h : ∀ mem, effect mem = mem) :
    a.callWith c effect = a.call c := by
  rw [callWith, h]
  rfl

@[simp] theorem callWith_threadCurrent : a.callWith c lib.threadCurrent = a.call c :=
  a.callWith_of_keeps c lib.threadCurrent_keeps

@[simp] theorem callWith_setHeapSize : a.callWith c (lib.setHeapSize p v) = a.call c :=
  a.callWith_of_keeps c (lib.setHeapSize_keeps p v)

@[simp] theorem callWith_setSize : a.callWith c (lib.setSize p v) = a.call c :=
  a.callWith_of_keeps c (lib.setSize_keeps p v)

@[simp] theorem callLocking_exclusiveLock :
    a.callLocking c (lib.exclusiveLock p) = (a.setLocked p true).call c := by
  rw [callLocking, lib.exclusiveLock_takes]
  rfl

@[simp] theorem callLocking_exclusiveUnlock :
    a.callLocking c (lib.exclusiveUnlock p) = (a.setLocked p false).call c := by
  rw [callLocking, lib.exclusiveUnlock_releases]
  rfl

end Art

namespace Process

def setGlobals (s : Process) (g : Globals) : Process := { s with g := g }

def setArt (s : Process) (a : Art) : Process := { s with art := a }

def setSig (s : Process) (sig : Signals) : Process := { s with sig := sig }

def setLog (s : Process) (r : LogRing) : Process := { s with log := r }

variable (s : Process) (g : Globals) (a b : Art) (r : LogRing)

-- proved by cases, so that `simp` rewrites with them instead of unfolding the states
@[simp] theorem g_setGlobals : (s.setGlobals g).g = g := by cases s; rfl

@[simp] theorem art_setGlobals : (s.setGlobals g).art = s.art := by cases s; rfl

@[simp] theorem sig_setGlobals : (s.setGlobals g).sig = s.sig := by cases s; rfl

@[simp] theorem log_setGlobals : (s.setGlobals g).log = s.log := by cases s; rfl

@[simp] theorem g_setArt : (s.setArt a).g = s.g := by cases s; rfl

@[simp] theorem art_setArt : (s.setArt a).art = a := by cases s; rfl

@[simp] theorem sig_setArt : (s.setArt a).sig = s.sig := by cases s; rfl

@[simp] theorem log_setArt : (s.setArt a).log = s.log := by cases s; rfl

@[simp] theorem setArt_setArt : (s.setArt a).setArt b = s.setArt b := by cases s; rfl

@[simp] theorem setArt_art : s.setArt s.art = s := by cases s; rfl

@[simp] theorem g_setSig (sig : Signals) : (s.setSig sig).g = s.g := by cases s; rfl

@[simp] theorem art_setSig (sig : Signals) : (s.setSig sig).art = s.art := by cases s; rfl

@[simp] theorem sig_setSig (sig : Signals) : (s.setSig sig).sig = sig := by cases s; rfl

@[simp] theorem log_setSig (sig : Signals) : (s.setSig sig).log = s.log := by cases s; rfl

theorem setSig_of_eq {s : Process} {sig : Signals} (h : s.sig = sig) : s.setSig sig = s := by
  cases s
  subst h
  rfl

@[simp] theorem g_setLog : (s.setLog r).g = s.g := by cases s; rfl

@[simp] theorem art_setLog : (s.setLog r).art = s.art := by cases s; rfl

@[simp] theorem sig_setLog : (s.setLog r).sig = s.sig := by cases s; rfl

@[simp] theorem log_setLog : (s.setLog r).log = r := by cases s; rfl

@[simp] theorem setLog_setLog (r' : LogRing) : (s.setLog r).setLog r' = s.setLog r' := by
  cases s; rfl

@[simp] theorem setArt_setLog : (s.setLog r).setArt a = (s.setArt a).setLog r := by
  cases s; rfl

end Process

def globals : Native Globals := Process.g <$> Prog.get

/-- `*p`, which faults where `p` is `NULL`. -/
def load (i : Site) (p : Addr) : Native SizeT := do
  Prog.touch i fun _ => p != 0
  let s ← Prog.get
  pure (s.art.mem p)

def store (i : Site) (p : Addr) (v : SizeT) : Native Unit := do
  Prog.touch i fun _ => p != 0
  Prog.modify fun s => s.setArt (s.art.store p v)

def callArt (i : Site) (f : Addr) (c : ArtCall) (effect : Mem → Mem) : Native Unit := do
  Prog.touch i fun _ => f != 0
  Prog.modify fun s => s.setArt (s.art.callWith c effect)

section
variable (lib : ArtLib)

/-- `ExclusiveLock` waits while the mutex is held. A mutex that a call of the library
left locked is never released. -/
def exclusiveLock (i : Site) (mutex : Addr) : Native Unit := do
  let g ← globals
  Prog.touch i fun _ => g.exclusiveLock != 0
  Prog.await fun s => s.art.locked mutex
  Prog.modify fun s =>
    s.setArt (s.art.callLocking (.exclusiveLock mutex) (lib.exclusiveLock mutex))

def exclusiveUnlock (i : Site) (mutex : Addr) : Native Unit := do
  let g ← globals
  Prog.touch i fun _ => g.exclusiveUnlock != 0
  Prog.modify fun s =>
    s.setArt (s.art.callLocking (.exclusiveUnlock mutex) (lib.exclusiveUnlock mutex))

def threadCurrent (i : Site) : Native Unit := do
  let g ← globals
  callArt i g.threadCurrent .threadCurrent lib.threadCurrent

end

/-- `LOGD`, `LOGI` and `LOGE` differ only in the priority that is printed. -/
def dumpLine (line : LogLine) : Native Unit :=
  Prog.modify fun s => s.setLog (s.log.logDump line)

def logLine (format : String) (args : List LogArg := []) : Native Unit :=
  dumpLine ⟨format, args⟩

def nonGrowthLimitCapacity (i j : Site) : Native SizeT := do
  let g ← globals
  let limit ← load i g.limit_
  let start ← load j g.begin_
  pure (limit - start)

/-! ## Their weakest preconditions -/

def raises (φ : Site → Bool) (i : Site) (p : Addr) : Bool := φ i || p == 0

section
open Prog

variable {φ : Site → Bool} {F H : Process → Prop} {s : Process}

@[simp] theorem wp_globals {Q : Globals → Process → Prop} :
    wp φ globals Q F H s ↔ Q s.g s := Iff.rfl

@[simp] theorem wp_load {i : Site} {p : Addr} {Q : SizeT → Process → Prop} :
    wp φ (load i p) Q F H s ↔
      (raises φ i p = true → F s) ∧ (raises φ i p = false → Q (s.art.mem p) s) := by
  simp [load, raises]

@[simp] theorem wp_store {i : Site} {p : Addr} {v : SizeT} {Q : Unit → Process → Prop} :
    wp φ (store i p v) Q F H s ↔
      (raises φ i p = true → F s) ∧
        (raises φ i p = false → Q () (s.setArt (s.art.store p v))) := by
  simp [store, raises]

@[simp] theorem wp_callArt {i : Site} {f : Addr} {c : ArtCall} {effect : Mem → Mem}
    {Q : Unit → Process → Prop} :
    wp φ (callArt i f c effect) Q F H s ↔
      (raises φ i f = true → F s) ∧
        (raises φ i f = false → Q () (s.setArt (s.art.callWith c effect))) := by
  simp [callArt, raises]

variable {lib : ArtLib}

@[simp] theorem wp_threadCurrent {i : Site} {Q : Unit → Process → Prop} :
    wp φ (threadCurrent lib i) Q F H s ↔
      (raises φ i s.g.threadCurrent = true → F s) ∧
        (raises φ i s.g.threadCurrent = false →
          Q () (s.setArt (s.art.call .threadCurrent))) := by
  simp [threadCurrent]

@[simp] theorem wp_exclusiveLock {i : Site} {m : Addr} {Q : Unit → Process → Prop} :
    wp φ (exclusiveLock lib i m) Q F H s ↔
      (raises φ i s.g.exclusiveLock = true → F s) ∧
        (raises φ i s.g.exclusiveLock = false →
          (s.art.locked m = true → H s) ∧
            (s.art.locked m = false →
              Q () (s.setArt ((s.art.setLocked m true).call (.exclusiveLock m))))) := by
  simp [exclusiveLock, raises]

@[simp] theorem wp_exclusiveUnlock {i : Site} {m : Addr} {Q : Unit → Process → Prop} :
    wp φ (exclusiveUnlock lib i m) Q F H s ↔
      (raises φ i s.g.exclusiveUnlock = true → F s) ∧
        (raises φ i s.g.exclusiveUnlock = false →
          Q () (s.setArt ((s.art.setLocked m false).call (.exclusiveUnlock m)))) := by
  simp [exclusiveUnlock, raises]

@[simp] theorem wp_dumpLine {line : LogLine} {Q : Unit → Process → Prop} :
    wp φ (dumpLine line) Q F H s ↔ Q () (s.setLog (s.log.logDump line)) := Iff.rfl

@[simp] theorem wp_logLine {f : String} {args : List LogArg} {Q : Unit → Process → Prop} :
    wp φ (logLine f args) Q F H s ↔ Q () (s.setLog (s.log.logDump ⟨f, args⟩)) := Iff.rfl

@[simp] theorem wp_nonGrowthLimitCapacity {i j : Site} {Q : SizeT → Process → Prop} :
    wp φ (nonGrowthLimitCapacity i j) Q F H s ↔
      (raises φ i s.g.limit_ = true → F s) ∧
        (raises φ i s.g.limit_ = false →
          (raises φ j s.g.begin_ = true → F s) ∧
            (raises φ j s.g.begin_ = false →
              Q (s.art.mem s.g.limit_ - s.art.mem s.g.begin_) s)) := by
  simp [nonGrowthLimitCapacity]

end

end Patrons
