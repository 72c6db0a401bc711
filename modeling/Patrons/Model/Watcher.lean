import Patrons.Library.Fault
import Patrons.Library.Machine
import Patrons.Model.Config
import Patrons.Model.Word

/-! # The Java watcher

The static state of `_Patrons` and `Patrons`, and what their methods do to it. The native
library answers through `NativeCall`; a method that throws is cut by a fault. -/

namespace Patrons

/-- A `java.util.Timer` that is not cancelled. -/
structure TimerObject where
  id : ℕ
  /-- The period of the task that is scheduled on it, in milliseconds. -/
  period : Option Int64 := none
  deriving DecidableEq

structure Watcher where
  config : PatronsConfig := {}
  currentRegionSpaces : Int64 := 0
  strictCount : Int32 := 0
  autoCheckVssTimer : Option ℕ := none
  hasInit : Bool := false
  /-- The timers that are not cancelled, the newest first. -/
  timers : List TimerObject := []
  timersCreated : ℕ := 0
  /-- The native capacity, `*limit_ - *begin_`. -/
  capacity : SizeT
  /-- The sizes that the ticks have asked the native shrink for, the last one first. -/
  requests : List Int32 := []
  deriving DecidableEq

/-- A Java method. No access of it can raise a SIGSEGV. -/
abbrev Java := Prog Empty Watcher

def noSites : Empty → Bool := nofun

def Java.after {α : Type} (x : Java α) (w : Watcher) : Watcher := (x.run noSites w).state

structure NativeCall where
  /-- The capacity becomes the size that is asked for. -/
  applied : Bool
  result : Bool
  deriving DecidableEq

namespace Watcher

def S : Int64 := 1000

def bytesOfMB : Int64 := 1024 * 1024

def maxCheckOfStrictMode : Int32 := 5

/-! ## The native library -/

def resizeTo (capacity : SizeT) (newSize : Int32) (call : NativeCall) : SizeT :=
  if call.applied then newSize.toBitVec * MB else capacity

def getCurrentRegionSpaceSize (w : Watcher) : Int64 :=
  Int64.ofBitVec (w.capacity.zeroExtend 64)

def nativeShrink (newSize : Int32) (call : NativeCall) : Java Bool := do
  Prog.modify fun w => { w with capacity := resizeTo w.capacity newSize call }
  pure call.result

/-! ## Timers -/

/-- `if (autoCheckVssTimer != null)`, then `cancel()` and `null`. -/
def cancelTimer (w : Watcher) : Watcher :=
  match w.autoCheckVssTimer with
  | some k => { w with
      timers := w.timers.filter fun t => t.id != k
      autoCheckVssTimer := none }
  | none => w

def newTimer (w : Watcher) : Watcher :=
  { w with
    timers := { id := w.timersCreated } :: w.timers
    autoCheckVssTimer := some w.timersCreated
    timersCreated := w.timersCreated + 1 }

def setPeriod (period : Int64) (w : Watcher) : Watcher :=
  { w with timers := w.timers.map fun t =>
      if w.autoCheckVssTimer = some t.id then { t with period := some period } else t }

/-- `autoCheckVssTimer.schedule(new AutoCheckerTask(), period, period)`, which throws where
the period is not positive. -/
def schedule (period : Int64) : Java Unit := do
  Prog.guard fun _ => 0 < period
  Prog.modify (setPeriod period)

def inBackground : Java Unit := do
  let w ← Prog.get
  Prog.when w.config.auto do
    Prog.modify cancelTimer

def start_ (period : Int32) : Java Unit := do
  let w ← Prog.get
  Prog.when w.config.auto do
    Prog.modify cancelTimer
    Prog.modify newTimer
    schedule (period.toInt64 * S)

def setStrict (n : Int32) (w : Watcher) : Watcher := { w with strictCount := n }

def toForeground : Java Unit := do
  Prog.modify (setStrict 0)
  let w ← Prog.get
  start_ w.config.periodOfCheck

def setAutoOff (w : Watcher) : Watcher := { w with config := { w.config with auto := false } }

def autoOff : Java Unit := Prog.modify setAutoOff

def stop : Java Unit := do
  inBackground
  autoOff

/-! ## `AutoCheckerTask.run` -/

/-- `strictCount.get() != 0 && strictCount.addAndGet(1) > MAX_CHECK_OF_STRICT_MODE`, and
the `strictCount.set(0)` under it. -/
def exitsStrictMode : Java Bool := do
  let w ← Prog.get
  if w.strictCount ≠ 0 then do
    Prog.modify (setStrict (w.strictCount + 1))
    if maxCheckOfStrictMode < w.strictCount + 1 then do
      Prog.modify (setStrict 0)
      pure true
    else
      pure false
  else
    pure false

/-- The period of the checks outside strict mode. -/
def startChecks : Java Unit := do
  let w ← Prog.get
  start_ w.config.periodOfCheck

/-- `(currentRegionSpaces - config.shrinkStep) < config.lowerLimit`. -/
def noSpaceToResize (w : Watcher) : Bool :=
  w.currentRegionSpaces - w.config.shrinkStep.toInt64 < w.config.lowerLimit.toInt64

/-- `shrinkRegionSpace((int) (currentRegionSpaces = currentRegionSpaces - config.shrinkStep))`. -/
def shrinkByStep (call : NativeCall) : Java Bool := do
  Prog.modify fun w => { w with
    currentRegionSpaces := w.currentRegionSpaces - w.config.shrinkStep.toInt64 }
  let w ← Prog.get
  Prog.modify fun w => { w with requests := w.currentRegionSpaces.toInt32 :: w.requests }
  nativeShrink w.currentRegionSpaces.toInt32 call

/-- `strictCount.set(1)`, and the checks go on with half the period. -/
def startStrictMode : Java Unit := do
  Prog.modify (setStrict 1)
  let w ← Prog.get
  start_ (w.config.periodOfCheck / 2)

/-- `getCurrentRegionSpaceSize() / MB < _Patrons.config.lowerLimit`. -/
def belowLowerLimit (w : Watcher) : Bool :=
  w.getCurrentRegionSpaceSize / bytesOfMB < w.config.lowerLimit.toInt64

/-- `AutoCheckerTask.run`, with the reading of `readVssSize` and the answer of the native
shrink. -/
def run (beforeVmSize : Int64) (call : NativeCall) : Java Unit := do
  if ← exitsStrictMode then
    startChecks
  let w ← Prog.get
  if w.noSpaceToResize then
    stop
  else do
    let w ← Prog.get
    if w.config.overPeriod beforeVmSize then do
      if ← shrinkByStep call then
        startStrictMode
      else
        stop
    else do
      let w ← Prog.get
      if w.belowLowerLimit then
        stop
      else
        pure ()

/-! ## Init -/

/-- What `init` learns from the device and from the native init. -/
structure InitReads where
  sdkInt : ℤ
  is64Bit : Bool
  nativeCode : ℤ
  vssSize : Int64

def InitReads.isSupport (r : InitReads) : Bool := 26 ≤ r.sdkInt && r.sdkInt ≤ 31 && !r.is64Bit

def readRegionSpaces (w : Watcher) : Watcher :=
  { w with currentRegionSpaces := w.getCurrentRegionSpaceSize / bytesOfMB }

/-- The part of `__init` after the native init returned 0. -/
def startWatching (r : InitReads) : Java ℤ := do
  Prog.modify readRegionSpaces
  let w ← Prog.get
  if w.currentRegionSpaces ≤ 0 || 1024 < w.currentRegionSpaces then
    pure 2002
  else if w.currentRegionSpaces < w.config.lowerLimit.toInt64 then
    pure 2003
  else if w.config.auto then do
    if r.vssSize < 0 then
      pure 1001
    else do
      toForeground
      pure 0
  else
    pure 0

/-- `_Patrons.init`. -/
def initWatcher (config : Option PatronsConfig) (r : InitReads) : Java ℤ := do
  Prog.modify fun w => { w with config := config.getD w.config }
  if !r.isSupport then
    pure 2001
  else if r.nativeCode ≠ 0 then
    pure r.nativeCode
  else
    startWatching r

def init (config : Option PatronsConfig) (r : InitReads) : Java ℤ := do
  let w ← Prog.get
  if w.hasInit then
    pure 0
  else do
    let resultCode ← initWatcher config r
    Prog.modify fun w => { w with hasInit := resultCode == 0 }
    pure resultCode

end Watcher

/-! ## Runs -/

/-- The calls into the watcher, each without a break. A lifecycle call or a public shrink
does nothing before `init` returned 0. -/
inductive WatcherEvent where
  | tick (beforeVmSize : Int64) (call : NativeCall)
  | inBackground
  | toForeground
  | shrinkRegionSpace (newSize : Int32) (call : NativeCall)

def Watcher.ifInit (x : Java Unit) : Java Unit := do
  let w ← Prog.get
  Prog.when w.hasInit x

def WatcherEvent.program : WatcherEvent → Java Unit
  | tick beforeVmSize call => Watcher.run beforeVmSize call
  | inBackground => Watcher.ifInit Watcher.inBackground
  | toForeground => Watcher.ifInit Watcher.toForeground
  | shrinkRegionSpace newSize call => Watcher.ifInit do
      let _ ← Watcher.nativeShrink newSize call

def watcher : Machine Watcher WatcherEvent where
  step w e := some (e.program.after w)

/-- The state after the `Patrons.init` that returned 0. Before it there were no timers. -/
def Watcher.Started (w : Watcher) : Prop :=
  ∃ w₀ config r, (w₀.hasInit = false ∧ w₀.timers = [] ∧ w₀.autoCheckVssTimer = none ∧
      w₀.requests = []) ∧ (Watcher.init config r).run noSites w₀ = .done 0 w

end Patrons
