import Mathlib.Logic.Function.Basic
import Patrons.Model.Watcher

/-! # Timer handling in steps

`_start` and `inBackground` read the static field `autoCheckVssTimer` again for every use and
take no lock. Each read and write of it, each `cancel`, each construction of a `Timer` and each
`schedule` is one step. -/

namespace Patrons

/-- What the end of a call of `cancel` and `null` is followed by: nothing in `inBackground`, the
new timer in `_start(period)`. -/
abbrev Then := Option Int32

inductive TimerPc where
  | outside
  /-- `autoCheckVssTimer != null`. -/
  | test (next : Then)
  /-- The read of `autoCheckVssTimer` for `cancel`. -/
  | read (next : Then)
  | cancel (ref : Option ℕ) (next : Then)
  /-- `autoCheckVssTimer = null`. -/
  | clear (next : Then)
  /-- `new Timer()`. -/
  | construct (period : Int32)
  /-- `autoCheckVssTimer = timer`. -/
  | assign (timer : ℕ) (period : Int32)
  /-- The read of `autoCheckVssTimer` for `schedule`. -/
  | reread (period : Int32)
  | schedule (ref : Option ℕ) (period : Int32)
  /-- A call on `null`. -/
  | nullPointer
  /-- `schedule` on a timer that is cancelled. -/
  | illegalState
  deriving DecidableEq

namespace TimerPc

def threw : TimerPc → Bool
  | nullPointer | illegalState => true
  | _ => false

def inProgress : TimerPc → Bool
  | outside | nullPointer | illegalState => false
  | _ => true

/-- The next step cancels or creates a timer or writes the field. -/
def writes : TimerPc → Bool
  | cancel _ _ | clear _ | construct _ | assign _ _ => true
  | _ => false

def after : Then → TimerPc
  | none => outside
  | some period => construct period

end TimerPc

namespace Watcher

def cancelRef (k : ℕ) (w : Watcher) : Watcher :=
  { w with timers := w.timers.filter fun t => t.id != k }

def setTimer (ref : Option ℕ) (w : Watcher) : Watcher := { w with autoCheckVssTimer := ref }

/-- `new Timer()`, before it is stored. -/
def construct (w : Watcher) : Watcher :=
  { w with
    timers := { id := w.timersCreated } :: w.timers
    timersCreated := w.timersCreated + 1 }

def isLive (k : ℕ) (w : Watcher) : Bool := w.timers.any fun t => t.id == k

def scheduleRef (k : ℕ) (period : Int64) (w : Watcher) : Watcher :=
  { w with timers := w.timers.map fun t =>
      if k = t.id then { t with period := some period } else t }

def timerStep (w : Watcher) : TimerPc → Watcher × TimerPc
  | .test next => (w, if w.autoCheckVssTimer = none then .after next else .read next)
  | .read next => (w, .cancel w.autoCheckVssTimer next)
  | .cancel none _ => (w, .nullPointer)
  | .cancel (some k) next => (w.cancelRef k, .clear next)
  | .clear next => (w.setTimer none, .after next)
  | .construct period => (w.construct, .assign w.timersCreated period)
  | .assign k period => (w.setTimer (some k), .reread period)
  | .reread period => (w, .schedule w.autoCheckVssTimer period)
  | .schedule none _ => (w, .nullPointer)
  | .schedule (some k) period =>
    if w.isLive k then (w.scheduleRef k (period.toInt64 * S), .outside) else (w, .illegalState)
  | pc => (w, pc)

end Watcher

inductive TimerEvent (ι : Type*) where
  | inBackground (i : ι)
  /-- `_start(period)`, by `toForeground` or by a tick. -/
  | start (i : ι) (period : Int32)
  | step (i : ι)
  /-- `stop` of a tick resets `config.auto`. -/
  | autoOff

structure TimerThreads (ι : Type*) where
  watcher : Watcher
  pc : ι → TimerPc := fun _ => .outside

variable {ι : Type*} [DecidableEq ι]

namespace TimerThreads

/-- A thread enters a call, which returns at once where `config.auto` is reset. -/
def enter (s : TimerThreads ι) (i : ι) (next : Then) : Option (TimerThreads ι) :=
  if s.pc i = .outside then
    some (if s.watcher.config.auto then { s with pc := Function.update s.pc i (.test next) } else s)
  else none

end TimerThreads

/-- Any thread runs `_start`, for a period that is positive, and `inBackground` at any time, so
also a tick and the lifecycle calls do, whatever they read. -/
def timerThreads : Machine (TimerThreads ι) (TimerEvent ι) where
  step s
    | .inBackground i => s.enter i none
    | .start i period => if 0 < period then s.enter i (some period) else none
    | .step i =>
      if (s.pc i).inProgress then
        some { watcher := (s.watcher.timerStep (s.pc i)).1
               pc := Function.update s.pc i (s.watcher.timerStep (s.pc i)).2 }
      else none
    | .autoOff => some { s with watcher := s.watcher.setAutoOff }

end Patrons
