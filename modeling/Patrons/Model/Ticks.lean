import Mathlib.Logic.Function.Basic
import Patrons.Model.Watcher

/-! # Ticks in steps

A tick runs on the thread of its `Timer`. `Timer.cancel` does not stop a tick that is
running, and lifecycle calls on other threads come between its steps. -/

namespace Patrons

inductive TickPc where
  | idle
  | strictTest
  | startChecks
  | spaceTest
  | periodTest
  | shrink
  | enterStrictMode
  | startStrictMode
  | sizeTest
  | stopInBackground
  | stopAuto
  /-- `run` threw, which ends the thread. -/
  | dead
  deriving DecidableEq

namespace TickPc

/-- One step of `AutoCheckerTask.run`, with the step that comes after it. -/
def step (beforeVmSize : Int64) (call : NativeCall) : TickPc → Java TickPc
  | idle => pure idle
  | strictTest => do
    if ← Watcher.exitsStrictMode then pure startChecks else pure spaceTest
  | startChecks => do
    Watcher.startChecks
    pure spaceTest
  | spaceTest => do
    let w ← Prog.get
    if w.noSpaceToResize then pure stopInBackground else pure periodTest
  | periodTest => do
    let w ← Prog.get
    if w.config.overPeriod beforeVmSize then pure shrink else pure sizeTest
  | shrink => do
    if ← Watcher.shrinkByStep call then pure enterStrictMode else pure stopInBackground
  | enterStrictMode => do
    Prog.modify (Watcher.setStrict 1)
    pure startStrictMode
  | startStrictMode => do
    let w ← Prog.get
    Watcher.start_ (w.config.periodOfCheck / 2)
    pure idle
  | sizeTest => do
    let w ← Prog.get
    if w.belowLowerLimit then pure stopInBackground else pure idle
  | stopInBackground => do
    Watcher.inBackground
    pure stopAuto
  | stopAuto => do
    Watcher.autoOff
    pure idle
  | dead => pure dead

/-- The step is the end of an `inBackground` or of a `stop`. -/
def quiets : TickPc → Bool
  | stopInBackground | stopAuto => true
  | _ => false

end TickPc

structure Ticks where
  watcher : Watcher
  pc : ℕ → TickPc := fun _ => .idle
  /-- Since the last `toForeground` an `inBackground` or a `stop` has completed. -/
  quiet : Bool := false

inductive TickEvent where
  /-- The thread of timer `k` starts the task that is scheduled on it. -/
  | begin (k : ℕ)
  | step (k : ℕ) (beforeVmSize : Int64) (call : NativeCall)
  | inBackground
  | toForeground

namespace Ticks

/-- The thread of timer `k` waits for its next task. -/
def canBegin (s : Ticks) (k : ℕ) : Bool :=
  s.pc k == .idle && s.watcher.timers.any fun t => t.id == k && t.period.isSome

def stepTick (s : Ticks) (k : ℕ) (beforeVmSize : Int64) (call : NativeCall) : Ticks :=
  let o := (TickPc.step beforeVmSize call (s.pc k)).run noSites s.watcher
  { watcher := o.state
    pc := Function.update s.pc k ((o.result?.map Prod.fst).getD .dead)
    quiet := s.quiet || (s.pc k).quiets }

end Ticks

/-- Lifecycle calls are atomic, the steps of ticks on different timers interleave. -/
def ticks : Machine Ticks TickEvent where
  step s
    | .begin k =>
      if s.canBegin k then some { s with pc := Function.update s.pc k .strictTest } else none
    | .step k beforeVmSize call =>
      if s.pc k = .idle ∨ s.pc k = .dead then none else some (s.stepTick k beforeVmSize call)
    | .inBackground =>
      some { s with watcher := Watcher.inBackground.after s.watcher, quiet := true }
    | .toForeground =>
      some { s with watcher := Watcher.toForeground.after s.watcher, quiet := false }

def TickPc.finish (beforeVmSize : Int64) (call : NativeCall) : ℕ → TickPc → Java Unit
  | 0, _ => pure ()
  | n + 1, pc =>
    if pc = .idle then pure ()
    else do
      let next ← TickPc.step beforeVmSize call pc
      finish beforeVmSize call n next

end Patrons
