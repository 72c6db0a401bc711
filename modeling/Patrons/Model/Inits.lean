import Mathlib.Logic.Function.Basic
import Patrons.Model.Watcher

/-! # Concurrent inits

`Patrons.init` tests and writes `hasInit` outside the lock under which `_Patrons.init` runs,
so calls on different threads come between its three steps. -/

namespace Patrons

inductive InitPc where
  | called
  /-- `hasInit` was `false`, `_Patrons.init` comes next. -/
  | tested
  /-- `_Patrons.init` returned, the write of `hasInit` comes next. -/
  | answered (code : ℤ)
  | returned (code : ℤ)
  | threw
  deriving DecidableEq

def InitPc.inProgress : InitPc → Bool
  | tested | answered _ => true
  | _ => false

def InitPc.failed : InitPc → Bool
  | answered code => code != 0
  | _ => false

inductive InitEvent (ι : Type*) where
  | test (i : ι)
  | body (i : ι) (r : Watcher.InitReads)
  | write (i : ι)
  | inBackground
  | toForeground
  | tick (beforeVmSize : Int64) (call : NativeCall)

structure Inits (ι : Type*) where
  watcher : Watcher
  pc : ι → InitPc := fun _ => .called
  /-- Since its test, another call has written `true`. -/
  overtaken : ι → Bool := fun _ => false

namespace Watcher

def setHasInit (b : Bool) (w : Watcher) : Watcher := { w with hasInit := b }

/-- A task is scheduled on a timer that is not cancelled. -/
def canTick (w : Watcher) : Bool := w.timers.any fun t => t.period.isSome

end Watcher

def InitPc.afterBody (o : Outcome Watcher ℤ) : InitPc :=
  match o.result? with
  | some (code, _) => .answered code
  | none => .threw

variable {ι : Type*} [DecidableEq ι]

/-- Call `i` is `Patrons.init(context, config i)`. -/
def inits (config : ι → Option PatronsConfig) : Machine (Inits ι) (InitEvent ι) where
  step s
    | .test i =>
      if s.pc i = .called then
        some { s with
          pc := Function.update s.pc i (if s.watcher.hasInit then .returned 0 else .tested)
          overtaken := Function.update s.overtaken i false }
      else none
    | .body i r =>
      if s.pc i = .tested then
        let o := (Watcher.initWatcher (config i) r).run noSites s.watcher
        some { s with
          watcher := o.state
          pc := Function.update s.pc i (.afterBody o) }
      else none
    | .write i =>
      match s.pc i with
      | .answered code => some
        { watcher := s.watcher.setHasInit (code == 0)
          pc := Function.update s.pc i (.returned code)
          overtaken := fun j => s.overtaken j || code == 0 }
      | _ => none
    | .inBackground =>
      some { s with watcher := (Watcher.ifInit Watcher.inBackground).after s.watcher }
    | .toForeground =>
      some { s with watcher := (Watcher.ifInit Watcher.toForeground).after s.watcher }
    | .tick beforeVmSize call =>
      if s.watcher.canTick then
        some { s with watcher := (Watcher.run beforeVmSize call).after s.watcher }
      else none

end Patrons
