import Patrons.Library.Machine
import Patrons.Model.Signal

/-! # Threads in guarded sections

The flag and the jump buffer `time_machine` belong to the process. Native init and
`shrinkRegionSpace` guard themselves with them on whichever thread they run. -/

namespace Patrons

/-- The two guarded sections. After a jump `shrinkRegionSpace` returns at once, and init
lowers the flag first. -/
inductive Section where
  | init
  | shrink
  deriving DecidableEq

inductive Pc where
  | outside
  /-- The flag is set, `sigsetjmp` comes next. -/
  | flagged (c : Section)
  /-- `sigsetjmp` returned 0. -/
  | body (c : Section)
  /-- `sigsetjmp` returned 1. -/
  | landed (c : Section)
  /-- The flag is reset, the return comes next. -/
  | cleared (c : Section)
  /-- The thread went on in a frame that is not its own or is gone. -/
  | lost
  deriving DecidableEq

inductive Action where
  /-- `HandleSignal(SIGSEGV)`, before the section of an init. -/
  | register (k : SigCalls)
  | setFlag (c : Section)
  | sigsetjmp
  | clearFlag
  | ret
  /-- A SIGSEGV is delivered to the thread. -/
  | fault

structure Threads (ι : Type*) where
  sig : Signals
  pc : ι → Pc := fun _ => .outside
  /-- The number of guarded calls that the thread has begun. -/
  calls : ι → ℕ := fun _ => 0
  /-- The thread and the call of the last `sigsetjmp(time_machine, 1)`. -/
  timeMachine : Option (ι × ℕ) := none

namespace Threads

variable {ι : Type*} [DecidableEq ι]

def goto (s : Threads ι) (i : ι) (p : Pc) : Threads ι :=
  { s with pc := Function.update s.pc i p }

/-- The section of the frame that the thread is in, once it made its `sigsetjmp`. -/
def frame? (s : Threads ι) (i : ι) : Option Section :=
  match s.pc i with
  | .body c | .landed c | .cleared c => some c
  | _ => none

/-- `siglongjmp(time_machine, 1)` on thread `i`. -/
def longjmp (s : Threads ι) (i : ι) : Threads ι :=
  match s.frame? i with
  | some c => if s.timeMachine = some (i, s.calls i) then s.goto i (.landed c) else s.goto i .lost
  | none => s.goto i .lost

def deliverTo (s : Threads ι) (i : ι) : Threads ι :=
  match deliver s.sig with
  | .jump sig => { s with sig := sig }.longjmp i
  | .resumed sig => { s with sig := sig }
  | .foreign _ => s

def step (s : Threads ι) (i : ι) : Action → Option (Threads ι)
  | .register k =>
    if s.pc i = .outside then some { s with sig := (handleSignal k s.sig).2 } else none
  | .setFlag c =>
    if s.pc i = .outside then
      some { s.goto i (.flagged c) with
        sig := s.sig.setFlag true, calls := Function.update s.calls i (s.calls i + 1) }
    else none
  | .sigsetjmp =>
    match s.pc i with
    | .flagged c => some { s.goto i (.body c) with timeMachine := some (i, s.calls i) }
    | _ => none
  | .clearFlag =>
    match s.pc i with
    | .body c => some { s.goto i (.cleared c) with sig := s.sig.setFlag false }
    | .landed .init => some { s.goto i (.cleared .init) with sig := s.sig.setFlag false }
    | _ => none
  | .ret =>
    match s.pc i with
    | .cleared _ => some (s.goto i .outside)
    | .landed .shrink => some (s.goto i .outside)
    | _ => none
  | .fault => if s.pc i = .lost then none else some (s.deliverTo i)

end Threads

def threads (ι : Type*) [DecidableEq ι] : Machine (Threads ι) (ι × Action) where
  step s l := s.step l.1 l.2

end Patrons
