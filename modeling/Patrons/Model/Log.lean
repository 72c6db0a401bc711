import Patrons.Library.Machine
import Patrons.Model.Word

/-! # The native log buffer

`LOGD`, `LOGI` and `LOGE` print a line and hand it to `__log_dump`, which keeps the
last lines in `dump_logs`. A line is kept here as its format and arguments. -/

namespace Patrons

inductive LogArg where
  | int (n : ℤ)
  | str (s : String)
  | ptr (p : Addr)
  /-- The address of one of the library's own objects. -/
  | sym (name : String)
  deriving DecidableEq

structure LogLine where
  format : String
  args : List LogArg := []
  deriving DecidableEq

structure LogRing where
  dumpLogs : Fin 128 → Option LogLine := fun _ => none
  /-- A `char`, which is unsigned and 8 bits wide in this build. -/
  dumpCursor : BitVec 8 := 0

namespace LogRing

/-- `__log_dump`: `dump_logs[dump_cursor++ % 128]` takes the line. -/
def logDump (r : LogRing) (line : LogLine) : LogRing where
  dumpLogs := fun i =>
    if i.val = r.dumpCursor.toNat % 128 then some line else r.dumpLogs i
  dumpCursor := r.dumpCursor + 1

/-- The 128 bytes that `memset` clears are the first 32 pointers. -/
def cleanLogBuffer (r : LogRing) : LogRing where
  dumpLogs := fun i => if i.val < 32 then none else r.dumpLogs i
  dumpCursor := 0

/-- What `dumpLogs` leaves: an empty buffer is not cleaned. -/
def afterDump (cleanAfterDump : Bool) (r : LogRing) : LogRing :=
  if r.dumpCursor ≠ 0 ∧ cleanAfterDump then r.cleanLogBuffer else r

/-! ## `dumpLogs` -/

/-- `dump_logs[i]`, which has no value beyond the array. -/
def slot (r : LogRing) (i : ℕ) : Option (Option LogLine) :=
  if h : i < 128 then some (r.dumpLogs ⟨i, h⟩) else none

/-- The lines that the loop of `dumpLogs` joins in its first `n` rounds. -/
def linesUpTo (r : LogRing) : ℕ → Option (List LogLine)
  | 0 => some []
  | n + 1 => do
    let lines ← linesUpTo r n
    let line ← r.slot n
    pure (lines ++ line.toList)

variable (vsprintf : LogLine → String)

def joinLines : List LogLine → String
  | [] => ""
  | line :: lines => vsprintf line ++ "↵\n" ++ joinLines lines

def dumpText (lines : List LogLine) : String :=
  "\nPatrons Core Dump: " ++ "1.1.0" ++ "↵\n" ++ joinLines vsprintf lines ++ "\n"

def emptyText : String := "the native log buffer is empty"

end LogRing

/-- `Java_com_alibaba_android_patronus__1Patrons_dumpLogs`; `none` where it reads beyond
`dump_logs`. -/
def dumpLogs (vsprintf : LogLine → String) (cleanAfterDump : Bool) (r : LogRing) :
    Option (String × LogRing) :=
  if r.dumpCursor = 0 then some (LogRing.emptyText, r)
  else do
    let lines ← r.linesUpTo r.dumpCursor.toNat
    pure (LogRing.dumpText vsprintf lines, if cleanAfterDump then r.cleanLogBuffer else r)

/-! ## Calls on one thread -/

inductive LogCall where
  | logDump (line : LogLine)
  | cleanLogBuffer
  | dumpLogs (cleanAfterDump : Bool)

def LogCall.indices (r : LogRing) : LogCall → List ℕ
  | logDump _ => [r.dumpCursor.toNat % 128]
  | cleanLogBuffer => List.range 32
  | dumpLogs cleanAfterDump =>
    List.range r.dumpCursor.toNat ++
      if r.dumpCursor ≠ 0 ∧ cleanAfterDump then List.range 32 else []

structure LogRun where
  ring : LogRing := {}
  /-- The lines logged since the last clean, the oldest first. -/
  since : List LogLine := []

def logCalls : Machine LogRun LogCall where
  step s
    | .logDump line => some ⟨s.ring.logDump line, s.since ++ [line]⟩
    | .cleanLogBuffer => some ⟨s.ring.cleanLogBuffer, []⟩
    | .dumpLogs clean => some ⟨s.ring.afterDump clean, if clean then [] else s.since⟩

end Patrons
