import Mathlib.Logic.Function.Basic
import Mathlib.Data.List.FinRange
import Patrons.Model.Log

/-! # The memory of the native log

`dump_logs` holds pointers, each 4 bytes wide, to buffers that `__log_dump` allocates. -/

namespace Patrons

/-- The bytes of a C string ahead of its NUL. -/
structure CString where
  bytes : List UInt8
  noNul : 0 ∉ bytes

structure LogMemory where
  dumpLogs : Fin 128 → Addr := fun _ => 0
  dumpCursor : BitVec 8 := 0
  /-- The live line buffers with the lines that they hold. -/
  live : Addr → Option CString := fun _ => none
  /-- A pointer to no live buffer was freed. -/
  badFree : Bool := false

namespace LogMemory

def malloc (p : Addr) (line : CString) (s : LogMemory) : LogMemory :=
  { s with live := Function.update s.live p (some line) }

def free (p : Addr) (s : LogMemory) : LogMemory :=
  { s with live := Function.update s.live p none, badFree := s.badFree || (s.live p).isNone }

def slot (s : LogMemory) : Fin 128 := ⟨s.dumpCursor.toNat % 128, Nat.mod_lt _ (by decide)⟩

/-- `if (*current != NULL) free(*current)`. -/
def freeSlot (current : Fin 128) (s : LogMemory) : LogMemory :=
  if s.dumpLogs current ≠ 0 then s.free (s.dumpLogs current) else s

def setSlot (current : Fin 128) (p : Addr) (s : LogMemory) : LogMemory :=
  { s with dumpLogs := Function.update s.dumpLogs current p }

def advance (s : LogMemory) : LogMemory := { s with dumpCursor := s.dumpCursor + 1 }

/-- `__log_dump`, with the buffer `p` from `malloc` and the line that `vsprintf` writes. -/
def logDump (p : Addr) (line : CString) (s : LogMemory) : LogMemory :=
  let s := s.malloc p line
  let current := s.slot
  (s.advance.freeSlot current).setSlot current p

/-- `CleanLogBuffer`: `memset` clears 128 bytes of `dump_logs`. -/
def cleanLogBuffer (s : LogMemory) : LogMemory :=
  { s with
    dumpLogs := fun i => if 4 * i.val < 128 then 0 else s.dumpLogs i
    dumpCursor := 0 }

/-- What `dumpLogs` leaves. Its own buffer is freed before it returns. -/
def afterDump (cleanAfterDump : Bool) (s : LogMemory) : LogMemory :=
  if s.dumpCursor ≠ 0 ∧ cleanAfterDump then s.cleanLogBuffer else s

end LogMemory

/-- Calls on one thread; the allocator chooses the buffer of a line. -/
inductive MemoryCall where
  | logDump (buffer : Addr) (line : LogLine)
  | cleanLogBuffer
  | dumpLogs (cleanAfterDump : Bool)

def logMemory (vsprintf : LogLine → CString) : Machine LogMemory MemoryCall where
  step s
    | .logDump p line =>
      if p ≠ 0 ∧ (s.live p).isNone then some (s.logDump p (vsprintf line)) else none
    | .cleanLogBuffer => some s.cleanLogBuffer
    | .dumpLogs clean => some (s.afterDump clean)

/-! ## The buffer of `dumpLogs` -/

def utf8 (s : String) : List UInt8 := s.toUTF8.data.toList

/-- The allocation `tmp` with the text that it holds. -/
structure TmpBuffer where
  size : ℕ
  text : List UInt8

/-- `strcat`; `none` where it writes beyond the allocation. -/
def strcat (src : List UInt8) (tmp : TmpBuffer) : Option TmpBuffer :=
  if tmp.text.length + src.length + 1 ≤ tmp.size then
    some { tmp with text := tmp.text ++ src }
  else none

/-- A round of the loop of `dumpLogs` on a slot that is not `NULL`. -/
def strcatLine (tmp : TmpBuffer) (line : CString) : Option TmpBuffer := do
  let tmp ← strcat line.bytes tmp
  strcat (utf8 "↵\n") tmp

/-- The text that `dumpLogs` builds of the lines in its slots. -/
def dumpTmp (current_cursor : ℕ) (lines : List CString) : Option TmpBuffer := do
  let tmp ← strcat (utf8 "\nPatrons Core Dump: ") ⟨current_cursor * 256, []⟩
  let tmp ← strcat (utf8 "1.1.0") tmp
  let tmp ← strcat (utf8 "↵\n") tmp
  let tmp ← lines.foldlM strcatLine tmp
  strcat (utf8 "\n") tmp

namespace LogMemory

def linesUpTo (slots : Fin 128 → Option CString) (n : ℕ) : List CString :=
  ((List.finRange 128).take n).filterMap slots

def line (s : LogMemory) (i : Fin 128) : Option CString :=
  if s.dumpLogs i = 0 then none else s.live (s.dumpLogs i)

/-- `dumpLogs`; `none` where it reads beyond `dump_logs` or writes beyond `tmp`. -/
def dump (cleanAfterDump : Bool) (s : LogMemory) : Option (List UInt8 × LogMemory) :=
  if s.dumpCursor = 0 then some (utf8 LogRing.emptyText, s)
  else if 128 < s.dumpCursor.toNat then none
  else
    (dumpTmp s.dumpCursor.toNat (linesUpTo s.line s.dumpCursor.toNat)).map fun tmp =>
      (tmp.text, s.afterDump cleanAfterDump)

end LogMemory

end Patrons
