import Patrons.Library.Scan
import Patrons.Model.Core

/-! # Reading `/proc/self/maps`

A refresh reads the file line by line. The buffers of `xh_core_refresh_impl` keep what one line
left in them for the next; a byte of the file is a character. -/

namespace Patrons.Xhook

open Scan

def nul : Char := Char.ofNat 0

/-- `strcpy(buf, s)`. -/
def overwrite (buf s : List Char) : List Char := s ++ nul :: buf.drop (s.length + 1)

def cString (buf : List Char) : List Char := buf.takeWhile (· != nul)

/-- The locals of `xh_core_refresh_impl` that outlive a line. -/
structure MapsVars where
  line : List Char
  perm : List Char
  pathnamePos : ℕ

/-- `"%x-%*lx %4s %lx %*x:%*x %*d%n"`. -/
def mapsFormat : List Directive := [
  .num 16, .lit '-', .skipNum 16, .space, .word 4, .space, .num 16, .space,
  .skipNum 16, .lit ':', .skipNum 16, .space, .skipNum 10, .count]

/-- `while(isspace(line[pos]) && pos < 511) pos++`, with `n` steps left. -/
def skipBlanks (line : List Char) : ℕ → ℕ → ℕ
  | 0, pos => pos
  | n + 1, pos => if isSpace (line.getD pos nul) then skipBlanks line n (pos + 1) else pos

/-- The pathname at `pos`, and the line after its newline has been cut off. -/
def readPathname (base : Addr) (perm : List Char) (offset : SizeT) (v : MapsVars) :
    Option MapsLine × MapsVars :=
  let v := { v with pathnamePos := skipBlanks v.line (511 - v.pathnamePos) v.pathnamePos }
  if 511 ≤ v.pathnamePos then (none, v)
  else
    let pathname := cString (v.line.drop v.pathnamePos)
    let ended := pathname.getLast? == some '\n'
    let v := { v with
      line := if ended then v.line.set (v.pathnamePos + pathname.length - 1) nul else v.line }
    let pathname := if ended then pathname.dropLast else pathname
    if pathname = [] ∨ pathname.head? = some '[' then (none, v)
    else (some ⟨base, String.ofList (perm.take 4), offset, String.ofList pathname⟩, v)

/-- The loop body of `xh_core_refresh_impl` up to the test of the pathname. -/
def readLine (piece : List Char) (v : MapsVars) : Option MapsLine × MapsVars :=
  let v := { v with line := overwrite v.line piece }
  match scan (cString v.line).length mapsFormat (cString v.line) with
  | .num base :: .word perm :: .num offset :: pos =>
    let v := { v with
      perm := overwrite v.perm perm
      pathnamePos := match pos with
        | [.count n] => n
        | _ => v.pathnamePos }
    if v.perm.head? ≠ some 'r' ∨ v.perm[3]? ≠ some 'p' then (none, v)
    else if BitVec.ofNat 32 offset ≠ 0 then (none, v)
    else readPathname (BitVec.ofNat 32 base) v.perm (BitVec.ofNat 32 offset) v
  | .num _ :: .word perm :: _ => (none, { v with perm := overwrite v.perm perm })
  | _ => (none, v)

def readPieces : List (List Char) → MapsVars → List MapsLine
  | [], _ => []
  | piece :: ps, v => (readLine piece v).1.toList ++ readPieces ps (readLine piece v).2

def readMaps (text : List Char) (v : MapsVars) : List MapsLine := readPieces (pieces 511 text) v

/-- `xh_core_refresh_impl` on the text of `/proc/self/maps`. -/
def xhCoreRefreshText {π : Type*} (maps : Maps π) (text : Option (List Char)) (v : MapsVars)
    (s : Hooks π) : Hooks π :=
  match text with
  | none => xhCoreRefreshImpl maps false s
  | some text => xhCoreRefreshImpl { maps with lines := readMaps text v } true s

end Patrons.Xhook
