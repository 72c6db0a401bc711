import Mathlib.Data.List.Infix
import Patrons.Library.Loop
import Patrons.Library.Paging
import Patrons.Model.ProcMaps

/-! # Page protection

`xh_util.c` reads the protection of an address in `/proc/self/maps` and changes it with
`mprotect`. -/

namespace Patrons.Xhook

open Scan Paging

def errnoBadmaps : ℤ := 1006

def errnoSegverr : ℤ := 1009

/-- `"%x-%x %4s "`. -/
def protectFormat : List Directive := [.num 16, .lit '-', .num 16, .space, .word 4, .space]

/-- The locals of `xh_util_get_mem_protect` that outlive a line. -/
structure ProtectVars where
  startAddr : Addr
  perm : List Char
  load0 : Bool
  prot : SizeT

/-- `*prot` after the first segment. -/
def firstProt (perm : List Char) (prot : SizeT) : SizeT :=
  let prot := if perm[0]? = some 'r' then prot ||| 1 else prot
  let prot := if perm[1]? = some 'w' then prot ||| 2 else prot
  if perm[2]? = some 'x' then prot ||| 4 else prot

def nextProt (perm : List Char) (prot : SizeT) : SizeT :=
  let prot := if perm[0]? ≠ some 'r' then prot &&& ~~~1 else prot
  let prot := if perm[1]? ≠ some 'w' then prot &&& ~~~2 else prot
  if perm[2]? ≠ some 'x' then prot &&& ~~~4 else prot

/-- The loop body of `xh_util_get_mem_protect`. It ends the loop when all has been found. -/
def protectLine (endAddr : Addr) (pathname : Option (List Char)) (piece : List Char)
    (v : ProtectVars) : Option Unit × ProtectVars :=
  let line := cString piece
  if pathname.any fun pathname => !decide (pathname <:+: line) then (none, v)
  else
    match scan line.length protectFormat line with
    | .num start :: .num stop :: .word perm :: _ =>
      let v := { v with perm := overwrite v.perm perm }
      if v.perm[3]? ≠ some 'p' then (none, v)
      else if BitVec.ofNat 32 start ≤ v.startAddr ∧ v.startAddr < BitVec.ofNat 32 stop then
        let v :=
          if v.load0 then { v with prot := firstProt v.perm v.prot, load0 := false }
          else { v with prot := nextProt v.perm v.prot }
        if endAddr ≤ BitVec.ofNat 32 stop then (some (), v)
        else (none, { v with startAddr := BitVec.ofNat 32 stop })
      else (none, v)
    | _ => (none, v)

/-- `xh_util_get_mem_protect` with the text of `/proc/self/maps`, if it can be opened; `perm` is
what its buffer holds at the start. -/
def xhUtilGetMemProtect (text : Option (List Char)) (perm : List Char) (addr : Addr) (len : SizeT)
    (pathname : Option (List Char)) : ℤ × SizeT :=
  match text with
  | none => (errnoBadmaps, 0)
  | some text =>
    let r := Loop.forEach (protectLine (addr + len) pathname) (pieces 511 text)
      ⟨addr, perm, true, 0⟩
    (if r.1 = none then errnoSegverr else 0, r.2.prot)

def xhUtilGetAddrProtect (text : Option (List Char)) (perm : List Char) (addr : Addr)
    (pathname : Option (List Char)) : ℤ × SizeT :=
  xhUtilGetMemProtect text perm addr 4 pathname

def PAGE_START (addr : Addr) : Addr := addr &&& 0xfffff000

def PAGE_END (addr : Addr) : Addr := PAGE_START (addr + 4 - 1) + 4096

def PAGE_COVER (addr : Addr) : Addr := PAGE_END addr - PAGE_START addr

/-- `xh_util_set_addr_protect` over the states `κ` of the kernel, whose `mprotect` gives the value
of `errno` when it fails. -/
def xhUtilSetAddrProtect {κ : Type*} (mprotect : (start : Addr) → (len prot : SizeT) → κ →
    Option ℤ × κ) (addr : Addr) (prot : SizeT) (c : κ) : ℤ × κ :=
  let r := mprotect (PAGE_START addr) (PAGE_COVER addr) prot c
  match r.1 with
  | none => (0, r.2)
  | some errno => (if errno = 0 then errnoUnknown else errno, r.2)

end Patrons.Xhook
