import Patrons.Model.Elf

/-! # Images in memory

`xh_elf_check_elfheader` and `xh_elf_init` for 32-bit ARM. Every byte can be read here; in the
process a fault leaves through the handler of `xh_core.c`. -/

namespace Patrons.Xhook

open Bytes

/-! ## The headers -/

def eType (m : Bytes) (ehdr : Addr) : BitVec 16 := loadHalf m (ehdr + 16)

def eMachine (m : Bytes) (ehdr : Addr) : BitVec 16 := loadHalf m (ehdr + 18)

def eVersion (m : Bytes) (ehdr : Addr) : SizeT := loadWord m (ehdr + 20)

def ePhoff (m : Bytes) (ehdr : Addr) : SizeT := loadWord m (ehdr + 28)

def ePhnum (m : Bytes) (ehdr : Addr) : BitVec 16 := loadHalf m (ehdr + 44)

/-- `ELFMAG`, `ELFCLASS32`, `ELFDATA2LSB` and `EV_CURRENT`. -/
def elfIdent : List (BitVec 8) := [0x7f, 0x45, 0x4c, 0x46, 1, 1, 1]

def xhElfCheckElfheader (m : Bytes) (base_addr : Addr) : ℤ :=
  if (List.range elfIdent.length).map (fun i => m (base_addr + BitVec.ofNat 32 i)) ≠ elfIdent then
    errnoFormat
  else if eType m base_addr ≠ 2 ∧ eType m base_addr ≠ 3 then errnoFormat
  else if eMachine m base_addr ≠ 40 then errnoFormat
  else if eVersion m base_addr ≠ 1 then errnoFormat
  else 0

/-- The fields of a program header that `xh_elf_init` reads. -/
structure Phdr where
  pType : SizeT
  pOffset : SizeT
  pVaddr : Addr
  pMemsz : SizeT
  deriving DecidableEq

def phdrAt (m : Bytes) (p : Addr) : Phdr :=
  ⟨loadWord m p, loadWord m (p + 4), loadWord m (p + 8), loadWord m (p + 20)⟩

/-- The loop of `xh_elf_get_first_segment_by_type` and of the one with an offset. After `e_phnum`
turns `phdr` is at its end. -/
def firstSegment (m : Bytes) (wanted : Phdr → Bool) (stop : Addr) : ℕ → Addr → Option Phdr
  | 0, _ => none
  | n + 1, phdr =>
    if stop ≤ phdr then none
    else if wanted (phdrAt m phdr) then some (phdrAt m phdr)
    else firstSegment m wanted stop n (phdr + 32)

def getFirstSegment (m : Bytes) (ehdr : Addr) (wanted : Phdr → Bool) : Option Phdr :=
  let phdr := ehdr + ePhoff m ehdr
  let n := (ePhnum m ehdr).toNat
  firstSegment m wanted (phdr + BitVec.ofNat 32 (32 * n)) n phdr

def xhElfGetFirstSegmentByType (m : Bytes) (ehdr : Addr) (type : SizeT) : Option Phdr :=
  getFirstSegment m ehdr fun phdr => phdr.pType == type

def xhElfGetFirstSegmentByTypeOffset (m : Bytes) (ehdr : Addr) (type offset : SizeT) :
    Option Phdr :=
  getFirstSegment m ehdr fun phdr => phdr.pType == type && phdr.pOffset == offset

/-! ## The dynamic section -/

inductive DynTag where
  | null | strtab | symtab | pltrel | jmprel | pltrelsz | rel | rela | relsz | relasz
  | androidRel | androidRela | androidRelsz | androidRelasz | hash | gnuHash | other
  deriving DecidableEq

def DynTag.ofWord (w : SizeT) : DynTag :=
  if w = 0 then null else if w = 5 then strtab else if w = 6 then symtab
  else if w = 20 then pltrel else if w = 23 then jmprel else if w = 2 then pltrelsz
  else if w = 17 then rel else if w = 7 then rela
  else if w = 18 then relsz else if w = 8 then relasz
  else if w = 0x6000000f then androidRel else if w = 0x60000011 then androidRela
  else if w = 0x60000010 then androidRelsz else if w = 0x60000012 then androidRelasz
  else if w = 4 then hash else if w = 0x6ffffef5 then gnuHash else other

structure Dyn where
  tag : DynTag
  val : SizeT
  deriving DecidableEq

def dynAt (m : Bytes) (p : Addr) : Dyn := ⟨.ofWord (loadWord m p), loadWord m (p + 4)⟩

deriving instance DecidableEq for Elf

namespace Elf

/-- `memset`, and the first assignments of `xh_elf_init`. -/
def reset (pathname : Option String) (base_addr bias_addr : Addr) : Elf where
  pathname := pathname
  baseAddr := base_addr
  biasAddr := bias_addr
  strtab := 0
  symtab := 0
  relplt := 0
  relpltSz := 0
  reldyn := 0
  reldynSz := 0
  relandroid := 0
  relandroidSz := 0
  bucket := 0
  bucketCnt := 0
  chain := 0
  symoffset := 0
  bloom := 0
  bloomSz := 0
  bloomShift := 0
  isUseRela := false
  isUseGnuHash := false

variable (self : Elf) (m : Bytes)

/-- A pointer of the dynamic section; below the image it is `XH_ERRNO_FORMAT`. -/
def table (val : SizeT) (set : Addr → Elf) : Option Elf :=
  if self.biasAddr + val < self.baseAddr then none else some (set (self.biasAddr + val))

def setHash (raw : Addr) : Elf :=
  { self with
    bucketCnt := loadWord m raw
    bucket := raw + 8
    chain := raw + 8 + 4 * loadWord m raw }

def setGnuHash (raw : Addr) : Elf :=
  let bucket := raw + 16 + 4 * loadWord m (raw + 8)
  { self with
    bucketCnt := loadWord m raw
    symoffset := loadWord m (raw + 4)
    bloomSz := loadWord m (raw + 8)
    bloomShift := loadWord m (raw + 12)
    bloom := raw + 16
    bucket := bucket
    chain := bucket + 4 * loadWord m raw
    isUseGnuHash := true }

/-- One turn of the loop over the dynamic section, but for `DT_NULL`. -/
def readDyn (e : Dyn) : Option Elf :=
  match e.tag with
  | .strtab => self.table e.val fun p => { self with strtab := p }
  | .symtab => self.table e.val fun p => { self with symtab := p }
  | .pltrel => some { self with isUseRela := e.val == 7 }
  | .jmprel => self.table e.val fun p => { self with relplt := p }
  | .pltrelsz => some { self with relpltSz := e.val }
  | .rel | .rela => self.table e.val fun p => { self with reldyn := p }
  | .relsz | .relasz => some { self with reldynSz := e.val }
  | .androidRel | .androidRela => self.table e.val fun p => { self with relandroid := p }
  | .androidRelsz | .androidRelasz => some { self with relandroidSz := e.val }
  | .hash => if self.isUseGnuHash then some self else self.table e.val (self.setHash m)
  | .gnuHash => self.table e.val (self.setGnuHash m)
  | .null | .other => some self

/-- The loop over the dynamic section from `dyn` on. -/
def readDynamic (stop : Addr) : ℕ → Addr → Elf → Option (Option Elf)
  | 0, _, _ => none
  | fuel + 1, dyn, self =>
    if stop ≤ dyn then some (some self)
    -- `DT_NULL` moves `dyn` to its end, and the loop one entry further
    else if (dynAt m dyn).tag = .null then readDynamic stop fuel (stop + 8) self
    else
      match self.readDyn m (dynAt m dyn) with
      | none => some none
      | some self => readDynamic stop fuel (dyn + 8) self

/-- The check of the packed table, which begins with `APS2`. -/
def checkAndroid : Option Elf :=
  if self.relandroid = 0 then some self
  else if self.relandroidSz < 4 ∨ m self.relandroid ≠ 0x41 ∨ m (self.relandroid + 1) ≠ 0x50 ∨
      m (self.relandroid + 2) ≠ 0x53 ∨ m (self.relandroid + 3) ≠ 0x32 then none
  else
    some { self with
      relandroid := self.relandroid + 4
      relandroidSz := self.relandroidSz - 4 }

/-- `xh_elf_check`. The first program header is at `phdr`. -/
def xhElfCheck (phdr : Addr) : ℤ :=
  if self.baseAddr = 0 ∨ self.biasAddr = 0 ∨ phdr = 0 ∨ self.strtab = 0 ∨ self.symtab = 0 ∨
      self.bucket = 0 ∨ self.chain = 0 ∨ (self.isUseGnuHash = true ∧ self.bloom = 0) then 1
  else 0

end Elf

def PT_LOAD : SizeT := 1

def PT_DYNAMIC : SizeT := 2

def xhElfInit (m : Bytes) (fuel : ℕ) (base_addr : Addr) (pathname : Option String) :
    Option (Except ℤ Elf) :=
  if base_addr = 0 ∨ pathname = none then some (.error errnoInval)
  else
    match xhElfGetFirstSegmentByTypeOffset m base_addr PT_LOAD 0 with
    | none => some (.error errnoFormat)
    | some phdr0 =>
      if base_addr < phdr0.pVaddr then some (.error errnoFormat)
      else
        match xhElfGetFirstSegmentByType m base_addr PT_DYNAMIC with
        | none => some (.error errnoFormat)
        | some dhdr =>
          let bias_addr := base_addr - phdr0.pVaddr
          let dyn := bias_addr + dhdr.pVaddr
          (Elf.readDynamic m (dyn + 8 * (dhdr.pMemsz / 8)) fuel dyn
              (.reset pathname base_addr bias_addr)).map fun read =>
            match read.bind (·.checkAndroid m) with
            | none => .error errnoFormat
            | some self =>
              if self.xhElfCheck (base_addr + ePhoff m base_addr) ≠ 0 then .error errnoFormat
              else .ok self

end Patrons.Xhook
