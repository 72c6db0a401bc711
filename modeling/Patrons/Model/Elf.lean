import Patrons.Library.Bytes
import Patrons.Library.Loop
import Patrons.Model.Word

/-! # Hooking in one ELF image

`xh_elf_hook` reads the tables of an image from memory and writes the slots of one symbol.
A loop that the format does not bound takes fuel, and `none` is a run that used it up. -/

namespace Patrons.Xhook

open Bytes Loop

def errnoUnknown : ℤ := 1001

def errnoInval : ℤ := 1002

def errnoNomem : ℤ := 1003

def errnoFormat : ℤ := 1007

def errnoElfinit : ℤ := 1008

/-- `xh_elf_t` for 32-bit images. A null pointer is 0. -/
structure Elf where
  pathname : Option String
  baseAddr : Addr
  biasAddr : Addr
  strtab : Addr
  symtab : Addr
  relplt : Addr
  relpltSz : SizeT
  reldyn : Addr
  reldynSz : SizeT
  relandroid : Addr
  relandroidSz : SizeT
  bucket : Addr
  bucketCnt : SizeT
  chain : Addr
  symoffset : SizeT
  bloom : Addr
  bloomSz : SizeT
  bloomShift : SizeT
  isUseRela : Bool
  isUseGnuHash : Bool

/-- The bytes of a C string, without the final NUL. -/
def cstr (s : String) : List (BitVec 8) :=
  (s.toUTF8.data.toList.map UInt8.toBitVec).takeWhile (· != 0)

/-- `strcmp(s, p) == 0` for a string `p` in memory. -/
def strcmpEq (m : Bytes) : List (BitVec 8) → Addr → Bool
  | [], p => m p == 0
  | c :: cs, p => m p == c && strcmpEq m cs (p + 1)

/-! ## Symbol lookup -/

def xhElfHash (name : List (BitVec 8)) : SizeT :=
  name.foldl
    (fun h c =>
      let h := (h <<< 4) + c.setWidth 32
      let g := h &&& 0xf0000000
      let h := h ^^^ g
      h ^^^ (g >>> 24))
    0

def xhElfGnuHash (name : List (BitVec 8)) : SizeT :=
  name.foldl (fun h c => h + ((h <<< 5) + c.setWidth 32)) 5381

namespace Elf

variable (self : Elf) (m : Bytes) (symbol : String)

def nameIs (i : SizeT) : Bool :=
  strcmpEq m (cstr symbol) (self.strtab + loadWord m (self.symtab + 16 * i))

/-- The chain from `i` on, of `xh_elf_hash_lookup`. -/
def hashChain : ℕ → SizeT → Option (Option SizeT)
  | 0, _ => none
  | fuel + 1, i =>
    if i = 0 then some none
    else if self.nameIs m symbol i then some (some i)
    else hashChain fuel (loadWord m (self.chain + 4 * i))

def xhElfHashLookup (fuel : ℕ) : Option (Option SizeT) :=
  let hash := xhElfHash (cstr symbol)
  self.hashChain m symbol fuel (loadWord m (self.bucket + 4 * (hash % self.bucketCnt)))

/-- The chain from `i` on, of `xh_elf_gnu_hash_lookup_def`. -/
def gnuChain (hash : SizeT) : ℕ → SizeT → Option (Option SizeT)
  | 0, _ => none
  | fuel + 1, i =>
    let symhash := loadWord m (self.chain + 4 * (i - self.symoffset))
    if (hash ||| 1) = (symhash ||| 1) ∧ self.nameIs m symbol i then some (some i)
    else if symhash &&& 1 ≠ 0 then some none
    else gnuChain hash fuel (i + 1)

def xhElfGnuHashLookupDef (fuel : ℕ) : Option (Option SizeT) :=
  let hash := xhElfGnuHash (cstr symbol)
  let word := loadWord m (self.bloom + 4 * ((hash / 32) % self.bloomSz))
  let mask := (1 : SizeT) <<< (hash % 32) ||| (1 : SizeT) <<< ((hash >>> self.bloomShift) % 32)
  if word &&& mask ≠ mask then some none
  else
    let i := loadWord m (self.bucket + 4 * (hash % self.bucketCnt))
    if i < self.symoffset then some none
    else self.gnuChain m symbol hash fuel i

def xhElfGnuHashLookupUndef : Option SizeT :=
  ((List.range self.symoffset.toNat).map (BitVec.ofNat 32)).find? (self.nameIs m symbol)

def xhElfGnuHashLookup (fuel : ℕ) : Option (Option SizeT) := do
  match ← self.xhElfGnuHashLookupDef m symbol fuel with
  | some i => pure (some i)
  | none => pure (self.xhElfGnuHashLookupUndef m symbol)

def xhElfFindSymidxByName (fuel : ℕ) : Option (Option SizeT) :=
  if self.isUseGnuHash then self.xhElfGnuHashLookup m symbol fuel
  else self.xhElfHashLookup m symbol fuel

end Elf

/-! ## Relocations -/

/-- `Elf32_Rel`; `Elf32_Rela` begins with the same fields, and hooking reads no others. -/
structure Rel where
  rOffset : Addr
  rInfo : SizeT
  deriving DecidableEq

/-- What the iterator over packed relocations points at, an `Elf32_Rel` without an addend or an
`Elf32_Rela`. -/
structure PackedRel extends Rel where
  rAddend : Option SizeT
  deriving DecidableEq

def relAt (m : Bytes) (p : Addr) : Rel := ⟨loadWord m p, loadWord m (p + 4)⟩

/-- `xh_elf_plain_reloc_iterator_t`. -/
structure PlainIter where
  cur : Addr
  stop : Addr
  isUseRela : Bool

def PlainIter.init (rel : Addr) (rel_sz : SizeT) (is_use_rela : Bool) : PlainIter :=
  ⟨rel, rel + rel_sz, is_use_rela⟩

def PlainIter.next (it : PlainIter) : Option (Addr × PlainIter) :=
  if it.stop ≤ it.cur then none
  else some (it.cur, { it with cur := it.cur + if it.isUseRela then 12 else 8 })

/-- `xh_elf_packed_reloc_iterator_t`, with the decoder's two pointers. -/
structure PackedIter where
  cur : Addr
  stop : Addr
  relocationCount : SizeT := 0
  groupSize : SizeT := 0
  groupFlags : SizeT := 0
  groupROffsetDelta : SizeT := 0
  relocationIndex : SizeT := 0
  relocationGroupIndex : SizeT := 0
  rOffset : SizeT := 0
  rInfo : SizeT := 0
  rAddend : SizeT := 0
  isUseRela : Bool

/-- Decoding reads memory and moves the iterator. `none` is `XH_ERRNO_FORMAT`. -/
abbrev Decode := ReaderT Bytes (StateT PackedIter Option)

/-- The loop of `xh_elf_sleb128_decoder_next` with `n` bytes left. -/
def sleb128 (m : Bytes) : ℕ → Addr → (shift : ℕ) → (value : SizeT) → Option (SizeT × Addr)
  | 0, _, _, _ => none
  | n + 1, cur, shift, value =>
    let byte := m cur
    let value := value ||| ((byte &&& 127).setWidth 32 <<< shift)
    let shift := shift + 7
    if byte &&& 128 ≠ 0 then sleb128 m n (cur + 1) shift value
    else if shift < 32 ∧ byte &&& 64 ≠ 0 then some (value ||| -((1 : SizeT) <<< shift), cur + 1)
    else some (value, cur + 1)

/-- `xh_elf_sleb128_decoder_next`. -/
def sleb128Next : Decode SizeT := fun m it =>
  (sleb128 m (it.stop.toNat - it.cur.toNat) it.cur 0 0).map fun r => (r.1, { it with cur := r.2 })

def setIter (f : PackedIter → PackedIter) : Decode Unit := fun _ it => some ((), f it)

def getIter : Decode PackedIter := fun _ it => some (it, it)

def failIf (c : Bool) : Decode Unit := fun _ it => if c then none else some ((), it)

def Decode.when (c : Bool) (x : Decode Unit) : Decode Unit := if c then x else pure ()

def readInto (set : SizeT → PackedIter → PackedIter) : Decode Unit := do
  let val ← sleb128Next
  setIter (set val)

/-- Where a decoder stops that found no end of a value. -/
def PackedIter.atEnd (it : PackedIter) : PackedIter :=
  { it with cur := if it.cur < it.stop then it.stop else it.cur }

/-- `xh_elf_packed_reloc_iterator_init`. Its caller ignores a failure, which leaves the
fields read so far and a decoder at its end. -/
def PackedIter.init (m : Bytes) (rel : Addr) (rel_sz : SizeT) (is_use_rela : Bool) : PackedIter :=
  let it : PackedIter := { cur := rel, stop := rel + rel_sz, isUseRela := is_use_rela }
  match sleb128Next m it with
  | none => it.atEnd
  | some (count, it) =>
    let it := { it with relocationCount := count }
    match sleb128Next m it with
    | none => it.atEnd
    | some (offset, it) => { it with rOffset := offset }

def RELOCATION_GROUPED_BY_INFO_FLAG : SizeT := 1

def RELOCATION_GROUPED_BY_OFFSET_DELTA_FLAG : SizeT := 2

def RELOCATION_GROUPED_BY_ADDEND_FLAG : SizeT := 4

def RELOCATION_GROUP_HAS_ADDEND_FLAG : SizeT := 8

def PackedIter.has (it : PackedIter) (flag : SizeT) : Bool := it.groupFlags &&& flag != 0

/-- `xh_elf_packed_reloc_iterator_read_group_fields`. -/
def readGroupFields : Decode Unit := do
  readInto fun val it => { it with groupSize := val }
  readInto fun val it => { it with groupFlags := val }
  let it ← getIter
  let own_addend := it.has RELOCATION_GROUP_HAS_ADDEND_FLAG &&
    it.has RELOCATION_GROUPED_BY_ADDEND_FLAG
  Decode.when (it.has RELOCATION_GROUPED_BY_OFFSET_DELTA_FLAG)
    (readInto fun val it => { it with groupROffsetDelta := val })
  Decode.when (it.has RELOCATION_GROUPED_BY_INFO_FLAG)
    (readInto fun val it => { it with rInfo := val })
  failIf (own_addend && !it.isUseRela)
  Decode.when own_addend (readInto fun val it => { it with rAddend := it.rAddend + val })
  Decode.when (!it.has RELOCATION_GROUP_HAS_ADDEND_FLAG)
    (setIter fun it => { it with rAddend := 0 })
  setIter fun it => { it with relocationGroupIndex := 0 }

def packedRelocIteratorNext : Decode PackedRel := do
  let it ← getIter
  failIf (it.relocationCount ≤ it.relocationIndex)
  Decode.when (it.relocationGroupIndex == it.groupSize) readGroupFields
  let it ← getIter
  let by_delta := it.has RELOCATION_GROUPED_BY_OFFSET_DELTA_FLAG
  Decode.when by_delta (setIter fun it => { it with rOffset := it.rOffset + it.groupROffsetDelta })
  Decode.when (!by_delta) (readInto fun val it => { it with rOffset := it.rOffset + val })
  Decode.when (!it.has RELOCATION_GROUPED_BY_INFO_FLAG)
    (readInto fun val it => { it with rInfo := val })
  Decode.when (it.isUseRela && it.has RELOCATION_GROUP_HAS_ADDEND_FLAG &&
      !it.has RELOCATION_GROUPED_BY_ADDEND_FLAG)
    (readInto fun val it => { it with rAddend := it.rAddend + val })
  setIter fun it => { it with
    relocationIndex := it.relocationIndex + 1
    relocationGroupIndex := it.relocationGroupIndex + 1 }
  let it ← getIter
  pure ⟨⟨it.rOffset, it.rInfo⟩, if it.isUseRela then some it.rAddend else none⟩

/-! ## Hooking -/

structure Vm (π : Type*) where
  mem : Bytes
  prot : π

/-- `xh_util` on page protection, over the state `π` of the kernel: a return code with the
protection found, and one for the change. -/
structure Pages (π : Type*) where
  getAddrProtect : (addr : Addr) → (pathname : Option String) → π → (ℤ × SizeT) × π
  setAddrProtect : (addr : Addr) → (prot : SizeT) → π → ℤ × π

variable {π : Type*} (pages : Pages π)

/-- `if(NULL != old_func) *old_func = v`. -/
def saveOld (old_func : Addr) (v : SizeT) (m : Bytes) : Bytes :=
  if old_func ≠ 0 then storeWord m old_func v else m

namespace Elf

variable (self : Elf)

def xhElfReplaceFunction (addr new_func old_func : Addr) (s : Vm π) : ℤ × Vm π :=
  let need_prot : SizeT := 3
  if loadWord s.mem addr = new_func then (0, s)
  else
    let got := pages.getAddrProtect addr self.pathname s.prot
    let old_prot := got.1.2
    if got.1.1 ≠ 0 then (got.1.1, { s with prot := got.2 })
    else
      let set :=
        if old_prot ≠ need_prot then pages.setAddrProtect addr need_prot got.2 else (0, got.2)
      if set.1 ≠ 0 then (set.1, { s with prot := set.2 })
      else
        let old_addr := loadWord s.mem addr
        (0, {
          mem := storeWord (saveOld old_func old_addr s.mem) addr new_func
          prot := if old_prot ≠ need_prot then (pages.setAddrProtect addr old_prot set.2).2
            else set.2 })

/-- `R_ARM_JUMP_SLOT` in `.rel.plt`, `R_ARM_GLOB_DAT` and `R_ARM_ABS32` elsewhere. -/
def typeFits (is_plt : Bool) (r_type : SizeT) : Bool :=
  if is_plt then r_type == 22 else r_type == 21 || r_type == 2

def fits (is_plt : Bool) (symidx : SizeT) (rel : Rel) : Bool :=
  rel.rInfo >>> 8 == symidx && typeFits is_plt (rel.rInfo &&& 0xff)

def slot (rel : Rel) : Addr := self.biasAddr + rel.rOffset

/-- `xh_elf_find_and_replace_func`; the middle value is `*found`. -/
def xhElfFindAndReplaceFunc (is_plt : Bool) (new_func old_func : Addr) (symidx : SizeT)
    (rel : Rel) (s : Vm π) : ℤ × Bool × Vm π :=
  if !fits is_plt symidx rel then (0, false, s)
  else
    let addr := self.slot rel
    if addr < self.baseAddr then (errnoFormat, true, s)
    else if new_func = 0 then
      (0, true, { s with mem := saveOld old_func (loadWord s.mem addr) s.mem })
    else
      let r := self.xhElfReplaceFunction pages addr new_func old_func s
      (r.1, true, r.2)

/-- The body of the loop over `.rel.plt`: it ends with the first relocation found. -/
def hookPlt (new_func old_func : Addr) (symidx : SizeT) (rel : Rel) (s : Vm π) :
    Option ℤ × Vm π :=
  let r := self.xhElfFindAndReplaceFunc pages true new_func old_func symidx rel s
  (if r.1 ≠ 0 then some r.1 else if r.2.1 then some 0 else none, r.2.2)

/-- The body of the loops over `.rel.dyn` and `.rel.android`. -/
def hookDyn (new_func old_func : Addr) (symidx : SizeT) (rel : Rel) (s : Vm π) :
    Option ℤ × Vm π :=
  let r := self.xhElfFindAndReplaceFunc pages false new_func old_func symidx rel s
  (if r.1 ≠ 0 then some r.1 else none, r.2.2)

end Elf

/-- A section of the image, and the rest of the hook unless its loop gave an error. -/
def orReturn (loop : Option (Option ℤ × Vm π)) (rest : Vm π → Option (ℤ × Vm π)) :
    Option (ℤ × Vm π) :=
  loop.bind fun r => if r.1.getD 0 ≠ 0 then some (r.1.getD 0, r.2) else rest r.2

namespace Elf

variable (self : Elf)

def pltSection (fuel : ℕ) (new_func old_func : Addr) (symidx : SizeT) (s : Vm π) :
    Option (Option ℤ × Vm π) :=
  if self.relplt = 0 then some (none, s)
  else
    whileNext (fun _ it => it.next)
      (fun p s => self.hookPlt pages new_func old_func symidx (relAt s.mem p) s) fuel
      (PlainIter.init self.relplt self.relpltSz self.isUseRela) s

def dynSection (fuel : ℕ) (new_func old_func : Addr) (symidx : SizeT) (s : Vm π) :
    Option (Option ℤ × Vm π) :=
  if self.reldyn = 0 then some (none, s)
  else
    whileNext (fun _ it => it.next)
      (fun p s => self.hookDyn pages new_func old_func symidx (relAt s.mem p) s) fuel
      (PlainIter.init self.reldyn self.reldynSz self.isUseRela) s

/-- The loop over the packed section of Android. -/
def androidSection (fuel : ℕ) (new_func old_func : Addr) (symidx : SizeT) (s : Vm π) :
    Option (Option ℤ × Vm π) :=
  if self.relandroid = 0 then some (none, s)
  else
    whileNext (fun s it => packedRelocIteratorNext s.mem it)
      (fun rel s => self.hookDyn pages new_func old_func symidx rel.toRel s) fuel
      (PackedIter.init s.mem self.relandroid self.relandroidSz self.isUseRela) s

/-- `xh_elf_hook`. A symbol that is not found gives no error. -/
def xhElfHook (fuel : ℕ) (symbol : Option String) (new_func old_func : Addr) (s : Vm π) :
    Option (ℤ × Vm π) :=
  if self.pathname = none then some (errnoElfinit, s)
  else
    match symbol with
    | none => some (errnoInval, s)
    | some symbol => (self.xhElfFindSymidxByName s.mem symbol fuel).bind fun
      | none => some (0, s)
      | some symidx =>
        orReturn (self.pltSection pages fuel new_func old_func symidx s) fun s =>
          orReturn (self.dynSection pages fuel new_func old_func symidx s) fun s =>
            orReturn (self.androidSection pages fuel new_func old_func symidx s) fun s =>
              some (0, s)

end Elf
end Patrons.Xhook
