import Mathlib.Algebra.Order.Ring.Nat
import Mathlib.Data.List.Induction
import Patrons.Model.ElfInit
import Patrons.Verification.Hook.FindOnly

/-! # What an image declares

`xh_elf_init` walks the program headers and the dynamic section. The image that it accepts is the
one that the last entries of the section declare, in whatever order they stand. -/

namespace Patrons.Xhook

open Bytes

/-! ## Program headers -/

/-- The records at `p`, `p + size`, and so on. -/
def recordsAt {ρ : Type*} (read : Addr → ρ) (size : ℕ) : ℕ → Addr → List ρ
  | 0, _ => []
  | n + 1, p => read p :: recordsAt read size n (p + BitVec.ofNat 32 size)

theorem firstSegment_eq {m : Bytes} {wanted : Phdr → Bool} {stop : Addr} {n : ℕ} {phdr : Addr}
    (hstop : stop.toNat = phdr.toNat + 32 * n) :
    firstSegment m wanted stop n phdr = (recordsAt (phdrAt m) 32 n phdr).find? wanted := by
  induction n generalizing phdr with
  | zero => rfl
  | succ n ih =>
      have hlt : ¬stop ≤ phdr := by bv_omega
      have hnext : stop.toNat = (phdr + 32).toNat + 32 * n := by bv_omega
      rw [firstSegment, if_neg hlt, recordsAt, List.find?_cons]
      cases hwanted : wanted (phdrAt m phdr) with
      | true => simp
      | false => simpa using ih hnext

/-! ## The dynamic section -/

def beforeNull (es : List Dyn) : List Dyn := es.takeWhile (·.tag ≠ .null)

theorem readDynamic_eq {m : Bytes} {stop : Addr} {n fuel : ℕ} {dyn : Addr} (self : Elf)
    (hstop : stop.toNat = dyn.toNat + 8 * n) (hend : stop.toNat + 8 < 2 ^ 32) (hfuel : n < fuel) :
    Elf.readDynamic m stop fuel dyn self =
      some ((beforeNull (recordsAt (dynAt m) 8 n dyn)).foldlM (Elf.readDyn · m) self) := by
  induction n generalizing fuel dyn self with
  | zero =>
      obtain ⟨k, rfl⟩ : ∃ k, fuel = k + 1 := ⟨fuel - 1, by omega⟩
      have hle : stop ≤ dyn := by bv_omega
      rw [Elf.readDynamic, if_pos hle]
      rfl
  | succ n ih =>
      obtain ⟨k, rfl⟩ : ∃ k, fuel = k + 1 := ⟨fuel - 1, by omega⟩
      have hlt : ¬stop ≤ dyn := by bv_omega
      rw [Elf.readDynamic, if_neg hlt, recordsAt, beforeNull, List.takeWhile_cons]
      by_cases hnull : (dynAt m dyn).tag = .null
      · obtain ⟨j, rfl⟩ : ∃ j, k = j + 1 := ⟨k - 1, by omega⟩
        have hle : stop ≤ stop + 8 := by bv_omega
        rw [if_pos hnull, Elf.readDynamic, if_pos hle]
        simp [hnull]
      · have hnext : stop.toNat = (dyn + 8).toNat + 8 * n := by bv_omega
        rw [if_neg hnull, if_pos (by simpa using hnull), List.foldlM_cons]
        cases hread : self.readDyn m (dynAt m dyn) with
        | none => rfl
        | some self' => exact ih self' hnext (by omega)

/-! ## The last entries -/

def lastVal (tags : List DynTag) (es : List Dyn) : Option SizeT :=
  (es.reverse.find? (·.tag ∈ tags)).map (·.val)

@[simp] theorem lastVal_nil (tags : List DynTag) : lastVal tags [] = none := rfl

@[simp] theorem lastVal_append (tags : List DynTag) (es : List Dyn) (e : Dyn) :
    lastVal tags (es ++ [e]) = if e.tag ∈ tags then some e.val else lastVal tags es := by
  rw [lastVal, List.reverse_append, List.reverse_singleton, List.singleton_append, List.find?_cons]
  by_cases he : e.tag ∈ tags <;> simp [he, lastVal]

def lastPtr (bias_addr : Addr) (tags : List DynTag) (es : List Dyn) (p : Addr) : Addr :=
  ((lastVal tags es).map (bias_addr + ·)).getD p

namespace Elf

variable (m : Bytes) (start : Elf) (es : List Dyn)

/-- The tables of the section but for the hash tables. -/
def declaredTables : Elf :=
  { start with
    strtab := lastPtr start.biasAddr [.strtab] es start.strtab
    symtab := lastPtr start.biasAddr [.symtab] es start.symtab
    relplt := lastPtr start.biasAddr [.jmprel] es start.relplt
    relpltSz := (lastVal [.pltrelsz] es).getD start.relpltSz
    reldyn := lastPtr start.biasAddr [.rel, .rela] es start.reldyn
    reldynSz := (lastVal [.relsz, .relasz] es).getD start.reldynSz
    relandroid := lastPtr start.biasAddr [.androidRel, .androidRela] es start.relandroid
    relandroidSz := (lastVal [.androidRelsz, .androidRelasz] es).getD start.relandroidSz
    isUseRela := ((lastVal [.pltrel] es).map (· == 7)).getD start.isUseRela }

def declared : Elf :=
  match lastVal [.gnuHash] es, lastVal [.hash] es with
  | some v, _ => (start.declaredTables es).setGnuHash m (start.biasAddr + v)
  | none, some v => (start.declaredTables es).setHash m (start.biasAddr + v)
  | none, none => start.declaredTables es

end Elf

/-- The entry is a pointer that has to lie in the image. -/
def DynTag.isPointer : DynTag → Bool
  | strtab | symtab | jmprel | rel | rela | androidRel | androidRela | hash | gnuHash => true
  | _ => false

variable {m : Bytes} {start self : Elf} {es : List Dyn} {e : Dyn}

@[simp] theorem declared_baseAddr : (start.declared m es).baseAddr = start.baseAddr := by
  unfold Elf.declared
  split <;> rfl

@[simp] theorem declared_biasAddr : (start.declared m es).biasAddr = start.biasAddr := by
  unfold Elf.declared
  split <;> rfl

theorem declared_isUseGnuHash (hstart : start.isUseGnuHash = false) :
    (start.declared m es).isUseGnuHash = (lastVal [.gnuHash] es).isSome := by
  unfold Elf.declared
  split <;> simp_all [Elf.setGnuHash, Elf.setHash, Elf.declaredTables]

/-- The entry after `es` is no pointer below the image. An old hash table after a GNU one is not
looked at. -/
def InImage (start : Elf) (es : List Dyn) (e : Dyn) : Prop :=
  e.tag.isPointer = true → (e.tag = .hash → lastVal [.gnuHash] es = none) →
    start.baseAddr ≤ start.biasAddr + e.val

theorem readDyn_inImage (hstart : start.isUseGnuHash = false) (h : InImage start es e) :
    (start.declared m es).readDyn m e = some (start.declared m (es ++ [e])) := by
  have hgnu : (start.declared m es).isUseGnuHash = (lastVal [.gnuHash] es).isSome :=
    declared_isUseGnuHash hstart
  rcases e with ⟨tag, val⟩
  cases tag <;> cases hg : lastVal [.gnuHash] es <;> cases hh : lastVal [.hash] es <;>
    simp_all [Elf.readDyn, Elf.table, Elf.declared, Elf.declaredTables, lastPtr, Elf.setHash,
      Elf.setGnuHash, DynTag.isPointer, InImage]

theorem readDyn_of_not_inImage (hstart : start.isUseGnuHash = false) (h : ¬InImage start es e) :
    (start.declared m es).readDyn m e = none := by
  have hgnu : (start.declared m es).isUseGnuHash = (lastVal [.gnuHash] es).isSome :=
    declared_isUseGnuHash hstart
  rcases e with ⟨tag, val⟩
  cases tag <;> simp_all [Elf.readDyn, Elf.table, DynTag.isPointer, InImage]

def AllInImage (start : Elf) (es : List Dyn) : Prop :=
  ∀ n e, es[n]? = some e → InImage start (es.take n) e

theorem allInImage_append :
    AllInImage start (es ++ [e]) ↔ AllInImage start es ∧ InImage start es e := by
  constructor
  · intro h
    refine ⟨fun n d hd => ?_, by simpa using h es.length e (by simp)⟩
    have hlt := (List.getElem?_eq_some_iff.mp hd).1
    have hn := h n d (by rw [List.getElem?_append_left hlt, hd])
    rwa [List.take_append_of_le_length hlt.le] at hn
  · rintro ⟨h, he⟩ n d hd
    by_cases hlt : n < es.length
    · rw [List.getElem?_append_left hlt] at hd
      rw [List.take_append_of_le_length hlt.le]
      exact h n d hd
    · obtain rfl : n = es.length := by
        have hle := (List.getElem?_eq_some_iff.mp hd).1
        simp only [List.length_append, List.length_singleton] at hle
        omega
      obtain rfl : e = d := by simpa using hd
      simpa using he

/-- The loop reads what the section declares. -/
theorem foldlM_readDyn_iff (hstart : start.isUseGnuHash = false) :
    es.foldlM (Elf.readDyn · m) start = some self ↔
      AllInImage start es ∧ self = start.declared m es := by
  induction es using List.reverseRecOn generalizing self with
  | nil =>
      have hnil : AllInImage start [] := fun n e he => by simp at he
      have hself : start.declared m [] = start := rfl
      simp [hnil, hself, eq_comm]
  | append_singleton es e ih =>
      rw [List.foldlM_append, allInImage_append]
      by_cases hall : AllInImage start es
      · have hes : es.foldlM (Elf.readDyn · m) start = some (start.declared m es) :=
          ih.mpr ⟨hall, rfl⟩
        by_cases he : InImage start es e
        · simp [hes, hall, he, readDyn_inImage hstart he, eq_comm]
        · simp [hes, he, readDyn_of_not_inImage hstart he]
      · have hes : es.foldlM (Elf.readDyn · m) start = none := by
          rw [Option.eq_none_iff_forall_ne_some]
          exact fun s hs => hall (ih.mp hs).1
        simp [hes, hall]

/-! ## Images that are accepted -/

def phdrs (m : Bytes) (base : Addr) : List Phdr :=
  recordsAt (phdrAt m) 32 (ePhnum m base).toNat (base + ePhoff m base)

/-- The first segment to load, from the start of the file. -/
def loadPhdr (m : Bytes) (base : Addr) : Option Phdr :=
  (phdrs m base).find? fun phdr => phdr.pType == PT_LOAD && phdr.pOffset == 0

def dynamicPhdr (m : Bytes) (base : Addr) : Option Phdr :=
  (phdrs m base).find? fun phdr => phdr.pType == PT_DYNAMIC

def dyns (m : Bytes) (bias_addr : Addr) (dhdr : Phdr) : List Dyn :=
  beforeNull (recordsAt (dynAt m) 8 (dhdr.pMemsz / 8).toNat (bias_addr + dhdr.pVaddr))

/-- The program headers and the dynamic section end before the last word pair of memory. -/
structure InSpace (m : Bytes) (base : Addr) : Prop where
  phdrs : (base + ePhoff m base).toNat + 32 * (ePhnum m base).toNat < 2 ^ 32
  dyns : ∀ load dhdr, loadPhdr m base = some load → dynamicPhdr m base = some dhdr →
    (base - load.pVaddr + dhdr.pVaddr).toNat + 8 * (dhdr.pMemsz / 8).toNat + 8 < 2 ^ 32

/-- The image at `base` is the one that its headers and its dynamic section declare. -/
structure Declares (m : Bytes) (base : Addr) (pathname : Option String) (elf : Elf)
    (load dhdr : Phdr) : Prop where
  base_ne : base ≠ 0
  named : pathname ≠ none
  load_eq : loadPhdr m base = some load
  dynamic_eq : dynamicPhdr m base = some dhdr
  load_le : load.pVaddr ≤ base
  inImage : AllInImage (.reset pathname base (base - load.pVaddr))
    (dyns m (base - load.pVaddr) dhdr)
  android : ((Elf.reset pathname base (base - load.pVaddr)).declared m
    (dyns m (base - load.pVaddr) dhdr)).checkAndroid m = some elf
  check : elf.xhElfCheck (base + ePhoff m base) = 0

variable {base : Addr} {pathname : Option String} {elf : Elf} {fuel : ℕ}

theorem getFirstSegment_eq (hspace : InSpace m base) (wanted : Phdr → Bool) :
    getFirstSegment m base wanted = (phdrs m base).find? wanted := by
  have hphdrs := hspace.phdrs
  exact firstSegment_eq (by bv_omega)

theorem readDynamic_dyns (hspace : InSpace m base) {load dhdr : Phdr}
    (hload : loadPhdr m base = some load) (hdynamic : dynamicPhdr m base = some dhdr)
    (hfuel : (dhdr.pMemsz / 8).toNat < fuel) (self : Elf) :
    Elf.readDynamic m (base - load.pVaddr + dhdr.pVaddr + 8 * (dhdr.pMemsz / 8)) fuel
        (base - load.pVaddr + dhdr.pVaddr) self =
      some ((dyns m (base - load.pVaddr) dhdr).foldlM (Elf.readDyn · m) self) := by
  have hdyns := hspace.dyns load dhdr hload hdynamic
  have hstop : (base - load.pVaddr + dhdr.pVaddr + 8 * (dhdr.pMemsz / 8)).toNat =
      (base - load.pVaddr + dhdr.pVaddr).toNat + 8 * (dhdr.pMemsz / 8).toNat := by
    rw [BitVec.toNat_add, BitVec.toNat_mul, show BitVec.toNat (8 : Addr) = 8 from rfl]
    omega
  exact readDynamic_eq self hstop (by omega) hfuel

theorem loads_eq (hspace : InSpace m base) :
    xhElfGetFirstSegmentByTypeOffset m base PT_LOAD 0 = loadPhdr m base ∧
      xhElfGetFirstSegmentByType m base PT_DYNAMIC = dynamicPhdr m base :=
  ⟨getFirstSegment_eq hspace _, getFirstSegment_eq hspace _⟩

theorem declares_of_init (hspace : InSpace m base)
    (hfuel : ∀ dhdr, dynamicPhdr m base = some dhdr → (dhdr.pMemsz / 8).toNat < fuel)
    (h : xhElfInit m fuel base pathname = some (.ok elf)) :
    ∃ load dhdr, Declares m base pathname elf load dhdr := by
  rw [xhElfInit, (loads_eq hspace).1, (loads_eq hspace).2] at h
  split at h
  · simp at h
  rename_i hargs
  rw [not_or] at hargs
  split at h
  · simp at h
  rename_i load hl
  split at h
  · simp at h
  rename_i hle
  split at h
  · simp at h
  rename_i dhdr hd
  simp only [readDynamic_dyns hspace hl hd (hfuel dhdr hd), Option.map_some] at h
  cases hread : (dyns m (base - load.pVaddr) dhdr).foldlM (Elf.readDyn · m)
      (.reset pathname base (base - load.pVaddr)) with
  | none => simp [hread] at h
  | some self =>
      obtain ⟨hall, rfl⟩ := (foldlM_readDyn_iff rfl).mp hread
      rw [hread, Option.bind_some] at h
      split at h
      · simp at h
      rename_i self' handroid
      split at h
      · simp at h
      rename_i hcheck
      obtain rfl : self' = elf := by simpa using h
      exact ⟨load, dhdr, hargs.1, hargs.2, hl, hd, BitVec.not_lt.mp hle, hall, handroid,
        not_not.mp hcheck⟩

theorem init_of_declares (hspace : InSpace m base)
    (hfuel : ∀ dhdr, dynamicPhdr m base = some dhdr → (dhdr.pMemsz / 8).toNat < fuel)
    {load dhdr : Phdr} (h : Declares m base pathname elf load dhdr) :
    xhElfInit m fuel base pathname = some (.ok elf) := by
  have hread := (foldlM_readDyn_iff (m := m) rfl).mpr ⟨h.inImage, rfl⟩
  rw [xhElfInit, (loads_eq hspace).1, (loads_eq hspace).2]
  simp only [h.load_eq, h.dynamic_eq, h.base_ne, h.named, or_self, ↓reduceIte,
    if_neg (BitVec.not_lt.mpr h.load_le),
    readDynamic_dyns hspace h.load_eq h.dynamic_eq (hfuel dhdr h.dynamic_eq), Option.map_some,
    hread, Option.bind_some, h.android, h.check, ne_eq, not_true_eq_false]

/-- An image is accepted exactly when its headers and its dynamic section declare it: every
pointer of the section lies in the image, and each field is that of its last entry. -/
theorem xhElfInit_iff (hspace : InSpace m base)
    (hfuel : ∀ dhdr, dynamicPhdr m base = some dhdr → (dhdr.pMemsz / 8).toNat < fuel) :
    xhElfInit m fuel base pathname = some (.ok elf) ↔
      ∃ load dhdr, Declares m base pathname elf load dhdr := by
  constructor
  · exact declares_of_init hspace hfuel
  · rintro ⟨load, dhdr, h⟩
    exact init_of_declares hspace hfuel h

/-! ### An image with both hash tables and a packed table -/

/-- The image at 0x1000, with the bytes of its dynamic section. -/
@[irreducible] def libiMemory (dynamic : List (BitVec 8)) : Bytes := memoryOf [
  (0x1080, dynamic),
  (0x101c, [0x34, 0, 0, 0]),
  (0x102c, [2, 0]),
  (0x1034, [1, 0, 0, 0]),
  (0x1054, [2, 0, 0, 0, 0x80, 0, 0, 0, 0x80, 0, 0, 0]),
  (0x1068, [0x38, 0, 0, 0]),
  (0x1300, [1, 0, 0, 0, 2, 0, 0, 0]),
  (0x1340, [1, 0, 0, 0, 1, 0, 0, 0, 1, 0, 0, 0, 5, 0, 0, 0]),
  (0x1400, [0x41, 0x50, 0x53, 0x32])]

/-- The strings, the symbols, the hash tables, the packed table and its size. -/
def libiDynamic : List (BitVec 8) := [
  5, 0, 0, 0, 0x00, 0x01, 0, 0,
  6, 0, 0, 0, 0x00, 0x02, 0, 0,
  4, 0, 0, 0, 0x00, 0x03, 0, 0,
  0xf5, 0xfe, 0xff, 0x6f, 0x40, 0x03, 0, 0,
  0x0f, 0, 0, 0x60, 0x00, 0x04, 0, 0,
  0x10, 0, 0, 0x60, 0x08, 0, 0, 0,
  0, 0, 0, 0, 0, 0, 0, 0]

def libi : Elf where
  pathname := some "libi.so"
  baseAddr := 0x1000
  biasAddr := 0x1000
  strtab := 0x1100
  symtab := 0x1200
  relplt := 0
  relpltSz := 0
  reldyn := 0
  reldynSz := 0
  relandroid := 0x1404
  relandroidSz := 4
  bucket := 0x1354
  bucketCnt := 1
  chain := 0x1358
  symoffset := 1
  bloom := 0x1350
  bloomSz := 1
  bloomShift := 5
  isUseRela := false
  isUseGnuHash := true

structure LibiFacts : Prop where
  phdrs : ePhoff (libiMemory libiDynamic) 0x1000 = 0x34 ∧
    ePhnum (libiMemory libiDynamic) 0x1000 = 2
  load : loadPhdr (libiMemory libiDynamic) 0x1000 = some ⟨1, 0, 0, 0⟩
  dynamic : dynamicPhdr (libiMemory libiDynamic) 0x1000 = some ⟨2, 0x80, 0x80, 56⟩
  init : xhElfInit (libiMemory libiDynamic) 9 0x1000 (some "libi.so") = some (.ok libi)

theorem libi_facts : LibiFacts where
  phdrs := by decide +kernel
  load := by decide +kernel
  dynamic := by decide +kernel
  init := by decide +kernel

theorem libi_inSpace : InSpace (libiMemory libiDynamic) 0x1000 where
  phdrs := by
    rw [libi_facts.phdrs.1, libi_facts.phdrs.2]
    decide
  dyns load dhdr hload hdynamic := by
    obtain rfl := Option.some.inj (libi_facts.load.symm.trans hload)
    obtain rfl := Option.some.inj (libi_facts.dynamic.symm.trans hdynamic)
    decide

theorem libi_fuel (dhdr : Phdr) (h : dynamicPhdr (libiMemory libiDynamic) 0x1000 = some dhdr) :
    (dhdr.pMemsz / 8).toNat < 9 := by
  obtain rfl := Option.some.inj (libi_facts.dynamic.symm.trans h)
  decide

theorem xhElfInit_iff_libi :
    InSpace (libiMemory libiDynamic) 0x1000 ∧
    (∀ dhdr, dynamicPhdr (libiMemory libiDynamic) 0x1000 = some dhdr →
      (dhdr.pMemsz / 8).toNat < 9) ∧
    ∃ load dhdr, Declares (libiMemory libiDynamic) 0x1000 (some "libi.so") libi load dhdr :=
  ⟨libi_inSpace, libi_fuel, (xhElfInit_iff libi_inSpace libi_fuel).mp libi_facts.init⟩

/-! ## Whatever bytes there are -/

/-- The hash table of the image is the one at `raw`. -/
def Elf.hashAt (self : Elf) (m : Bytes) (raw : Addr) : Prop :=
  self.bucketCnt = loadWord m raw ∧
    if self.isUseGnuHash then
      self.symoffset = loadWord m (raw + 4) ∧ self.bloomSz = loadWord m (raw + 8) ∧
        self.bloomShift = loadWord m (raw + 12) ∧ self.bloom = raw + 16 ∧
        self.bucket = self.bloom + 4 * self.bloomSz ∧
        self.chain = self.bucket + 4 * self.bucketCnt
    else self.bucket = raw + 8 ∧ self.chain = self.bucket + 4 * self.bucketCnt

/-- The tables found so far lie in the image. -/
structure Bounded (m : Bytes) (elf : Elf) : Prop where
  strtab : elf.strtab = 0 ∨ elf.baseAddr ≤ elf.strtab
  symtab : elf.symtab = 0 ∨ elf.baseAddr ≤ elf.symtab
  relplt : elf.relplt = 0 ∨ elf.baseAddr ≤ elf.relplt
  reldyn : elf.reldyn = 0 ∨ elf.baseAddr ≤ elf.reldyn
  relandroid : elf.relandroid = 0 ∨ elf.baseAddr ≤ elf.relandroid
  hash : elf.bucket = 0 ∨ ∃ raw, elf.baseAddr ≤ raw ∧ elf.hashAt m raw

def Elf.SamePlace (self self' : Elf) : Prop :=
  self'.pathname = self.pathname ∧ self'.baseAddr = self.baseAddr ∧ self'.biasAddr = self.biasAddr

theorem of_table {val : SizeT} {set : Addr → Elf} (h : self.table val set = some elf) :
    ∃ p, self.baseAddr ≤ p ∧ set p = elf := by
  rw [Elf.table, Option.ite_none_left_eq_some] at h
  exact ⟨_, BitVec.not_lt.mp h.1, Option.some.inj h.2⟩

theorem bounded_readDyn (h : Bounded m self) (hread : self.readDyn m e = some elf) :
    Bounded m elf ∧ self.SamePlace elf := by
  obtain ⟨hstrtab, hsymtab, hrelplt, hreldyn, hrelandroid, hhash⟩ := h
  rcases e with ⟨tag, val⟩
  cases tag with
  | strtab =>
      simp only [Elf.readDyn] at hread
      obtain ⟨p, hp, rfl⟩ := of_table hread
      exact ⟨⟨.inr hp, hsymtab, hrelplt, hreldyn, hrelandroid, hhash⟩, rfl, rfl, rfl⟩
  | symtab =>
      simp only [Elf.readDyn] at hread
      obtain ⟨p, hp, rfl⟩ := of_table hread
      exact ⟨⟨hstrtab, .inr hp, hrelplt, hreldyn, hrelandroid, hhash⟩, rfl, rfl, rfl⟩
  | jmprel =>
      simp only [Elf.readDyn] at hread
      obtain ⟨p, hp, rfl⟩ := of_table hread
      exact ⟨⟨hstrtab, hsymtab, .inr hp, hreldyn, hrelandroid, hhash⟩, rfl, rfl, rfl⟩
  | rel | rela =>
      simp only [Elf.readDyn] at hread
      obtain ⟨p, hp, rfl⟩ := of_table hread
      exact ⟨⟨hstrtab, hsymtab, hrelplt, .inr hp, hrelandroid, hhash⟩, rfl, rfl, rfl⟩
  | androidRel | androidRela =>
      simp only [Elf.readDyn] at hread
      obtain ⟨p, hp, rfl⟩ := of_table hread
      exact ⟨⟨hstrtab, hsymtab, hrelplt, hreldyn, .inr hp, hhash⟩, rfl, rfl, rfl⟩
  | hash =>
      simp only [Elf.readDyn] at hread
      split at hread
      · obtain rfl := Option.some.inj hread
        exact ⟨⟨hstrtab, hsymtab, hrelplt, hreldyn, hrelandroid, hhash⟩, rfl, rfl, rfl⟩
      · obtain ⟨raw, hraw, rfl⟩ := of_table hread
        refine ⟨⟨hstrtab, hsymtab, hrelplt, hreldyn, hrelandroid, .inr ⟨raw, hraw, ?_⟩⟩,
          rfl, rfl, rfl⟩
        simp_all [Elf.hashAt, Elf.setHash]
  | gnuHash =>
      simp only [Elf.readDyn] at hread
      obtain ⟨raw, hraw, rfl⟩ := of_table hread
      exact ⟨⟨hstrtab, hsymtab, hrelplt, hreldyn, hrelandroid,
        .inr ⟨raw, hraw, by simp [Elf.hashAt, Elf.setGnuHash]⟩⟩, rfl, rfl, rfl⟩
  | _ =>
      obtain rfl := Option.some.inj hread
      exact ⟨⟨hstrtab, hsymtab, hrelplt, hreldyn, hrelandroid, hhash⟩, rfl, rfl, rfl⟩

theorem bounded_readDynamic {stop dyn : Addr} (h : Bounded m self)
    (hread : Elf.readDynamic m stop fuel dyn self = some (some elf)) :
    Bounded m elf ∧ self.SamePlace elf := by
  induction fuel generalizing dyn self with
  | zero => simp [Elf.readDynamic] at hread
  | succ fuel ih =>
      rw [Elf.readDynamic] at hread
      split at hread
      · obtain rfl : self = elf := by simpa using hread
        exact ⟨h, rfl, rfl, rfl⟩
      · split at hread
        · exact ih h hread
        · cases hone : self.readDyn m (dynAt m dyn) with
          | none => simp [hone] at hread
          | some self' =>
              obtain ⟨hnext, hpath, hbase, hbias⟩ := bounded_readDyn h hone
              rw [hone] at hread
              obtain ⟨hlast, hpath', hbase', hbias'⟩ := ih hnext hread
              exact ⟨hlast, hpath'.trans hpath, hbase'.trans hbase, hbias'.trans hbias⟩

theorem of_checkAndroid (h : self.checkAndroid m = some elf) :
    elf = { self with relandroid := elf.relandroid, relandroidSz := elf.relandroidSz } ∧
      (elf.relandroid = 0 ∨ self.relandroid ≠ 0 ∧ elf.relandroid = self.relandroid + 4 ∧
        [m self.relandroid, m (self.relandroid + 1), m (self.relandroid + 2),
          m (self.relandroid + 3)] = [0x41, 0x50, 0x53, 0x32]) := by
  rw [Elf.checkAndroid] at h
  split at h
  · rename_i hzero
    obtain rfl := Option.some.inj h
    exact ⟨rfl, .inl hzero⟩
  · rename_i hne
    split at h
    · simp at h
    · rename_i hmagic
      obtain rfl := Option.some.inj h
      simp only [not_or, ne_eq, not_not] at hmagic
      obtain ⟨-, h₀, h₁, h₂, h₃⟩ := hmagic
      exact ⟨rfl, .inr ⟨hne, rfl, by rw [h₀, h₁, h₂, h₃]⟩⟩

theorem of_xhElfCheck {phdr : Addr} (h : self.xhElfCheck phdr = 0) :
    self.biasAddr ≠ 0 ∧ self.strtab ≠ 0 ∧ self.symtab ≠ 0 ∧ self.bucket ≠ 0 := by
  rw [Elf.xhElfCheck] at h
  split at h
  · simp at h
  · simp_all

/-- What the hook relies on in an image. -/
structure WellFormed (m : Bytes) (base : Addr) (pathname : Option String) (elf : Elf) : Prop where
  named : elf.pathname = pathname ∧ pathname ≠ none
  placed : elf.baseAddr = base ∧ base ≠ 0
  bias : elf.biasAddr ≤ base ∧ elf.biasAddr ≠ 0
  strtab : base ≤ elf.strtab
  symtab : base ≤ elf.symtab
  relplt : elf.relplt = 0 ∨ base ≤ elf.relplt
  reldyn : elf.reldyn = 0 ∨ base ≤ elf.reldyn
  relandroid : elf.relandroid = 0 ∨ ∃ p, base ≤ p ∧ elf.relandroid = p + 4 ∧
    [m p, m (p + 1), m (p + 2), m (p + 3)] = [0x41, 0x50, 0x53, 0x32]
  hash : ∃ raw, base ≤ raw ∧ elf.hashAt m raw

/-- Whatever bytes there are, an image that is accepted is well formed. -/
theorem xhElfInit_wellFormed (h : xhElfInit m fuel base pathname = some (.ok elf)) :
    WellFormed m base pathname elf := by
  rw [xhElfInit] at h
  split at h
  · simp at h
  rename_i hargs
  rw [not_or] at hargs
  split at h
  · simp at h
  rename_i load hload
  split at h
  · simp at h
  rename_i hle
  split at h
  · simp at h
  rename_i dhdr hdynamic
  obtain ⟨read, hread, hrest⟩ := Option.map_eq_some_iff.mp h
  split at hrest
  · simp at hrest
  rename_i self' handroid
  split at hrest
  · simp at hrest
  rename_i hcheck
  obtain rfl : self' = elf := by simpa using hrest
  obtain ⟨self, rfl, handroid⟩ := Option.bind_eq_some_iff.mp handroid
  have hreset : Bounded m (.reset pathname base (base - load.pVaddr)) :=
    ⟨.inl rfl, .inl rfl, .inl rfl, .inl rfl, .inl rfl, .inl rfl⟩
  obtain ⟨hbounded, hpath, hbase, hbias⟩ := bounded_readDynamic hreset hread
  obtain ⟨hsame, hmagic⟩ := of_checkAndroid handroid
  obtain ⟨hbias_ne, hstrtab, hsymtab, hbucket⟩ := of_xhElfCheck (not_not.mp hcheck)
  rw [hsame] at hbias_ne hstrtab hsymtab hbucket ⊢
  have hbase' : self.baseAddr = base := hbase
  have hbias' : self.biasAddr = base - load.pVaddr := hbias
  refine ⟨⟨hpath, hargs.2⟩, ⟨hbase, hargs.1⟩, ⟨?_, hbias_ne⟩, ?_, ?_, ?_, ?_, ?_, ?_⟩
  · rw [hbias']
    bv_omega
  · exact hbase' ▸ hbounded.strtab.resolve_left hstrtab
  · exact hbase' ▸ hbounded.symtab.resolve_left hsymtab
  · exact hbase' ▸ hbounded.relplt
  · exact hbase' ▸ hbounded.reldyn
  · refine hmagic.imp_right ?_
    rintro ⟨hne, heq, hbytes⟩
    exact ⟨_, hbase' ▸ hbounded.relandroid.resolve_left hne, heq, hbytes⟩
  · obtain ⟨raw, hraw, hhash⟩ := hbounded.hash.resolve_left hbucket
    exact ⟨raw, hbase' ▸ hraw, hhash⟩

theorem xhElfInit_wellFormed_libi :
    WellFormed (libiMemory libiDynamic) 0x1000 (some "libi.so") libi :=
  xhElfInit_wellFormed libi_facts.init

/-! ## The order of the section -/

def fields : List (List DynTag) :=
  [[.strtab], [.symtab], [.pltrel], [.jmprel], [.pltrelsz], [.rel, .rela], [.relsz, .relasz],
    [.androidRel, .androidRela], [.androidRelsz, .androidRelasz], [.hash], [.gnuHash]]

def OncePerField (es : List Dyn) : Prop :=
  ∀ tags ∈ fields, (es.filter (·.tag ∈ tags)).length ≤ 1

/-- The tags whose tables `xh_elf_init` looks into. -/
def DynTag.isRead : DynTag → Bool
  | hash | gnuHash | androidRel | androidRela => true
  | _ => false

variable {m' : Bytes} {es' : List Dyn}

theorem lastVal_eq (tags : List DynTag) (es : List Dyn) :
    lastVal tags es = ((es.filter (·.tag ∈ tags)).getLast?).map (·.val) := by
  rw [lastVal, ← List.head?_filter, List.filter_reverse, List.head?_reverse]

theorem lastVal_perm {tags : List DynTag} (h : es.Perm es')
    (hone : (es.filter (·.tag ∈ tags)).length ≤ 1) : lastVal tags es = lastVal tags es' := by
  have hperm := h.filter (·.tag ∈ tags)
  rw [lastVal_eq, lastVal_eq]
  cases hes : es.filter (·.tag ∈ tags) with
  | nil =>
      rw [hes] at hperm
      rw [List.nil_perm.mp hperm]
  | cons d ds =>
      obtain rfl : ds = [] := by
        rw [hes, List.length_cons] at hone
        exact List.eq_nil_of_length_eq_zero (by omega)
      rw [hes] at hperm
      rw [List.singleton_perm.mp hperm]

theorem exists_of_lastVal {tags : List DynTag} {v : SizeT} (h : lastVal tags es = some v) :
    ∃ e ∈ es, e.tag ∈ tags ∧ e.val = v := by
  obtain ⟨e, he, rfl⟩ := Option.map_eq_some_iff.mp h
  exact ⟨e, List.mem_reverse.mp (List.mem_of_find?_eq_some he), by simpa using List.find?_some he,
    rfl⟩

theorem load_of_eqOn {p k : Addr} {n : ℕ} (h : Set.EqOn m m' (span p n)) (hk : k.toNat + 4 ≤ n) :
    loadWord m (p + k) = loadWord m' (p + k) := by
  refine load_congr (h.mono fun b hb => ?_)
  rw [mem_span] at hb ⊢
  bv_omega

/-- The tables that are looked into are the same in both memories. -/
def SameTables (m m' : Bytes) (bias_addr : Addr) (es : List Dyn) : Prop :=
  ∀ e ∈ es, e.tag.isRead = true → Set.EqOn m m' (span (bias_addr + e.val) 16)

theorem declared_congr (h : SameTables m m' start.biasAddr es) :
    start.declared m es = start.declared m' es := by
  have hwords : ∀ e ∈ es, e.tag.isRead = true → ∀ k : Addr, k.toNat + 4 ≤ 16 →
      loadWord m (start.biasAddr + e.val + k) = loadWord m' (start.biasAddr + e.val + k) :=
    fun e he hr k hk => load_of_eqOn (h e he hr) hk
  rw [Elf.declared, Elf.declared]
  split
  · rename_i v _ hv
    obtain ⟨e, he, htag, rfl⟩ := exists_of_lastVal hv
    have hw := hwords e he (by simp_all [DynTag.isRead])
    have h₀ : loadWord m (start.biasAddr + e.val) = loadWord m' (start.biasAddr + e.val) := by
      simpa using hw 0 (by decide)
    simp only [Elf.setGnuHash, h₀, hw 4 (by decide), hw 8 (by decide), hw 12 (by decide)]
  · rename_i v _ hv
    obtain ⟨e, he, htag, rfl⟩ := exists_of_lastVal hv
    have h₀ : loadWord m (start.biasAddr + e.val) = loadWord m' (start.biasAddr + e.val) := by
      simpa using hwords e he (by simp_all [DynTag.isRead]) 0 (by decide)
    simp only [Elf.setHash, h₀]
  · rfl

theorem declared_perm (h : es.Perm es') (hone : OncePerField es) :
    start.declared m es = start.declared m es' := by
  have hlast : ∀ tags ∈ fields, lastVal tags es = lastVal tags es' :=
    fun tags htags => lastVal_perm h (hone tags htags)
  have htables : start.declaredTables es = start.declaredTables es' := by
    simp only [fields, List.forall_mem_cons] at hlast
    simp only [Elf.declaredTables, lastPtr, hlast]
  rw [Elf.declared, Elf.declared, ← hlast [.gnuHash] (by simp [fields]),
    ← hlast [.hash] (by simp [fields]), ← htables]

/-- Where old hash tables lie in the image the order plays no role for the checks. -/
theorem allInImage_iff
    (hhash : ∀ e ∈ es, e.tag = .hash → start.baseAddr ≤ start.biasAddr + e.val) :
    AllInImage start es ↔
      ∀ e ∈ es, e.tag.isPointer = true → start.baseAddr ≤ start.biasAddr + e.val := by
  constructor
  · intro h e he hptr
    by_cases htag : e.tag = .hash
    · exact hhash e he htag
    · obtain ⟨n, hn⟩ := List.mem_iff_getElem?.mp he
      exact h n e hn hptr fun h => absurd h htag
  · intro h n e hn hptr _
    exact h e (List.mem_of_getElem? hn) hptr

theorem checkAndroid_congr
    (h : elf.relandroid = 0 ∨ Set.EqOn m m' (span elf.relandroid 16)) :
    elf.checkAndroid m = elf.checkAndroid m' := by
  rcases h with h | h
  · rw [Elf.checkAndroid, Elf.checkAndroid, if_pos h, if_pos h]
  · have h₀ : m elf.relandroid = m' elf.relandroid := h (by rw [mem_span]; bv_omega)
    have h₁ : m (elf.relandroid + 1) = m' (elf.relandroid + 1) := h (by rw [mem_span]; bv_omega)
    have h₂ : m (elf.relandroid + 2) = m' (elf.relandroid + 2) := h (by rw [mem_span]; bv_omega)
    have h₃ : m (elf.relandroid + 3) = m' (elf.relandroid + 3) := h (by rw [mem_span]; bv_omega)
    rw [Elf.checkAndroid, Elf.checkAndroid, h₀, h₁, h₂, h₃]

theorem declared_relandroid :
    (start.declared m es).relandroid =
      lastPtr start.biasAddr [.androidRel, .androidRela] es start.relandroid := by
  unfold Elf.declared
  split <;> rfl

theorem checkAndroid_declared (hstart : start.relandroid = 0)
    (h : SameTables m m' start.biasAddr es) :
    (start.declared m es).checkAndroid m = (start.declared m es).checkAndroid m' := by
  apply checkAndroid_congr
  rw [declared_relandroid, lastPtr]
  cases hv : lastVal [.androidRel, .androidRela] es with
  | none => exact .inl hstart
  | some v =>
      obtain ⟨e, he, htag, rfl⟩ := exists_of_lastVal hv
      refine .inr (h e he ?_)
      rcases List.mem_pair.mp htag with htag | htag <;> rw [htag] <;> rfl

/-- Two memories in which the image at `base` has the same entries in another order. Each field is
given once, and an old hash table lies in the image also where there is a GNU one. -/
structure Reordered (m m' : Bytes) (base : Addr) : Prop where
  phoff : ePhoff m base = ePhoff m' base
  phdrs : phdrs m base = phdrs m' base
  perm : ∀ load dhdr, loadPhdr m base = some load → dynamicPhdr m base = some dhdr →
    (dyns m (base - load.pVaddr) dhdr).Perm (dyns m' (base - load.pVaddr) dhdr)
  once : ∀ load dhdr, loadPhdr m base = some load → dynamicPhdr m base = some dhdr →
    OncePerField (dyns m (base - load.pVaddr) dhdr)
  hash : ∀ load dhdr, loadPhdr m base = some load → dynamicPhdr m base = some dhdr →
    ∀ e ∈ dyns m (base - load.pVaddr) dhdr, e.tag = .hash → base ≤ base - load.pVaddr + e.val
  read : ∀ load dhdr, loadPhdr m base = some load → dynamicPhdr m base = some dhdr →
    SameTables m m' (base - load.pVaddr) (dyns m (base - load.pVaddr) dhdr)

theorem declares_reordered (h : Reordered m m' base) {load dhdr : Phdr} :
    Declares m base pathname elf load dhdr ↔ Declares m' base pathname elf load dhdr := by
  have hload : loadPhdr m base = loadPhdr m' base := by rw [loadPhdr, loadPhdr, h.phdrs]
  have hdynamic : dynamicPhdr m base = dynamicPhdr m' base := by
    rw [dynamicPhdr, dynamicPhdr, h.phdrs]
  by_cases hl : loadPhdr m base = some load
  · by_cases hd : dynamicPhdr m base = some dhdr
    · have hperm := h.perm load dhdr hl hd
      have hhash := h.hash load dhdr hl hd
      have hread : SameTables m m' (Elf.reset pathname base (base - load.pVaddr)).biasAddr
          (dyns m (base - load.pVaddr) dhdr) := h.read load dhdr hl hd
      have hdeclared : (Elf.reset pathname base (base - load.pVaddr)).declared m
            (dyns m (base - load.pVaddr) dhdr) =
          (Elf.reset pathname base (base - load.pVaddr)).declared m'
            (dyns m' (base - load.pVaddr) dhdr) :=
        (declared_congr hread).trans (declared_perm hperm (h.once load dhdr hl hd))
      have hinImage : AllInImage (.reset pathname base (base - load.pVaddr))
            (dyns m (base - load.pVaddr) dhdr) ↔
          AllInImage (.reset pathname base (base - load.pVaddr))
            (dyns m' (base - load.pVaddr) dhdr) := by
        rw [allInImage_iff hhash, allInImage_iff fun e he => hhash e (hperm.mem_iff.mpr he)]
        simp only [hperm.mem_iff]
      have handroid : ((Elf.reset pathname base (base - load.pVaddr)).declared m
            (dyns m (base - load.pVaddr) dhdr)).checkAndroid m =
          ((Elf.reset pathname base (base - load.pVaddr)).declared m
            (dyns m (base - load.pVaddr) dhdr)).checkAndroid m' :=
        checkAndroid_declared rfl hread
      constructor
      · intro hm
        exact ⟨hm.base_ne, hm.named, hload ▸ hl, hdynamic ▸ hd, hm.load_le, hinImage.mp hm.inImage,
          by rw [← hdeclared, ← handroid, hm.android], by rw [← h.phoff, hm.check]⟩
      · intro hm
        exact ⟨hm.base_ne, hm.named, hl, hd, hm.load_le, hinImage.mpr hm.inImage,
          by rw [handroid, hdeclared, hm.android], by rw [h.phoff, hm.check]⟩
    · exact iff_of_false (fun hm => hd hm.dynamic_eq) fun hm => hd (hdynamic ▸ hm.dynamic_eq)
  · exact iff_of_false (fun hm => hl hm.load_eq) fun hm => hl (hload ▸ hm.load_eq)

theorem length_recordsAt {ρ : Type*} (read : Addr → ρ) (size n : ℕ) (p : Addr) :
    (recordsAt read size n p).length = n := by
  induction n generalizing p with
  | zero => rfl
  | succ n ih => rw [recordsAt, List.length_cons, ih]

theorem InSpace.congr (hspace : InSpace m base) (hphoff : ePhoff m base = ePhoff m' base)
    (hphdrs : Xhook.phdrs m base = Xhook.phdrs m' base) : InSpace m' base where
  phdrs := by
    have hlength := congrArg List.length hphdrs
    simp only [Xhook.phdrs, length_recordsAt] at hlength
    rw [← hphoff, ← hlength]
    exact hspace.phdrs
  dyns load dhdr hload hdynamic := by
    rw [loadPhdr, ← hphdrs] at hload
    rw [dynamicPhdr, ← hphdrs] at hdynamic
    exact hspace.dyns load dhdr hload hdynamic

/-- The order in which the linker writes the dynamic section does not matter. -/
theorem xhElfInit_reordered (h : Reordered m m' base) (hspace : InSpace m base)
    (hfuel : ∀ dhdr, dynamicPhdr m base = some dhdr → (dhdr.pMemsz / 8).toNat < fuel) :
    xhElfInit m fuel base pathname = some (.ok elf) ↔
      xhElfInit m' fuel base pathname = some (.ok elf) := by
  have hspace' : InSpace m' base := hspace.congr h.phoff h.phdrs
  have hfuel' : ∀ dhdr, dynamicPhdr m' base = some dhdr → (dhdr.pMemsz / 8).toNat < fuel := by
    intro dhdr hd
    rw [dynamicPhdr, ← h.phdrs] at hd
    exact hfuel dhdr hd
  constructor
  · intro hm
    obtain ⟨load, dhdr, hdeclares⟩ := declares_of_init hspace hfuel hm
    exact init_of_declares hspace' hfuel' ((declares_reordered h).mp hdeclares)
  · intro hm
    obtain ⟨load, dhdr, hdeclares⟩ := declares_of_init hspace' hfuel' hm
    exact init_of_declares hspace hfuel ((declares_reordered h).mpr hdeclares)

/-! ### The same image with the packed table and the GNU hash table first -/

theorem eqOn_memoryOf_cons {p : Addr} {bs : List (BitVec 8)}
    {blocks : List (Addr × List (BitVec 8))} :
    Set.EqOn (memoryOf ((p, bs) :: blocks)) (memoryOf blocks) (span p bs.length)ᶜ := by
  intro b hb
  have hb' : ¬(b - p).toNat < bs.length := hb
  rw [memoryOf, memoryOf, List.find?_cons]
  simp only [hb', decide_false]

def libiReordered : List (BitVec 8) := [
  0x10, 0, 0, 0x60, 0x08, 0, 0, 0,
  0x0f, 0, 0, 0x60, 0x00, 0x04, 0, 0,
  0xf5, 0xfe, 0xff, 0x6f, 0x40, 0x03, 0, 0,
  4, 0, 0, 0, 0x00, 0x03, 0, 0,
  6, 0, 0, 0, 0x00, 0x02, 0, 0,
  5, 0, 0, 0, 0x00, 0x01, 0, 0,
  0, 0, 0, 0, 0, 0, 0, 0]

theorem libi_eqOn {p : Addr} (h : 16 ≤ (0x1080 - p).toNat ∧ 56 ≤ (p - 0x1080).toNat) :
    Set.EqOn (libiMemory libiDynamic) (libiMemory libiReordered) (span p 16) := by
  have hsub : span p 16 ⊆ (span 0x1080 56)ᶜ :=
    Set.subset_compl_iff_disjoint_left.mpr (disjoint_span h.2 h.1).symm
  unfold libiMemory
  exact (eqOn_memoryOf_cons.mono hsub).trans (eqOn_memoryOf_cons.mono hsub).symm

theorem libi_reordered : Reordered (libiMemory libiDynamic) (libiMemory libiReordered) 0x1000 where
  phoff := by decide +kernel
  phdrs := by decide +kernel
  perm load dhdr hload hdynamic := by
    obtain rfl := Option.some.inj (libi_facts.load.symm.trans hload)
    obtain rfl := Option.some.inj (libi_facts.dynamic.symm.trans hdynamic)
    decide +kernel
  once load dhdr hload hdynamic := by
    obtain rfl := Option.some.inj (libi_facts.load.symm.trans hload)
    obtain rfl := Option.some.inj (libi_facts.dynamic.symm.trans hdynamic)
    unfold OncePerField
    decide +kernel
  hash load dhdr hload hdynamic := by
    obtain rfl := Option.some.inj (libi_facts.load.symm.trans hload)
    obtain rfl := Option.some.inj (libi_facts.dynamic.symm.trans hdynamic)
    decide +kernel
  read load dhdr hload hdynamic := by
    obtain rfl := Option.some.inj (libi_facts.load.symm.trans hload)
    obtain rfl := Option.some.inj (libi_facts.dynamic.symm.trans hdynamic)
    intro e he hread
    apply libi_eqOn
    revert e
    decide +kernel

theorem xhElfInit_reordered_libi :
    xhElfInit (libiMemory libiDynamic) 9 0x1000 (some "libi.so") = some (.ok libi) ↔
      xhElfInit (libiMemory libiReordered) 9 0x1000 (some "libi.so") = some (.ok libi) :=
  xhElfInit_reordered libi_reordered libi_inSpace libi_fuel

end Patrons.Xhook
