import Mathlib.Data.List.Find
import Patrons.Verification.Hook.ElfInit
import Patrons.Verification.Hook.Lookup

/-! # What is read of an image

The bytes that `xh_elf_init` and the symbol lookup read. Whatever is written elsewhere, both give
the same. -/

namespace Patrons.Xhook

open Bytes

variable {m m' : Bytes} {elf : Elf} {names : List (List (BitVec 8))} {symbol : String}

/-! ## Symbol lookup -/

inductive LookupByte (elf : Elf) (m : Bytes) (names : List (List (BitVec 8))) (b : Addr) : Prop
  where
  | symbol {i : SizeT} (hi : i.toNat < names.length) (hb : b ∈ word (elf.symtab + 16 * i))
  | name {i : SizeT} {name} (hname : names[i.toNat]? = some name)
      (hb : b ∈ span (elf.strtab + loadWord m (elf.symtab + 16 * i)) (name ++ [0]).length)
  | bucket {k : SizeT} (hk : k < elf.bucketCnt) (hb : b ∈ word (elf.bucket + 4 * k))
  | chain (hkind : elf.isUseGnuHash = false) {i : SizeT} (hi : i.toNat < names.length)
      (hb : b ∈ word (elf.chain + 4 * i))
  | gnuChain (hkind : elf.isUseGnuHash = true) {i : SizeT} (hle : elf.symoffset ≤ i)
      (hi : i.toNat < names.length) (hb : b ∈ word (elf.chain + 4 * (i - elf.symoffset)))
  | bloom (hkind : elf.isUseGnuHash = true) {k : SizeT} (hk : k < elf.bloomSz)
      (hb : b ∈ word (elf.bloom + 4 * k))

/-- The two memories agree on what a lookup reads. -/
abbrev SameLookup (elf : Elf) (m m' : Bytes) (names : List (List (BitVec 8))) : Prop :=
  Set.EqOn m m' {b | LookupByte elf m names b}

theorem Names.congr (hnames : Names elf m names) (h : SameLookup elf m m' names)
    (hlength : ∀ name ∈ names, name.length + 1 < 2 ^ 32) : Names elf m' names where
  count := hnames.count
  first := hnames.first
  ended := hnames.ended
  stored i name hname := by
    have hword : loadWord m (elf.symtab + 16 * i) = loadWord m' (elf.symtab + 16 * i) :=
      load_congr (h.mono fun _ hb => .symbol (lt_of_name hname) hb)
    rw [← hword]
    refine stored_congr ?_ (h.mono fun _ hb => .name hname hb) (hnames.stored i name hname)
    rw [List.length_append, List.length_singleton]
    exact hlength name (List.mem_of_getElem? hname)

section

variable (hnames : Names elf m names) (h : SameLookup elf m m' names)
  (hlength : ∀ name ∈ names, name.length + 1 < 2 ^ 32)

include hnames h hlength

end

/-! ## The headers -/

variable {base : Addr} {pathname : Option String} {fuel : ℕ}

theorem recordsAt_congr {ρ : Type*} {read read' : Addr → ρ} {size n : ℕ} {p : Addr}
    (hread : ∀ q, Set.EqOn m m' (span q size) → read q = read' q)
    (h : Set.EqOn m m' (span p (size * n))) (hend : p.toNat + size * n < 2 ^ 32) :
    recordsAt read size n p = recordsAt read' size n p := by
  induction n generalizing p with
  | zero => rfl
  | succ n ih =>
      rw [Nat.mul_succ] at h hend
      have hhead : Set.EqOn m m' (span p size) := h.mono fun b hb => by
        rw [mem_span] at hb ⊢
        omega
      have htail : Set.EqOn m m' (span (p + BitVec.ofNat 32 size) (size * n)) :=
        h.mono fun b hb => by
          rw [mem_span] at hb ⊢
          generalize size * n = k at hb hend ⊢
          bv_omega
      rw [recordsAt, recordsAt, hread p hhead, ih htail (by
        generalize size * n = k at hend ⊢
        bv_omega)]

theorem phdrAt_congr {p : Addr} (h : Set.EqOn m m' (span p 32)) : phdrAt m p = phdrAt m' p := by
  have hword : ∀ k : Addr, k.toNat + 4 ≤ 32 → loadWord m (p + k) = loadWord m' (p + k) :=
    fun k hk => load_of_eqOn h hk
  have h₀ : loadWord m p = loadWord m' p := by simpa using hword 0 (by decide)
  rw [phdrAt, phdrAt, h₀, hword 4 (by decide), hword 8 (by decide), hword 20 (by decide)]

theorem dynAt_congr {p : Addr} (h : Set.EqOn m m' (span p 8)) : dynAt m p = dynAt m' p := by
  have h₀ : loadWord m p = loadWord m' p := by simpa using load_of_eqOn (k := 0) h (by decide)
  have h₄ : loadWord m (p + 4) = loadWord m' (p + 4) := load_of_eqOn h (by decide)
  rw [dynAt, dynAt, h₀, h₄]

/-! ## Initialisation -/

inductive InitByte (m : Bytes) (base b : Addr) : Prop where
  | header (hb : b ∈ span base 52)
  | phdr (hb : b ∈ span (base + ePhoff m base) (32 * (ePhnum m base).toNat))
  | dynamic {load dhdr : Phdr} (hload : loadPhdr m base = some load)
      (hdynamic : dynamicPhdr m base = some dhdr)
      (hb : b ∈ span (base - load.pVaddr + dhdr.pVaddr) (8 * (dhdr.pMemsz / 8).toNat))
  | table {load dhdr : Phdr} (hload : loadPhdr m base = some load)
      (hdynamic : dynamicPhdr m base = some dhdr) {e : Dyn}
      (he : e ∈ dyns m (base - load.pVaddr) dhdr) (hread : e.tag.isRead = true)
      (hb : b ∈ span (base - load.pVaddr + e.val) 16)

/-- The two memories agree on what `xh_elf_init` reads. -/
abbrev SameInit (m m' : Bytes) (base : Addr) : Prop := Set.EqOn m m' {b | InitByte m base b}

theorem SameInit.phoff (h : SameInit m m' base) : ePhoff m base = ePhoff m' base :=
  load_of_eqOn (h.mono fun _ hb => .header hb) (by decide)

theorem SameInit.phdrs (h : SameInit m m' base) (hspace : InSpace m base) :
    phdrs m base = phdrs m' base := by
  have hheader : Set.EqOn m m' (span base 52) := h.mono fun _ hb => .header hb
  have h₀ : m (base + 44) = m' (base + 44) := hheader (by rw [mem_span]; bv_omega)
  have h₁ : m (base + 44 + 1) = m' (base + 44 + 1) := hheader (by rw [mem_span]; bv_omega)
  have hphnum : ePhnum m base = ePhnum m' base := by
    rw [ePhnum, ePhnum, loadHalf, loadHalf, h₀, h₁]
  rw [Xhook.phdrs, Xhook.phdrs, ← h.phoff, ← hphnum]
  exact recordsAt_congr (fun _ => phdrAt_congr) (h.mono fun _ hb => .phdr hb) hspace.phdrs

theorem SameInit.dyns (h : SameInit m m' base) (hspace : InSpace m base) {load dhdr : Phdr}
    (hload : loadPhdr m base = some load) (hdynamic : dynamicPhdr m base = some dhdr) :
    dyns m (base - load.pVaddr) dhdr = dyns m' (base - load.pVaddr) dhdr := by
  have hend := hspace.dyns load dhdr hload hdynamic
  rw [Xhook.dyns, Xhook.dyns]
  exact congrArg beforeNull (recordsAt_congr (fun _ => dynAt_congr)
    (h.mono fun _ hb => .dynamic hload hdynamic hb) (by omega))

end Patrons.Xhook
