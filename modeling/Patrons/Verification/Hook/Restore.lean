import Patrons.Verification.Hook.History
import Patrons.Verification.Hook.Protect

/-! # Page protections are put back

Around a store into a slot the page is made writable, and then gets its old protection again.
The kernel prints its pages in `/proc/self/maps` and changes them with `mprotect`; it may refuse
both. -/

namespace Patrons.Xhook

open Paging Loop

/-- What is known of a mapped page besides its protection. -/
structure Mapping where
  shared : Bool
  name : List Char

def Vma.mapping (v : Vma) : Mapping := ⟨v.shared, v.name⟩

/-- The mappings are those of the pages. -/
structure Lists (pad : Vma → ℕ) (t : Table Mapping) (vs : List Vma) : Prop where
  printable : ∀ v ∈ vs, v.Printable (pad v)
  ascending : Intervals.Ascending Vma.interval vs
  aligned : ∀ v ∈ vs, 4 ∣ v.stop.toNat
  mapped : ∀ a page, t (pageOf a) = some page → ∃ v ∈ vs, v.start ≤ a ∧ a < v.stop
  shows : ∀ v ∈ vs, ∀ a, v.start ≤ a → a < v.stop →
    ∃ page, t (pageOf a) = some page ∧ page.prot = v.prot ∧ page.attr = v.mapping

def mapsText (pad : Vma → ℕ) (vs : List Vma) : List Char :=
  Text.unlines (vs.map fun v => v.text (pad v))

/-- The kernel, with states `κ`. Whether `/proc/self/maps` opens and whether `mprotect` succeeds
is up to the state. `perm` is what the buffer of `xh_util_get_mem_protect` holds, `refused` the
pages for which a call of `mprotect` has failed so far. -/
structure Kernel (κ : Type*) where
  table : κ → Table Mapping
  refused : κ → Set (BitVec 20)
  readMaps : κ → Option (List Char) × κ
  mprotect : (start : Addr) → (len prot : SizeT) → κ → Option ℤ × κ
  perm : κ → List Char
  pad : Vma → ℕ
  lists : ∀ c text, (readMaps c).1 = some text →
    ∃ vs, Lists pad (table c) vs ∧ text = mapsText pad vs
  reads : ∀ c, table (readMaps c).2 = table c
  mono : ∀ c, refused c ⊆ refused (readMaps c).2
  protects : Protects table refused mprotect

variable {κ : Type*}

def Kernel.pages (k : Kernel κ) : Pages κ where
  getAddrProtect addr pathname c :=
    let r := k.readMaps c
    (xhUtilGetAddrProtect r.1 (k.perm c) addr (pathname.map String.toList), r.2)
  setAddrProtect := xhUtilSetAddrProtect k.mprotect

/-- Every page has its protection, or the kernel refused to put it back and it can be read and
written. -/
def Kernel.Kept (k : Kernel κ) : κ → κ → Prop := Paging.Kept k.table k.refused .readWrite

/-! ## A word of one page -/

theorem pageOf_toNat (a : Addr) : (pageOf a).toNat = a.toNat / 4096 := by
  rw [pageOf, BitVec.extractLsb'_toNat, Nat.shiftRight_eq_div_pow]
  omega

variable {a : Addr}

section Kernel

variable (k : Kernel κ) (pathname : Option String) {c : κ} {prot : SizeT}

variable (elf : Elf) (new_func old_func : Addr)

end Kernel

/-! ## Whole runs -/

def Maps.slots {π : Type*} (maps : Maps π) : Set (Elf × Addr) :=
  {p | ∃ line ∈ maps.lines, maps.elfOf line.mapInfo = some p.1 ∧
    ∃ symidx, p.2 ∈ (maps.image line.baseAddr).relocs.slots p.1 symidx}

section Runs

variable {maps : Maps κ} {k : Kernel κ}

end Runs

/-! ## Pages that can be made writable -/

/-- Pages on which everything is allowed. -/
def freePages : Pages Unit where
  getAddrProtect _ _ _ := ((0, 3), ())
  setAddrProtect _ _ _ := (0, ())

/-- The same process on such pages. -/
def Maps.free {π : Type*} (maps : Maps π) : Maps Unit where
  lines := maps.lines
  image := maps.image
  regexec := maps.regexec
  allocates := maps.allocates
  pages := freePages

def RefreshCalls.free {π : Type*} (calls : RefreshCalls π) : RefreshCalls Unit where
  opened := calls.opened
  allocates := calls.allocates
  pages := freePages

def HookEvent.free {π : Type*} : HookEvent π → HookEvent Unit
  | .init sync fix calls =>
    .init sync fix ⟨calls.toRefreshCalls.free, calls.registers, calls.handled, calls.created⟩
  | .refreshThread calls => .refreshThread calls.free

def Vm.free {π : Type*} (s : Vm π) : Vm Unit := ⟨s.mem, ()⟩

def Maps.Scan.free {π : Type*} (scan : Maps.Scan π) : Maps.Scan Unit :=
  ⟨scan.old, scan.refreshed, scan.vm.free⟩

def Hooks.free {π : Type*} (s : Hooks π) : Hooks Unit := ⟨s.core, s.vm.free⟩

section OnPages

variable {k : Kernel κ} {t : Table Mapping}

variable {maps : Maps κ}

end OnPages

/-! ### A kernel with two pages -/

/-- The protections of the first pages of `libdl.so` and `libart.so`, how often `mprotect` has been
called, and for which pages it has failed. -/
structure TwoPages where
  dl : Prot
  art : Prot
  calls : ℕ
  refused : List (BitVec 20)

namespace TwoPages

variable (c : TwoPages)

def dlVma : Vma :=
  ⟨0xa0000000, 0xa0001000, c.dl.read, c.dl.write, c.dl.exec, false, 0, 0xfd, 0, 1283,
    "/system/lib/libdl.so".toList⟩

def artVma : Vma :=
  ⟨0xb0000000, 0xb0001000, c.art.read, c.art.write, c.art.exec, false, 0, 0xfd, 0, 1284,
    "/system/lib/libart.so".toList⟩

def table : Table Mapping := fun p =>
  if p = 0xa0000 then some ⟨c.dl, c.dlVma.mapping⟩
  else if p = 0xb0000 then some ⟨c.art, c.artVma.mapping⟩ else none

def refuse (start : Addr) (errno : ℤ) : Option ℤ × TwoPages :=
  (some errno, { c with calls := c.calls + 1, refused := pageOf start :: c.refused })

/-- `grants` says which calls of `mprotect` are granted, if they are for a page that is mapped. -/
def mprotect (grants : ℕ → Bool) (start : Addr) (len prot : SizeT) : Option ℤ × TwoPages :=
  if !grants c.calls then c.refuse start 13
  else if len ≠ 4096 then c.refuse start 12
  else if start = 0xa0000000 then (none, { c with calls := c.calls + 1, dl := Prot.ofBits prot })
  else if start = 0xb0000000 then (none, { c with calls := c.calls + 1, art := Prot.ofBits prot })
  else c.refuse start 12

theorem lists : Lists (fun _ => 10) c.table [c.dlVma, c.artVma] where
  printable := by
    have hlength : ∀ v ∈ [c.dlVma, c.artVma], (v.text 10).length + 1 ≤ 511 := by
      simp [dlVma, artVma, Vma.text, Scan.numeral, Vma.perms, Nat.toDigits, Nat.toDigitsCore]
    have hnumbers : ∀ v ∈ [c.dlVma, c.artVma],
        v.offset < 2 ^ 64 ∧ v.major < 2 ^ 64 ∧ v.minor < 2 ^ 64 ∧ v.inode < 2 ^ 64 := by
      simp [dlVma, artVma]
    have hname : ∀ v ∈ [c.dlVma, c.artVma], ('\n' ∉ v.name ∧ nul ∉ v.name) ∧
        ∀ d ∈ v.name.head?, Scan.isSpace d = false := by
      simp [dlVma, artVma, nul, Scan.isSpace]
    intro v hv
    obtain ⟨hoffset, hmajor, hminor, hinode⟩ := hnumbers v hv
    obtain ⟨hplain, hblank⟩ := hname v hv
    exact ⟨hoffset, hmajor, hminor, hinode, hplain, hblank, by decide, hlength v hv⟩
  ascending := ⟨by simp [dlVma, artVma, Vma.interval], by simp [dlVma, artVma, Vma.interval]⟩
  aligned := by simp [dlVma, artVma]
  mapped a page h := by
    rw [table] at h
    split at h
    · rename_i hpage
      have hnat := pageOf_toNat a
      rw [hpage] at hnat
      refine ⟨c.dlVma, by simp, ?_, ?_⟩ <;> simp only [dlVma] <;> bv_omega
    · split at h
      · rename_i hpage
        have hnat := pageOf_toNat a
        rw [hpage] at hnat
        refine ⟨c.artVma, by simp, ?_, ?_⟩ <;> simp only [artVma] <;> bv_omega
      · simp at h
  shows := by
    intro v hv a hstart hstop
    have hnat := pageOf_toNat a
    rcases List.mem_cons.mp hv with rfl | hv
    · have hpage : pageOf a = 0xa0000 := by
        simp only [dlVma] at hstart hstop
        bv_omega
      exact ⟨⟨c.dl, c.dlVma.mapping⟩, by simp [table, hpage], rfl, rfl⟩
    · obtain rfl := List.mem_singleton.mp hv
      have hpage : pageOf a = 0xb0000 := by
        simp only [artVma] at hstart hstop
        bv_omega
      exact ⟨⟨c.art, c.artVma.mapping⟩, by simp [table, hpage], rfl, rfl⟩

/-- What a call can do to an aligned page. -/
theorem mprotect_cases (grants : ℕ → Bool) (start : Addr) (prot : Prot) :
    (∃ errno, c.mprotect grants start 4096 prot.bits = c.refuse start errno) ∨
    (start = 0xa0000000 ∧
      c.mprotect grants start 4096 prot.bits =
        (none, { c with calls := c.calls + 1, dl := prot })) ∨
    (start = 0xb0000000 ∧
      c.mprotect grants start 4096 prot.bits =
        (none, { c with calls := c.calls + 1, art := prot })) := by
  simp only [mprotect, ne_eq, not_true_eq_false, ↓reduceIte, Prot.ofBits_bits]
  split
  · exact .inl ⟨_, rfl⟩
  · split
    · exact .inr (.inl ⟨‹_›, rfl⟩)
    · split
      · exact .inr (.inr ⟨‹_›, rfl⟩)
      · exact .inl ⟨_, rfl⟩

theorem protects (grants : ℕ → Bool) :
    Protects table (fun c => {p | p ∈ c.refused}) fun start len prot c =>
      c.mprotect grants start len prot where
  mono start len prot c p hp := by
    have hp : p ∈ c.refused := hp
    have hcons : p ∈ pageOf start :: c.refused := List.mem_cons_of_mem _ hp
    change p ∈ (c.mprotect grants start len prot).2.refused
    rw [mprotect]
    split_ifs <;> assumption
  success start prot c _ hok := by
    rcases c.mprotect_cases grants start prot with ⟨errno, heq⟩ | ⟨rfl, heq⟩ | ⟨rfl, heq⟩
    · rw [heq] at hok
      simp [refuse] at hok
    · refine ⟨⟨c.dl, c.dlVma.mapping⟩, rfl, ?_⟩
      have hpage : pageOf 0xa0000000 = 0xa0000 := rfl
      rw [heq]
      funext p
      simp only [table, Table.protect, Function.update_apply, hpage]
      split <;> rfl
    · refine ⟨⟨c.art, c.artVma.mapping⟩, rfl, ?_⟩
      have hpage : pageOf 0xb0000000 = 0xb0000 := rfl
      rw [heq]
      funext p
      simp only [table, Table.protect, Function.update_apply, hpage]
      by_cases hp : p = 0xb0000
      · subst hp
        rfl
      · rw [if_neg hp, if_neg hp, if_neg hp]
        rfl
  failure start prot c _ hfail := by
    rcases c.mprotect_cases grants start prot with ⟨errno, heq⟩ | ⟨rfl, heq⟩ | ⟨rfl, heq⟩
    · rw [heq]
      exact ⟨rfl, List.mem_cons_self⟩
    · exact absurd (by rw [heq]) hfail
    · exact absurd (by rw [heq]) hfail

def kernel (grants : ℕ → Bool) : Kernel TwoPages where
  table := table
  refused c := {p | p ∈ c.refused}
  readMaps c := (some (mapsText (fun _ => 10) [c.dlVma, c.artVma]), c)
  mprotect start len prot c := c.mprotect grants start len prot
  perm _ := []
  pad _ := 10
  lists c _ h := ⟨_, c.lists, (Option.some.inj h).symm⟩
  reads _ := rfl
  mono _ _ h := h
  protects := protects grants

end TwoPages

end Patrons.Xhook
