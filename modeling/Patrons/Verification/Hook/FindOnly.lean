import Patrons.Verification.Hook.Reach
import Patrons.Verification.Hook.Tables

/-! # Finding a symbol without hooking it

With `NULL` for the new function a hook only reads the slots. It returns what the real hook
returns, and leaves the same value in `*old_func`. -/

namespace Patrons.Xhook

open Bytes Loop

/-- The memory after `*old_func` received the value `v`, if any. -/
def saved (old_func : Addr) (v : Option SizeT) (m : Bytes) : Bytes :=
  match v with
  | none => m
  | some v => saveOld old_func v m

def slotBytes (slots : List Addr) : Set Addr := {b | ∃ a ∈ slots, b ∈ word a}

variable {π : Type*} {pages : Pages π} {elf : Elf} {new_func old_func : Addr} {slots : List Addr}

theorem saveOld_saveOld (u v : SizeT) (m : Bytes) :
    saveOld old_func v (saveOld old_func u m) = saveOld old_func v m := by
  unfold saveOld
  split
  · exact store_store m old_func u v
  · rfl

theorem load_saveOld {a v : Addr} {m : Bytes} (h : old_func ≠ 0 → Apart old_func a) :
    loadWord (saveOld old_func v m) a = loadWord m a :=
  load_congr (eqOn_saveOld fun hne => (h hne).disjoint)

theorem eqOn_saveOld_saveOld {m m' : Bytes} {v : SizeT} {S : Set Addr} (h : Set.EqOn m m' S) :
    Set.EqOn (saveOld old_func v m) (saveOld old_func v m') S := by
  unfold saveOld
  split
  · exact eqOn_store_store h
  · exact h

/-! ## The two modes on the same slots -/

/-- Visits that only read store the last word read. -/
theorem foldl_visit_null (slots : List Addr) (s : Vm π) :
    ∃ v, slots.foldl (elf.visit pages 0 old_func) s = { s with mem := saved old_func v s.mem } := by
  induction slots generalizing s with
  | nil => exact ⟨none, rfl⟩
  | cons a slots ih =>
      obtain ⟨v, hv⟩ := ih (elf.visit pages 0 old_func s a)
      rw [List.foldl_cons, hv]
      cases v with
      | none => exact ⟨some (loadWord s.mem a), rfl⟩
      | some v => exact ⟨some v, by simp [saved, Elf.visit, saveOld_saveOld]⟩

/-- The invariant: outside the slots visited so far (`U`) the two memories are the same. -/
theorem eqOn_foldl_visit (hpages : pages.Succeed) (hnew : new_func ≠ 0)
    (hold : old_func ≠ 0 → ∀ a ∈ slots, Apart old_func a) (happart : slots.Pairwise Apart)
    {s t : Vm π} {U : Set Addr} (hU : ∀ a ∈ slots, Disjoint (word a) U)
    (hst : Set.EqOn t.mem s.mem Uᶜ) (hfresh : ∀ a ∈ slots, loadWord s.mem a ≠ new_func) :
    Set.EqOn (slots.foldl (elf.visit pages new_func old_func) t).mem
      (slots.foldl (elf.visit pages 0 old_func) s).mem (U ∪ slotBytes slots)ᶜ := by
  induction slots generalizing s t U with
  | nil =>
      refine hst.mono (Set.compl_subset_compl.mpr Set.subset_union_left)
  | cons a slots ih =>
      obtain ⟨ha, happart⟩ := List.pairwise_cons.mp happart
      have hload : loadWord t.mem a = loadWord s.mem a :=
        load_congr (hst.mono (Set.subset_compl_iff_disjoint_right.mpr (hU a (by simp))))
      have hvisit : (elf.visit pages new_func old_func t a).mem =
          storeWord (saveOld old_func (loadWord s.mem a) t.mem) a new_func := by
        rw [Elf.visit, if_neg hnew, replaceFunction_mem hpages, hload,
          if_neg (hfresh a (by simp))]
      have hst' : Set.EqOn (elf.visit pages new_func old_func t a).mem
          (elf.visit pages 0 old_func s a).mem (U ∪ word a)ᶜ := by
        rw [hvisit, Set.compl_union]
        exact (eqOn_store.mono Set.inter_subset_right).trans
          ((eqOn_saveOld_saveOld hst).mono Set.inter_subset_left)
      have hU' : ∀ b ∈ slots, Disjoint (word b) (U ∪ word a) := by
        intro b hb
        exact Set.disjoint_union_right.mpr
          ⟨hU b (List.mem_cons_of_mem a hb), (ha b hb).symm.disjoint⟩
      have hfresh' : ∀ b ∈ slots, loadWord (elf.visit pages 0 old_func s a).mem b ≠ new_func := by
        intro b hb
        have hb' := List.mem_cons_of_mem a hb
        rw [Elf.visit, if_pos rfl, load_saveOld fun hne => hold hne b hb']
        exact hfresh b hb'
      have hrest := ih (fun hne b hb => hold hne b (List.mem_cons_of_mem a hb)) happart hU' hst'
        hfresh'
      refine hrest.mono (Set.compl_subset_compl.mpr ?_)
      rintro b ((hb | hb) | ⟨c, hc, hb⟩)
      · exact Or.inl hb
      · exact Or.inr ⟨a, by simp, hb⟩
      · exact Or.inr ⟨c, List.mem_cons_of_mem a hc, hb⟩

/-! ## Both modes of a hook -/

/-- The slots of the matching entries are words of their own, and they, the tables and
`*old_func` keep apart. -/
structure Layout {elf : Elf} {m : Bytes} (tables : Tables elf m) (symidx : SizeT)
    (old_func : Addr) : Prop where
  apart : (tables.relocs.slots elf symidx).Pairwise Apart
  old : old_func ≠ 0 → ∀ a ∈ tables.relocs.slots elf symidx, Apart old_func a
  keeps : KeepsTables tables symidx old_func

/-- Over what a hook reaches, the two modes differ in the slots only. -/
theorem Layout.eqOn_reach {m : Bytes} {tables : Tables elf m} {symidx : SizeT}
    (h : Layout tables symidx old_func) (hpages : pages.Succeed) (hnew : new_func ≠ 0) {s : Vm π}
    (hfresh : ∀ a ∈ tables.relocs.slots elf symidx, loadWord s.mem a ≠ new_func) :
    Set.EqOn
      ((tables.relocs.reach elf symidx).1.foldl (elf.visit pages new_func old_func) s).mem
      ((tables.relocs.reach elf symidx).1.foldl (elf.visit pages 0 old_func) s).mem
      (slotBytes (tables.relocs.slots elf symidx))ᶜ := by
  have hsub : (tables.relocs.reach elf symidx).1.Sublist (tables.relocs.slots elf symidx) :=
    tables.relocs.reach_sublist
  have hrun : Set.EqOn
      ((tables.relocs.reach elf symidx).1.foldl (elf.visit pages new_func old_func) s).mem
      ((tables.relocs.reach elf symidx).1.foldl (elf.visit pages 0 old_func) s).mem
      (∅ ∪ slotBytes (tables.relocs.reach elf symidx).1)ᶜ := by
    apply eqOn_foldl_visit hpages hnew
    · exact fun hne a ha => h.old hne a (hsub.subset ha)
    · exact h.apart.sublist hsub
    · simp
    · exact Set.eqOn_refl s.mem _
    · exact fun a ha => hfresh a (hsub.subset ha)
  refine hrun.mono (Set.compl_subset_compl.mpr ?_)
  rintro b (hb | ⟨a, ha, hb⟩)
  · exact absurd hb (Set.notMem_empty b)
  · exact ⟨a, hsub.subset ha, hb⟩

def Tables.slotsOf {elf : Elf} {m : Bytes} (tables : Tables elf m) : Option SizeT → List Addr
  | none => []
  | some symidx => tables.relocs.slots elf symidx

/-- Finding only agrees with hooking, and writes nothing but `*old_func`. -/
theorem find_only_agrees (hpages : pages.Succeed) {s : Vm π} {symbol : String} {fuel : ℕ}
    {found : Option SizeT} (hpath : elf.pathname ≠ none)
    (hlookup : elf.xhElfFindSymidxByName s.mem symbol fuel = some found)
    (tables : Tables elf s.mem) (hfuel : tables.Within fuel)
    (hlayout : ∀ symidx, found = some symidx → Layout tables symidx old_func)
    (hnew : new_func ≠ 0) (hfresh : ∀ a ∈ tables.slotsOf found, loadWord s.mem a ≠ new_func) :
    ∃ r v t,
      elf.xhElfHook pages fuel (some symbol) 0 old_func s =
        some (r, { s with mem := saved old_func v s.mem }) ∧
      elf.xhElfHook pages fuel (some symbol) new_func old_func s = some (r, t) ∧
      Set.EqOn t.mem (saved old_func v s.mem) (slotBytes (tables.slotsOf found))ᶜ ∧
      (old_func ≠ 0 → loadWord t.mem old_func = loadWord (saved old_func v s.mem) old_func) := by
  cases found with
  | none =>
      have hnone : ∀ f, elf.xhElfHook pages fuel (some symbol) f old_func s = some (0, s) := by
        intro f
        simp [Elf.xhElfHook, hpath, hlookup]
      exact ⟨0, none, s, hnone 0, hnone new_func, Set.eqOn_refl _ _, fun _ => rfl⟩
  | some symidx =>
      have hlayout := hlayout symidx rfl
      obtain ⟨v, hv⟩ : ∃ v,
          (tables.relocs.reach elf symidx).1.foldl (elf.visit pages 0 old_func) s =
            { s with mem := saved old_func v s.mem } := foldl_visit_null _ s
      have hreach : Set.EqOn
          ((tables.relocs.reach elf symidx).1.foldl (elf.visit pages new_func old_func) s).mem
          (saved old_func v s.mem) (slotBytes (tables.relocs.slots elf symidx))ᶜ := by
        have hmodes := hlayout.eqOn_reach hpages hnew hfresh
        rwa [hv] at hmodes
      refine ⟨(tables.relocs.reach elf symidx).2, v, _, ?_, ?_, hreach, ?_⟩
      · rw [xhElfHook_eq hpath hlookup hlayout.keeps hfuel, hook_eq_reach hpages, hv]
      · rw [xhElfHook_eq hpath hlookup hlayout.keeps hfuel, hook_eq_reach hpages]
      · intro hne
        refine load_congr (hreach.mono ?_)
        intro b hb hslot
        obtain ⟨a, ha, hb'⟩ := hslot
        exact Set.disjoint_left.mp (hlayout.old hne a ha).disjoint hb hb'

/-! ### An image with an entry in each table -/

def memoryOf (blocks : List (Addr × List (BitVec 8))) : Bytes := fun b =>
  match blocks.find? fun block => (b - block.1).toNat < block.2.length with
  | some block => block.2.getD (b - block.1).toNat 0
  | none => 0

/-- The symbol `f` at index 1, two entries for it in `.rel.plt`, one in `.rel.dyn` and one in
the packed table; their slots are at 0x1500. -/
@[irreducible] def libfMemory : Bytes := memoryOf [
  (0x1101, [0x66, 0]),
  (0x1210, [1, 0, 0, 0]),
  (0x1300, [1, 0, 0, 0]),
  (0x1400, [0x00, 0x05, 0, 0, 0x16, 0x01, 0, 0, 0x04, 0x05, 0, 0, 0x16, 0x01, 0, 0]),
  (0x1420, [0x08, 0x05, 0, 0, 0x15, 0x01, 0, 0]),
  (0x1440, [0x01, 0x8c, 0x0a, 0x01, 0x03, 0x00, 0x82, 0x02]),
  (0x1500, [1, 0x70, 0, 0, 2, 0x70, 0, 0, 3, 0x70, 0, 0, 4, 0x70, 0, 0])]

def libf : Elf where
  pathname := some "/system/lib/libf.so"
  baseAddr := 0x1000
  biasAddr := 0x1000
  strtab := 0x1100
  symtab := 0x1200
  relplt := 0x1400
  relpltSz := 16
  reldyn := 0x1420
  reldynSz := 8
  relandroid := 0x1440
  relandroidSz := 8
  bucket := 0x1300
  bucketCnt := 1
  chain := 0x1310
  symoffset := 0
  bloom := 0
  bloomSz := 0
  bloomShift := 0
  isUseRela := false
  isUseGnuHash := false

def libfTables : Tables libf libfMemory where
  plt := [0x1400, 0x1408]
  dyn := [0x1420]
  android := [⟨⟨0x50c, 0x102⟩, none⟩]
  plt_absent := by decide
  dyn_absent := by decide
  android_absent := by decide
  plt_yields _ := yields_of_collect (n := 3) (by decide +kernel)
  dyn_yields _ := yields_of_collect (n := 3) (by decide +kernel)
  android_yields _ := yields_of_collect (n := 3) (by decide +kernel)

/-- Pages that are all readable at the start, and whose protection can be changed. -/
def simplePages : Pages SizeT where
  getAddrProtect _ _ p := ((0, p), p)
  setAddrProtect _ prot _ := (0, prot)

theorem simplePages_succeed : simplePages.Succeed where
  get _ _ _ := rfl
  set _ _ _ := rfl

theorem libf_relocs : libfTables.relocs =
    ⟨[⟨0x500, 0x116⟩, ⟨0x504, 0x116⟩], [⟨0x508, 0x115⟩], [⟨0x50c, 0x102⟩]⟩ := by
  have hplt : [0x1400, 0x1408].map (relAt libfMemory) = [⟨0x500, 0x116⟩, ⟨0x504, 0x116⟩] := by
    decide +kernel
  have hdyn : [0x1420].map (relAt libfMemory) = [⟨0x508, 0x115⟩] := by decide +kernel
  rw [Tables.relocs]
  congr

theorem libf_slots : libfTables.relocs.slots libf 1 = [0x1500, 0x1504, 0x1508, 0x150c] := by
  rw [libf_relocs]
  decide

theorem libf_layout : Layout libfTables 1 0x2000 where
  apart := by
    rw [libf_slots]
    decide
  old _ := by
    rw [libf_slots]
    simp [Apart]
  keeps := {
    slots := by
      rw [libf_slots]
      intro a ha
      apply disjoint_bytes
      · revert a
        simp [libfTables]
      · revert a
        simp [libf]
    old := by
      intro _
      apply disjoint_bytes
      · simp [libfTables]
      · simp [libf] }

/-- The code, the value saved in `*old_func`, and what two of the slots hold. -/
def hooked (r : Option (ℤ × Vm SizeT)) : Option (ℤ × Addr × Addr × Addr) :=
  r.map fun r =>
    (r.1, loadWord r.2.mem 0x2000, loadWord r.2.mem 0x1500, loadWord r.2.mem 0x150c)

theorem libf_hooked :
    hooked (libf.xhElfHook simplePages 4 (some "f") 0 0x2000 ⟨libfMemory, 1⟩) =
      some (0, 0x7004, 0x7001, 0x7004) ∧
    hooked (libf.xhElfHook simplePages 4 (some "f") 0x3000 0x2000 ⟨libfMemory, 1⟩) =
      some (0, 0x7004, 0x3000, 0x3000) := by
  decide +kernel

/-- Both save what the last slot held. -/
theorem find_only_agrees_libf : ∃ v t,
    libf.xhElfHook simplePages 4 (some "f") 0 0x2000 ⟨libfMemory, 1⟩ =
      some (0, ⟨saved 0x2000 v libfMemory, 1⟩) ∧
    libf.xhElfHook simplePages 4 (some "f") 0x3000 0x2000 ⟨libfMemory, 1⟩ = some (0, t) ∧
    Set.EqOn t.mem (saved 0x2000 v libfMemory) (slotBytes (libfTables.slotsOf (some 1)))ᶜ ∧
    loadWord (saved 0x2000 v libfMemory) 0x2000 = 0x7004 ∧ loadWord t.mem 0x2000 = 0x7004 ∧
    loadWord t.mem 0x1500 = 0x3000 ∧ loadWord t.mem 0x150c = 0x3000 := by
  have hlookup : libf.xhElfFindSymidxByName libfMemory "f" 4 = some (some 1) := by decide +kernel
  have hlayout : ∀ symidx, some 1 = some symidx → Layout libfTables symidx 0x2000 :=
    fun symidx h => Option.some.inj h ▸ libf_layout
  have hnew : (0x3000 : Addr) ≠ 0 := by decide
  have hfresh : ∀ a ∈ libfTables.slotsOf (some 1), loadWord libfMemory a ≠ 0x3000 := by
    rw [Tables.slotsOf, libf_slots]
    simp only [List.forall_mem_cons, List.not_mem_nil, IsEmpty.forall_iff, implies_true]
    decide +kernel
  obtain ⟨r, v, t, hfind, hhook, hmem, -⟩ :=
    find_only_agrees (s := ⟨libfMemory, 1⟩) simplePages_succeed (by decide) hlookup libfTables
      ⟨by decide, by decide, by decide⟩ hlayout hnew hfresh
  obtain ⟨hfound, hold⟩ := libf_hooked
  simp only [hfind, hhook, hooked, Option.map_some, Option.some.injEq, Prod.mk.injEq] at hfound hold
  obtain ⟨rfl, hsaved, -⟩ := hfound
  exact ⟨v, t, hfind, hhook, hmem, hsaved, hold.2⟩

end Patrons.Xhook
