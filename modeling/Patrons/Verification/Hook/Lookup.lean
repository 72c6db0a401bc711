import Patrons.Verification.Hook.FindOnly
import Mathlib.Data.BitVec
import Mathlib.Data.List.Perm.Subperm
import Mathlib.Data.List.TakeWhile

/-! # Symbol lookup

Whatever hash table the linker has written, old or GNU, the lookup returns and finds a symbol
exactly when the symbol table has its name. -/

namespace Patrons.Xhook

open Bytes

/-! ## Names in memory -/

variable {elf : Elf} {m : Bytes} {names : List (List (BitVec 8))} {symbol : String}

theorem strcmpEq_iff {name cs : List (BitVec 8)} {p : Addr} (h : Stored m p (name ++ [0]))
    (hname : 0 ∉ name) (hcs : 0 ∉ cs) : strcmpEq m cs p = true ↔ cs = name := by
  induction cs generalizing name p with
  | nil =>
      cases name with
      | nil => simpa [strcmpEq] using h.1
      | cons b name =>
          have hb : m p ≠ 0 := by
            rw [h.1]
            exact fun hzero => hname (by simp [hzero])
          rw [strcmpEq, beq_iff_eq]
          exact iff_of_false hb (by simp)
  | cons c cs ih =>
      rw [List.mem_cons, not_or] at hcs
      cases name with
      | nil =>
          have hp : m p = 0 := h.1
          rw [strcmpEq, Bool.and_eq_true, beq_iff_eq, hp]
          exact iff_of_false (fun h => hcs.1 h.1) (by simp)
      | cons b name =>
          rw [List.mem_cons, not_or] at hname
          have hp : m p = b := h.1
          rw [strcmpEq, Bool.and_eq_true, beq_iff_eq, hp, ih h.2 hname.2 hcs.2, List.cons.injEq,
            eq_comm]

theorem zero_notMem_cstr (s : String) : (0 : BitVec 8) ∉ cstr s := by
  intro h
  have hne := List.mem_takeWhile_imp h
  simp at hne

/-- The symbol table has these names in its order. The first symbol has none. -/
structure Names (elf : Elf) (m : Bytes) (names : List (List (BitVec 8))) : Prop where
  count : names.length < 2 ^ 32
  first : names[0]? = some []
  ended : ∀ name ∈ names, 0 ∉ name
  stored : ∀ (i : SizeT) name, names[i.toNat]? = some name →
    Stored m (elf.strtab + loadWord m (elf.symtab + 16 * i)) (name ++ [0])

theorem Names.nameIs_iff (h : Names elf m names) {i : SizeT} (hi : i.toNat < names.length) :
    elf.nameIs m symbol i = true ↔ names[i.toNat]? = some (cstr symbol) := by
  have hget : names[i.toNat]? = some names[i.toNat] := List.getElem?_eq_getElem hi
  have hended := h.ended _ (List.getElem_mem hi)
  rw [Elf.nameIs, strcmpEq_iff (h.stored i _ hget) hended (zero_notMem_cstr symbol), hget,
    Option.some.injEq, eq_comm]

/-! ## The old hash table -/

/-- The chain from `i` on has these symbols. -/
def Chained (elf : Elf) (m : Bytes) : SizeT → List SizeT → Prop
  | i, [] => i = 0
  | i, j :: js => i = j ∧ i ≠ 0 ∧ Chained elf m (loadWord m (elf.chain + 4 * i)) js

theorem hashChain_eq {i : SizeT} {is : List SizeT} (h : Chained elf m i is) {fuel : ℕ}
    (hfuel : is.length < fuel) :
    elf.hashChain m symbol fuel i = some (is.find? (elf.nameIs m symbol)) := by
  induction is generalizing i fuel with
  | nil =>
      obtain ⟨n, rfl⟩ : ∃ n, fuel = n + 1 := ⟨fuel - 1, by omega⟩
      rw [Elf.hashChain, if_pos (show i = 0 from h)]
      rfl
  | cons j js ih =>
      obtain ⟨n, rfl⟩ : ∃ n, fuel = n + 1 := ⟨fuel - 1, by omega⟩
      obtain ⟨rfl, hne, hrest⟩ := h
      rw [List.length_cons] at hfuel
      rw [Elf.hashChain, if_neg hne, List.find?_cons]
      cases hname : elf.nameIs m symbol i with
      | true => rfl
      | false => exact ih hrest (by omega)

/-- A chain is decided by its first symbol. -/
theorem Chained.unique {i : SizeT} {is js : List SizeT} (h : Chained elf m i is)
    (h' : Chained elf m i js) : is = js := by
  induction is generalizing i js with
  | nil =>
      cases js with
      | nil => rfl
      | cons j js => exact absurd h h'.2.1
  | cons k ks ih =>
      cases js with
      | nil => exact absurd h' h.2.1
      | cons j js =>
          obtain ⟨rfl, -, hrest⟩ := h
          obtain ⟨rfl, -, hrest'⟩ := h'
          rw [ih hrest hrest']

theorem Chained.suffix {i j : SizeT} {is : List SizeT} (h : Chained elf m i is) (hj : j ∈ is) :
    ∃ js, Chained elf m j js ∧ js.length ≤ is.length := by
  induction is generalizing i with
  | nil => exact absurd hj List.not_mem_nil
  | cons k ks ih =>
      obtain ⟨rfl, hne, hrest⟩ := h
      rcases List.mem_cons.mp hj with rfl | hj
      · exact ⟨j :: ks, ⟨rfl, hne, hrest⟩, le_rfl⟩
      · obtain ⟨js, hjs, hle⟩ := ih hrest hj
        exact ⟨js, hjs, hle.trans (Nat.le_succ _)⟩

theorem Chained.nodup {i : SizeT} {is : List SizeT} (h : Chained elf m i is) : is.Nodup := by
  induction is generalizing i with
  | nil => exact List.nodup_nil
  | cons k ks ih =>
      obtain ⟨rfl, hne, hrest⟩ := h
      refine List.nodup_cons.mpr ⟨fun hmem => ?_, ih hrest⟩
      obtain ⟨js, hjs, hle⟩ := hrest.suffix hmem
      have heq : js = i :: ks := hjs.unique ⟨rfl, hne, hrest⟩
      rw [heq, List.length_cons] at hle
      omega

theorem Chained.congr {m' : Bytes} {i : SizeT} {is : List SizeT} (h : Chained elf m i is)
    (hwords : ∀ j ∈ is, loadWord m (elf.chain + 4 * j) = loadWord m' (elf.chain + 4 * j)) :
    Chained elf m' i is := by
  induction is generalizing i with
  | nil => exact h
  | cons k ks ih =>
      obtain ⟨rfl, hne, hrest⟩ := h
      refine ⟨rfl, hne, ?_⟩
      rw [← hwords i (by simp)]
      exact ih hrest fun j hj => hwords j (List.mem_cons_of_mem i hj)

theorem length_le_of_nodup {is : List SizeT} (h : is.Nodup)
    (hlt : ∀ i ∈ is, i.toNat < names.length) : is.length ≤ names.length := by
  have hmap : (is.map BitVec.toNat).Nodup := h.map BitVec.toNat_injective
  have hsub : is.map BitVec.toNat ⊆ List.range names.length := by
    intro n hn
    obtain ⟨i, hi, rfl⟩ := List.mem_map.mp hn
    exact List.mem_range.mpr (hlt i hi)
  have hle := (hmap.subperm hsub).length_le
  rwa [List.length_map, List.length_range] at hle

/-- `r` is a symbol with the name, or no symbol has it. -/
structure Found (names : List (List (BitVec 8))) (name : List (BitVec 8)) (r : Option SizeT) :
    Prop where
  sound : ∀ i, r = some i → names[i.toNat]? = some name
  complete : r = none → name ∉ names

theorem Names.index (h : Names elf m names) {name : List (BitVec 8)} (hmem : name ∈ names) :
    ∃ i : SizeT, names[i.toNat]? = some name := by
  obtain ⟨k, hk, hget⟩ := List.mem_iff_getElem.mp hmem
  have hcount := h.count
  refine ⟨BitVec.ofNat 32 k, ?_⟩
  rw [BitVec.toNat_ofNat, Nat.mod_eq_of_lt (by omega), List.getElem?_eq_getElem hk, hget]

theorem lt_of_name {i : SizeT} {name : List (BitVec 8)} (h : names[i.toNat]? = some name) :
    i.toNat < names.length :=
  (List.getElem?_eq_some_iff.mp h).1

/-- The bucket of every hash has a chain with all symbols of this bucket. -/
structure HashTable (elf : Elf) (m : Bytes) (names : List (List (BitVec 8))) : Prop where
  bucketCnt : elf.bucketCnt ≠ 0
  chains : ∀ hash, ∃ is,
    Chained elf m (loadWord m (elf.bucket + 4 * (hash % elf.bucketCnt))) is ∧
    (∀ i ∈ is, i.toNat < names.length) ∧
    ∀ (i : SizeT) name, i ≠ 0 → names[i.toNat]? = some name →
      xhElfHash name % elf.bucketCnt = hash % elf.bucketCnt → i ∈ is

theorem HashTable.lookup (h : HashTable elf m names) (hnames : Names elf m names)
    (hsymbol : cstr symbol ≠ []) {fuel : ℕ} (hfuel : names.length < fuel) :
    ∃ r, elf.xhElfHashLookup m symbol fuel = some r ∧ Found names (cstr symbol) r := by
  obtain ⟨is, hchain, hlt, hall⟩ := h.chains (xhElfHash (cstr symbol))
  have hlength := length_le_of_nodup hchain.nodup hlt
  refine ⟨_, hashChain_eq hchain (by omega), ?_, ?_⟩
  · intro i hi
    exact (hnames.nameIs_iff (hlt i (List.mem_of_find?_eq_some hi))).mp (List.find?_some hi)
  · intro hnone hmem
    obtain ⟨i, hname⟩ := hnames.index hmem
    have hne : i ≠ 0 := by
      rintro rfl
      exact hsymbol (Option.some.inj (hname.symm.trans hnames.first))
    have hin := hall i _ hne hname rfl
    exact List.find?_eq_none.mp hnone i hin ((hnames.nameIs_iff (hlt i hin)).mpr hname)

/-! ## The GNU hash table -/

namespace Elf

variable (self : Elf) (m : Bytes)

def bloomWord (hash : SizeT) : SizeT := loadWord m (self.bloom + 4 * ((hash / 32) % self.bloomSz))

def bloomMask (hash : SizeT) : SizeT :=
  (1 : SizeT) <<< (hash % 32) ||| (1 : SizeT) <<< ((hash >>> self.bloomShift) % 32)

def bucketWord (hash : SizeT) : SizeT := loadWord m (self.bucket + 4 * (hash % self.bucketCnt))

/-- The hash of the symbol `i`, with the end of its chain in bit 0. -/
def chainWord (i : SizeT) : SizeT := loadWord m (self.chain + 4 * (i - self.symoffset))

/-- `i` is the last symbol of its chain. -/
def Last (i : SizeT) : Prop := self.chainWord m i &&& 1 ≠ 0

instance (i : SizeT) : Decidable (self.Last m i) := inferInstanceAs (Decidable (_ ≠ _))

theorem gnuChain_succ (symbol : String) (hash : SizeT) (fuel : ℕ) (i : SizeT) :
    self.gnuChain m symbol hash (fuel + 1) i =
      if hash ||| 1 = self.chainWord m i ||| 1 ∧ self.nameIs m symbol i = true then some (some i)
      else if self.Last m i then some none
      else self.gnuChain m symbol hash fuel (i + 1) := rfl

theorem gnuHashLookupDef_eq (symbol : String) (fuel : ℕ) :
    self.xhElfGnuHashLookupDef m symbol fuel =
      let hash := xhElfGnuHash (cstr symbol)
      if self.bloomWord m hash &&& self.bloomMask hash ≠ self.bloomMask hash then some none
      else if self.bucketWord m hash < self.symoffset then some none
      else self.gnuChain m symbol hash fuel (self.bucketWord m hash) := rfl

end Elf

/-- The symbols from `symoffset` on lie in buckets, each in a run that a last symbol ends. -/
structure GnuHashTable (elf : Elf) (m : Bytes) (names : List (List (BitVec 8))) : Prop where
  bucketCnt : elf.bucketCnt ≠ 0
  bloomSz : elf.bloomSz ≠ 0
  bloomShift : elf.bloomShift < 32
  symoffset : elf.symoffset.toNat ≤ names.length
  bloom : ∀ (i : SizeT) name, elf.symoffset ≤ i → names[i.toNat]? = some name →
    elf.bloomWord m (xhElfGnuHash name) &&& elf.bloomMask (xhElfGnuHash name) =
      elf.bloomMask (xhElfGnuHash name)
  hash : ∀ (i : SizeT) name, elf.symoffset ≤ i → names[i.toNat]? = some name →
    elf.chainWord m i ||| 1 = xhElfGnuHash name ||| 1
  run : ∀ (i : SizeT) name, elf.symoffset ≤ i → names[i.toNat]? = some name →
    elf.symoffset ≤ elf.bucketWord m (xhElfGnuHash name) ∧
    elf.bucketWord m (xhElfGnuHash name) ≤ i ∧
    ∀ j, elf.bucketWord m (xhElfGnuHash name) ≤ j → j < i → ¬elf.Last m j
  ended : ∀ hash, elf.symoffset ≤ elf.bucketWord m hash →
    ∃ e, elf.bucketWord m hash ≤ e ∧ e.toNat < names.length ∧ elf.Last m e

/-- The chain from `i` on gives a symbol of the name, unless the run up to its last symbol has
none. -/
theorem gnuChain_spec (symbol : String) (hash : SizeT) {i e : SizeT} (hi : i ≤ e)
    (hlast : elf.Last m e) {fuel : ℕ} (hfuel : e.toNat - i.toNat < fuel) :
    ∃ r, elf.gnuChain m symbol hash fuel i = some r ∧
      (∀ j, r = some j → j ≤ e ∧ elf.nameIs m symbol j = true) ∧
      (r = none → ∀ j, i ≤ j → (∀ k, i ≤ k → k < j → ¬elf.Last m k) →
        elf.chainWord m j ||| 1 = hash ||| 1 → ¬elf.nameIs m symbol j = true) := by
  induction fuel generalizing i with
  | zero => exact absurd hfuel (Nat.not_lt_zero _)
  | succ fuel ih =>
      rw [Elf.gnuChain_succ]
      by_cases hmatch : (hash ||| 1) = (elf.chainWord m i ||| 1) ∧ elf.nameIs m symbol i = true
      · rw [if_pos hmatch]
        refine ⟨some i, rfl, ?_, by simp⟩
        rintro j ⟨⟩
        exact ⟨hi, hmatch.2⟩
      · rw [if_neg hmatch]
        have hhere : elf.chainWord m i ||| 1 = hash ||| 1 → ¬elf.nameIs m symbol i = true :=
          fun h h' => hmatch ⟨h.symm, h'⟩
        by_cases hend : elf.Last m i
        · rw [if_pos hend]
          refine ⟨none, rfl, by simp, ?_⟩
          intro _ j hj hrun hword
          by_cases hij : i < j
          · exact absurd hend (hrun i (BitVec.le_refl i) hij)
          · obtain rfl : j = i := BitVec.le_antisymm (BitVec.not_lt.mp hij) hj
            exact hhere hword
        · rw [if_neg hend]
          have hne : i ≠ e := by
            rintro rfl
            exact hend hlast
          obtain ⟨r, hr, hsound, hcomplete⟩ := ih (i := i + 1) (by bv_omega) (by bv_omega)
          refine ⟨r, hr, hsound, ?_⟩
          intro hnone j hj hrun hword
          by_cases hij : i < j
          · exact hcomplete hnone j (by bv_omega)
              (fun k hk hkj => hrun k (by bv_omega) hkj) hword
          · obtain rfl : j = i := BitVec.le_antisymm (BitVec.not_lt.mp hij) hj
            exact hhere hword

/-- The symbols below `symoffset` are searched one by one. -/
theorem lookupUndef_spec (symbol : String) (hnames : Names elf m names)
    (h : elf.symoffset.toNat ≤ names.length) :
    (∀ i, elf.xhElfGnuHashLookupUndef m symbol = some i →
      names[i.toNat]? = some (cstr symbol)) ∧
    (elf.xhElfGnuHashLookupUndef m symbol = none →
      ∀ i, i < elf.symoffset → names[i.toNat]? ≠ some (cstr symbol)) := by
  have hmem : ∀ i, i ∈ (List.range elf.symoffset.toNat).map (BitVec.ofNat 32) ↔
      i < elf.symoffset := by
    intro i
    rw [List.mem_map]
    constructor
    · rintro ⟨k, hk, rfl⟩
      rw [List.mem_range] at hk
      bv_omega
    · intro hi
      exact ⟨i.toNat, List.mem_range.mpr hi, by simp⟩
  rw [Elf.xhElfGnuHashLookupUndef]
  constructor
  · intro i hi
    have hlt : i < elf.symoffset := (hmem i).mp (List.mem_of_find?_eq_some hi)
    exact (hnames.nameIs_iff (by bv_omega)).mp (List.find?_some hi)
  · intro hnone i hi hname
    have hno := List.find?_eq_none.mp hnone i ((hmem i).mpr hi)
    exact hno ((hnames.nameIs_iff (lt_of_name hname)).mpr hname)

theorem GnuHashTable.lookup (h : GnuHashTable elf m names) (hnames : Names elf m names)
    {fuel : ℕ} (hfuel : names.length < fuel) :
    ∃ r, elf.xhElfGnuHashLookup m symbol fuel = some r ∧ Found names (cstr symbol) r := by
  have hdef : ∃ r, elf.xhElfGnuHashLookupDef m symbol fuel = some r ∧
      (∀ i, r = some i → names[i.toNat]? = some (cstr symbol)) ∧
      (r = none → ∀ i, elf.symoffset ≤ i → names[i.toNat]? ≠ some (cstr symbol)) := by
    rw [Elf.gnuHashLookupDef_eq]
    simp only
    by_cases hbloom : elf.bloomWord m (xhElfGnuHash (cstr symbol)) &&&
        elf.bloomMask (xhElfGnuHash (cstr symbol)) = elf.bloomMask (xhElfGnuHash (cstr symbol))
    · rw [if_neg (by simpa using hbloom)]
      by_cases hbucket : elf.bucketWord m (xhElfGnuHash (cstr symbol)) < elf.symoffset
      · -- an empty bucket
        rw [if_pos hbucket]
        refine ⟨none, rfl, by simp, ?_⟩
        intro _ i hi hname
        exact absurd (h.run i _ hi hname).1 (BitVec.not_le.mpr hbucket)
      · rw [if_neg hbucket]
        obtain ⟨e, hle, hlt, hlast⟩ := h.ended _ (BitVec.not_lt.mp hbucket)
        have hlength : e.toNat - (elf.bucketWord m (xhElfGnuHash (cstr symbol))).toNat < fuel := by
          omega
        obtain ⟨r, hr, hsound, hcomplete⟩ :=
          gnuChain_spec symbol (xhElfGnuHash (cstr symbol)) hle hlast hlength
        refine ⟨r, hr, ?_, ?_⟩
        · intro i hi
          obtain ⟨hie, hname⟩ := hsound i hi
          exact (hnames.nameIs_iff (by bv_omega)).mp hname
        · intro hnone i hi hname
          obtain ⟨-, hfrom, hrun⟩ := h.run i _ hi hname
          exact hcomplete hnone i hfrom hrun (h.hash i _ hi hname)
            ((hnames.nameIs_iff (lt_of_name hname)).mpr hname)
    · -- a name that the filter excludes
      rw [if_pos hbloom]
      refine ⟨none, rfl, by simp, ?_⟩
      intro _ i hi hname
      exact hbloom (h.bloom i _ hi hname)
  obtain ⟨r, hr, hsound, hcomplete⟩ := hdef
  obtain ⟨hsound', hcomplete'⟩ := lookupUndef_spec symbol hnames h.symoffset
  rw [Elf.xhElfGnuHashLookup, hr]
  cases r with
  | some i => exact ⟨some i, rfl, hsound, by simp⟩
  | none =>
      refine ⟨_, rfl, hsound', ?_⟩
      intro hnone hmem
      obtain ⟨i, hname⟩ := hnames.index hmem
      by_cases hi : elf.symoffset ≤ i
      · exact hcomplete rfl i hi hname
      · exact hcomplete' hnone i (BitVec.not_le.mp hi) hname

/-! ## Both kinds of table -/

/-- The hash table that the lookup uses indexes the symbol table. -/
def Indexed (elf : Elf) (m : Bytes) (names : List (List (BitVec 8))) : Prop :=
  if elf.isUseGnuHash then GnuHashTable elf m names else HashTable elf m names

theorem Found.eq_idxOf {name : List (BitVec 8)} {r : Option SizeT} (h : Found names name r)
    (hnodup : names.Nodup) : r = (names.idxOf? name).map (BitVec.ofNat 32) := by
  cases r with
  | none => rw [List.idxOf?_eq_none_iff.mpr (h.complete rfl), Option.map_none]
  | some i =>
      obtain ⟨hlt, hget⟩ := List.getElem?_eq_some_iff.mp (h.sound i rfl)
      have hidx : names.idxOf? name = some i.toNat := by
        refine List.idxOf?_eq_some_iff.mpr ⟨hlt, hget, ?_⟩
        intro j hj heq
        have hsame : j = i.toNat := hnodup.getElem_inj_iff.mp (heq.trans hget.symm)
        exact absurd hsame hj.ne
      rw [hidx, Option.map_some, BitVec.ofNat_toNat]
      simp

theorem lookup_found (hnames : Names elf m names) (hindexed : Indexed elf m names)
    (hsymbol : cstr symbol ≠ []) {fuel : ℕ} (hfuel : names.length < fuel) :
    ∃ r, elf.xhElfFindSymidxByName m symbol fuel = some r ∧ Found names (cstr symbol) r := by
  rw [Elf.xhElfFindSymidxByName]
  cases hkind : elf.isUseGnuHash with
  | true =>
      have htable : GnuHashTable elf m names := by simpa [Indexed, hkind] using hindexed
      exact htable.lookup hnames hfuel
  | false =>
      have htable : HashTable elf m names := by simpa [Indexed, hkind] using hindexed
      exact htable.lookup hnames hsymbol hfuel

/-- The lookup returns for every name but the empty one, through either table. It finds a symbol
with the name when there is one, and where no two symbols share a name it is a search through the
symbol table. -/
theorem find_symidx_by_name (hnames : Names elf m names) (hindexed : Indexed elf m names)
    (hsymbol : cstr symbol ≠ []) {fuel : ℕ} (hfuel : names.length < fuel) :
    ∃ r, elf.xhElfFindSymidxByName m symbol fuel = some r ∧
      (∀ i, r = some i → names[i.toNat]? = some (cstr symbol)) ∧
      (r = none → cstr symbol ∉ names) ∧
      (names.Nodup → r = (names.idxOf? (cstr symbol)).map (BitVec.ofNat 32)) := by
  obtain ⟨r, hr, hfound⟩ := lookup_found hnames hindexed hsymbol hfuel
  exact ⟨r, hr, hfound.sound, hfound.complete, hfound.eq_idxOf⟩

/-! ### A symbol in a GNU hash table -/

/-- The symbol `f` at index 1, after the symbol without a name. -/
@[irreducible] def gnuMemory : Bytes := memoryOf [
  (0x1101, [0x66, 0]),
  (0x1210, [1, 0, 0, 0]),
  (0x1300, [1, 0, 0, 0]),
  (0x1310, [0x0b, 0xb6, 0x02, 0]),
  (0x1320, [0xff, 0xff, 0xff, 0xff])]

def libg : Elf := {
  libf with
  symoffset := 1
  bloom := 0x1320
  bloomSz := 1
  bloomShift := 5
  chain := 0x1310
  isUseGnuHash := true }

def libgNames : List (List (BitVec 8)) := [[], [0x66]]

theorem libg_names : Names libg gnuMemory libgNames where
  count := by decide
  first := rfl
  ended := by decide
  stored i name h := by
    have hi : i = 0 ∨ i = 1 := by
      have hlt := lt_of_name h
      simp only [libgNames, List.length_cons, List.length_nil] at hlt
      bv_omega
    rcases hi with rfl | rfl
    · obtain rfl := Option.some.inj h
      decide +kernel
    · obtain rfl := Option.some.inj h
      decide +kernel

theorem libg_table : GnuHashTable libg gnuMemory libgNames := by
  have hone : ∀ (i : SizeT) name, libg.symoffset ≤ i → libgNames[i.toNat]? = some name →
      i = 1 ∧ name = [0x66] := by
    intro i name hi h
    have hlt := lt_of_name h
    obtain rfl : i = 1 := by
      simp only [libgNames, List.length_cons, List.length_nil, libg] at hlt hi
      bv_omega
    exact ⟨rfl, (Option.some.inj h).symm⟩
  have hbucket : ∀ hash, libg.bucketWord gnuMemory hash = 1 := by
    intro hash
    have hmod : hash % libg.bucketCnt = 0 := by
      simp [libg, libf]
    rw [Elf.bucketWord, hmod]
    decide +kernel
  refine ⟨by decide, by decide, by decide, by decide, ?_, ?_, ?_, ?_⟩
  · intro i name hi h
    obtain ⟨rfl, rfl⟩ := hone i name hi h
    decide +kernel
  · intro i name hi h
    obtain ⟨rfl, rfl⟩ := hone i name hi h
    decide +kernel
  · intro i name hi h
    obtain ⟨rfl, rfl⟩ := hone i name hi h
    rw [hbucket]
    exact ⟨by decide, by decide, fun j hj hlt => absurd hlt (BitVec.not_lt.mpr hj)⟩
  · intro hash _
    rw [hbucket]
    exact ⟨1, by decide, by decide, by decide +kernel⟩

theorem find_symidx_by_name_libg :
    ∃ r, libg.xhElfFindSymidxByName gnuMemory "f" 3 = some r ∧
      (∀ i, r = some i → libgNames[i.toNat]? = some (cstr "f")) ∧
      (r = none → cstr "f" ∉ libgNames) ∧
      (libgNames.Nodup →
        r = (libgNames.idxOf? (cstr "f")).map (BitVec.ofNat 32)) :=
  find_symidx_by_name libg_names (by simpa [Indexed, libg] using libg_table) (by decide) (by decide)

end Patrons.Xhook
