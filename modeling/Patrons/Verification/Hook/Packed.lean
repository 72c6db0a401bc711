import Patrons.Library.Leb128
import Patrons.Verification.Hook.FindOnly
import Mathlib.Tactic.Ring

/-! # The packed relocations of Android

The linker cuts the relocations into groups and shares what the relocations of a group have in
common; offsets and addends are kept as differences. The iterator gives back the relocations of
every such table. -/

namespace Patrons.Xhook

open Bytes Loop Leb128

/-! ## The format -/

/-- What a packed table may hold for one relocation. -/
structure PackedEntry where
  delta : ℤ
  info : ℤ
  addend : ℤ

/-- Relocations with shared fields. The flags say which of the shared fields are in use. -/
structure PackedGroup where
  flags : ℤ
  delta : ℤ
  info : ℤ
  addend : ℤ
  entries : List PackedEntry

structure PackedTable where
  offset : ℤ
  groups : List PackedGroup

/-- `x` where it is written. -/
def present (c : Bool) (x : ℤ) : List ℤ := if c then [x] else []

namespace PackedGroup

variable (g : PackedGroup)

def has (flag : SizeT) : Bool := BitVec.ofInt 32 g.flags &&& flag != 0

def byDelta : Bool := g.has RELOCATION_GROUPED_BY_OFFSET_DELTA_FLAG

def byInfo : Bool := g.has RELOCATION_GROUPED_BY_INFO_FLAG

def oneAddend : Bool :=
  g.has RELOCATION_GROUP_HAS_ADDEND_FLAG && g.has RELOCATION_GROUPED_BY_ADDEND_FLAG

def ownAddends (rela : Bool) : Bool :=
  rela && g.has RELOCATION_GROUP_HAS_ADDEND_FLAG && !g.has RELOCATION_GROUPED_BY_ADDEND_FLAG

def head : List ℤ :=
  [(g.entries.length : ℤ), g.flags] ++ present g.byDelta g.delta ++ present g.byInfo g.info ++
    present g.oneAddend g.addend

def entry (rela : Bool) (e : PackedEntry) : List ℤ :=
  present (!g.byDelta) e.delta ++ present (!g.byInfo) e.info ++ present (g.ownAddends rela) e.addend

def numbers (rela : Bool) : List ℤ := g.head ++ g.entries.flatMap (g.entry rela)

def deltaOf (e : PackedEntry) : SizeT := BitVec.ofInt 32 (if g.byDelta then g.delta else e.delta)

def infoOf (e : PackedEntry) : SizeT := BitVec.ofInt 32 (if g.byInfo then g.info else e.info)

end PackedGroup

/-- The offset and the addend that the next relocation counts from. -/
structure Origin where
  offset : SizeT
  addend : SizeT

namespace PackedGroup

variable (g : PackedGroup) (rela : Bool)

/-- The head of a group moves or clears the addend. -/
def enter (p : Origin) : Origin :=
  { p with
    addend :=
      if g.oneAddend then p.addend + BitVec.ofInt 32 g.addend
      else if g.has RELOCATION_GROUP_HAS_ADDEND_FLAG then p.addend
      else 0 }

def move (p : Origin) (e : PackedEntry) : Origin where
  offset := p.offset + g.deltaOf e
  addend := if g.ownAddends rela then p.addend + BitVec.ofInt 32 e.addend else p.addend

def rel (p : Origin) (e : PackedEntry) : PackedRel where
  rOffset := (g.move rela p e).offset
  rInfo := g.infoOf e
  rAddend := if rela then some (g.move rela p e).addend else none

def relsFrom (p : Origin) : List PackedEntry → List PackedRel
  | [] => []
  | e :: es => g.rel rela p e :: relsFrom (g.move rela p e) es

end PackedGroup

def groupRels (rela : Bool) (p : Origin) : List PackedGroup → List PackedRel
  | [] => []
  | g :: gs =>
    g.relsFrom rela (g.enter p) g.entries ++
      groupRels rela (g.entries.foldl (g.move rela) (g.enter p)) gs

namespace PackedTable

variable (t : PackedTable) (rela : Bool)

def entries : List PackedEntry := t.groups.flatMap (·.entries)

def rels : List PackedRel := groupRels rela ⟨BitVec.ofInt 32 t.offset, 0⟩ t.groups

def numbers : List ℤ :=
  [(t.entries.length : ℤ), t.offset] ++ t.groups.flatMap (·.numbers rela)

/-- A linker counts in words, writes no group without relocations, and shares no addend in a
table without addends. -/
structure Sound : Prop where
  count : t.entries.length < 2 ^ 32
  nonempty : ∀ g ∈ t.groups, g.entries ≠ []
  addend : rela = false → ∀ g ∈ t.groups, g.oneAddend = false

end PackedTable

/-! ## Reading one number -/

section Number

variable {m : Bytes}

/-- The decoder ORs the groups into a word that has `a` below `shift`. -/
theorem sleb128_eq {bs : List (BitVec 8)} {v : ℤ} (h : Encodes bs v) {n : ℕ} {cur : Addr}
    {shift a : ℕ} (hbytes : Stored m cur bs) (hn : bs.length ≤ n) (ha : a < 2 ^ shift) :
    sleb128 m n cur shift (BitVec.ofNat 32 a) =
      some (BitVec.ofInt 32 (a + 2 ^ shift * v), cur + BitVec.ofNat 32 bs.length) := by
  induction h generalizing n cur shift a with
  | @last b hend =>
      obtain ⟨k, rfl⟩ : ∃ k, n = k + 1 := ⟨n - 1, by simp at hn; omega⟩
      obtain rfl := hbytes.1
      have hlt := add_payload_lt (m cur) ha
      have hpow : (2 : ℤ) ^ (shift + 7) = 2 ^ shift * 128 := by rw [pow_add]; rfl
      rw [sleb128]
      simp only [or_payload (m cur) ha, ne_eq, hend, not_true_eq_false, ↓reduceIte]
      by_cases hsign : m cur &&& 64 = 0
      · -- a number that is not negative
        rw [if_neg (fun h => h.2 hsign), if_neg (fun h => h hsign), ← BitVec.ofInt_natCast]
        push_cast
        rw [sub_zero, mul_comm]
        rfl
      · have hneg : (a : ℤ) + 2 ^ shift * (payload (m cur) - 128) =
            ((a + payload (m cur) * 2 ^ shift : ℕ) : ℤ) - 2 ^ (shift + 7) := by
          rw [hpow]
          push_cast
          ring
        rw [if_pos (show ¬ m cur &&& 64 = 0 from hsign), hneg]
        by_cases hshift : shift + 7 < 32
        · rw [if_pos ⟨hshift, hsign⟩, or_sign hlt hshift]
          rfl
        · rw [if_neg (by simp [hshift]), ofInt_sub_pow (by omega), BitVec.ofInt_natCast]
          rfl
  | @more b bs v hmore hrest ih =>
      obtain ⟨k, rfl⟩ : ∃ k, n = k + 1 := ⟨n - 1, by simp at hn; omega⟩
      obtain ⟨rfl, hbytes⟩ := hbytes
      have hvalue : ((a + payload (m cur) * 2 ^ shift : ℕ) : ℤ) + 2 ^ (shift + 7) * v =
          a + 2 ^ shift * (payload (m cur) + 128 * v) := by
        rw [pow_add]
        push_cast
        ring
      rw [sleb128]
      simp only [or_payload (m cur) ha, ne_eq, hmore, not_false_eq_true, ↓reduceIte]
      rw [ih hbytes (by simp at hn; omega) (add_payload_lt (m cur) ha), hvalue,
        add_one_add_ofNat]
      rfl

/-- The numbers that the decoder has not read yet, each with at most five bytes. -/
def Ahead (m : Bytes) (stop cur : Addr) (vs : List ℤ) : Prop :=
  ∃ bytes, EncodesAll 5 bytes vs ∧ Stored m cur bytes ∧ cur.toNat + bytes.length ≤ stop.toNat

/-- From `it` on the decoder takes the numbers `vs`, gives `b` and leaves `it'`. -/
def Takes {β : Type} (m : Bytes) (x : Decode β) (it : PackedIter) (vs : List ℤ) (b : β)
    (it' : PackedIter) : Prop :=
  it'.stop = it.stop ∧ ∀ cur rest, Ahead m it.stop cur (vs ++ rest) →
    ∃ cur', x m { it with cur := cur } = some (b, { it' with cur := cur' }) ∧
      Ahead m it.stop cur' rest

end Number

namespace Takes

variable {β γ : Type} {m : Bytes} {it it' it'' : PackedIter} {vs ws : List ℤ}

theorem pure (b : β) : Takes m (Pure.pure b : Decode β) it [] b it :=
  ⟨rfl, fun cur _ h => ⟨cur, rfl, h⟩⟩

theorem bind {x : Decode β} {f : β → Decode γ} {b : β} {c : γ} (hx : Takes m x it vs b it')
    (hf : Takes m (f b) it' ws c it'') : Takes m (x >>= f) it (vs ++ ws) c it'' := by
  refine ⟨hf.1.trans hx.1, ?_⟩
  intro cur rest h
  rw [List.append_assoc] at h
  obtain ⟨cur', hrun, hahead⟩ := hx.2 cur (ws ++ rest) h
  obtain ⟨cur'', hrun', hlast⟩ := hf.2 cur' rest (hx.1 ▸ hahead)
  refine ⟨cur'', ?_, hx.1 ▸ hlast⟩
  change (x m _).bind (fun r => f r.1 m r.2) = _
  rw [hrun]
  exact hrun'

theorem getIter {f : PackedIter → Decode γ} {c : γ}
    (hf : ∀ cur, Takes m (f { it with cur := cur }) it vs c it') :
    Takes m (Xhook.getIter >>= f) it vs c it' :=
  ⟨(hf it.cur).1, fun cur rest h => (hf cur).2 cur rest h⟩

theorem setIter {f : PackedIter → PackedIter}
    (hf : ∀ it cur, f { it with cur := cur } = { f it with cur := cur })
    (hstop : ∀ it, (f it).stop = it.stop) : Takes m (Xhook.setIter f) it [] () (f it) := by
  refine ⟨hstop it, ?_⟩
  intro cur rest h
  refine ⟨cur, ?_, h⟩
  rw [← hf]
  rfl

theorem failIf {c : Bool} (h : c = false) : Takes m (Xhook.failIf c) it [] () it := by
  rw [h]
  exact ⟨rfl, fun cur _ h => ⟨cur, rfl, h⟩⟩

theorem sleb128Next (it : PackedIter) (v : ℤ) :
    Takes m Xhook.sleb128Next it [v] (BitVec.ofInt 32 v) it := by
  refine ⟨rfl, ?_⟩
  rintro cur rest ⟨bytes, henc, hbytes, hstop⟩
  cases henc with
  | @cons bs bytes _ _ hv hlimit hrest =>
      rw [List.length_append] at hstop
      obtain ⟨hfirst, hlast⟩ := stored_append.mp hbytes
      have hread : sleb128 m (it.stop.toNat - cur.toNat) cur 0 (BitVec.ofNat 32 0) = _ :=
        sleb128_eq hv hfirst (by omega) (by decide)
      refine ⟨cur + BitVec.ofNat 32 bs.length, ?_, bytes, hrest, hlast, ?_⟩
      · simp only [Nat.cast_zero, pow_zero, one_mul, zero_add] at hread
        change (sleb128 m (it.stop.toNat - cur.toNat) cur 0 (BitVec.ofNat 32 0)).map _ = _
        rw [hread]
        rfl
      · have hle := it.stop.isLt
        rw [BitVec.toNat_add, BitVec.toNat_ofNat]
        omega

theorem readInto {set : SizeT → PackedIter → PackedIter} {v : ℤ}
    (hset : ∀ val it cur, set val { it with cur := cur } = { set val it with cur := cur })
    (hstop : ∀ val it, (set val it).stop = it.stop) :
    Takes m (Xhook.readInto set) it [v] () (set (BitVec.ofInt 32 v) it) :=
  (sleb128Next it v).bind (setIter (hset _) (hstop _))

theorem when {c : Bool} {x : Decode Unit} {v : ℤ} (hx : c = true → Takes m x it [v] () it') :
    Takes m (Decode.when c x) it (present c v) () (if c then it' else it) := by
  cases c
  · exact pure ()
  · exact hx rfl

theorem when_setIter {c : Bool} {f : PackedIter → PackedIter}
    (hf : ∀ it cur, f { it with cur := cur } = { f it with cur := cur })
    (hstop : ∀ it, (f it).stop = it.stop) :
    Takes m (Decode.when c (Xhook.setIter f)) it [] () (if c then f it else it) := by
  cases c
  · exact pure ()
  · exact setIter hf hstop

end Takes

/-! ## Reading one relocation -/

/-- The iterator has read the head of the group and `n` of its relocations. -/
structure Inside (g : PackedGroup) (n : ℕ) (it : PackedIter) : Prop where
  size : it.groupSize = BitVec.ofNat 32 g.entries.length
  flags : it.groupFlags = BitVec.ofInt 32 g.flags
  delta : g.byDelta = true → it.groupROffsetDelta = BitVec.ofInt 32 g.delta
  info : g.byInfo = true → it.rInfo = BitVec.ofInt 32 g.info
  index : it.relocationGroupIndex = BitVec.ofNat 32 n

def PackedIter.origin (it : PackedIter) : Origin := ⟨it.rOffset, it.rAddend⟩

/-- What the head of a group makes of the rest of the iterator. -/
structure Entered (g : PackedGroup) (it it' : PackedIter) : Prop where
  origin : it'.origin = g.enter it.origin
  index : it'.relocationIndex = it.relocationIndex
  count : it'.relocationCount = it.relocationCount
  isUseRela : it'.isUseRela = it.isUseRela

section Reading

variable {m : Bytes} {it : PackedIter} {g : PackedGroup}

theorem Inside.has {n : ℕ} (h : Inside g n it) (flag : SizeT) : it.has flag = g.has flag := by
  rw [PackedIter.has, PackedGroup.has, h.flags]

theorem Inside.withCur {n : ℕ} (h : Inside g n it) (cur : Addr) :
    Inside g n { it with cur := cur } := ⟨h.size, h.flags, h.delta, h.info, h.index⟩

theorem takes_readGroupFields (m : Bytes) (it : PackedIter) (g : PackedGroup)
    (haddend : it.isUseRela = false → g.oneAddend = false) :
    ∃ it', Takes m readGroupFields it g.head () it' ∧ Inside g 0 it' ∧ Entered g it it' := by
  have hnums : g.head = [(g.entries.length : ℤ)] ++ ([g.flags] ++ (present g.byDelta g.delta ++
      (present g.byInfo g.info ++ ([] ++ (present g.oneAddend g.addend ++ ([] ++ [])))))) := by
    simp [PackedGroup.head]
  have hfail : (g.oneAddend && !it.isUseRela) = false := by
    cases hrela : it.isUseRela with
    | false => simp [haddend hrela]
    | true => simp
  rw [hnums]
  refine ⟨?_, ?_, ?_⟩
  rotate_left
  · refine Takes.bind (Takes.readInto (by simp) (by simp)) ?_
    refine Takes.bind (Takes.readInto (by simp) (by simp)) ?_
    refine Takes.getIter fun cur => ?_
    -- the flags are those of the group, wherever the decoder is
    refine Takes.bind (Takes.when (c := g.byDelta) fun _ => Takes.readInto (by simp) (by simp)) ?_
    refine Takes.bind (Takes.when (c := g.byInfo) fun _ => Takes.readInto (by simp) (by simp)) ?_
    refine Takes.bind (Takes.failIf hfail) ?_
    refine Takes.bind (Takes.when (c := g.oneAddend) fun _ => Takes.readInto (by simp) (by simp)) ?_
    refine Takes.bind (Takes.when_setIter (c := !g.has RELOCATION_GROUP_HAS_ADDEND_FLAG)
      (by simp) (by simp)) ?_
    exact Takes.setIter (f := fun it => { it with relocationGroupIndex := 0 }) (by simp) (by simp)
  · refine ⟨⟨?_, ?_, ?_, ?_, rfl⟩, ?_, ?_, ?_, ?_⟩
    · simp [apply_ite PackedIter.groupSize]
    · simp [apply_ite PackedIter.groupFlags]
    · intro h
      simp [apply_ite PackedIter.groupROffsetDelta, h]
    · intro h
      simp [apply_ite PackedIter.rInfo, h]
    · simp only [PackedIter.origin, PackedGroup.enter, apply_ite PackedIter.rOffset,
        apply_ite PackedIter.rAddend, ite_self, Origin.mk.injEq, true_and]
      cases hhas : g.has RELOCATION_GROUP_HAS_ADDEND_FLAG <;>
        simp [PackedGroup.oneAddend, hhas]
    · simp [apply_ite PackedIter.relocationIndex]
    · simp [apply_ite PackedIter.relocationCount]
    · simp [apply_ite PackedIter.isUseRela]

/-- The part of `packedRelocIteratorNext` after the head of a group. -/
def readEntry : Decode PackedRel := do
  let it ← getIter
  let by_delta := it.has RELOCATION_GROUPED_BY_OFFSET_DELTA_FLAG
  Decode.when by_delta (setIter fun it => { it with rOffset := it.rOffset + it.groupROffsetDelta })
  Decode.when (!by_delta) (readInto fun val it => { it with rOffset := it.rOffset + val })
  Decode.when (!it.has RELOCATION_GROUPED_BY_INFO_FLAG)
    (readInto fun val it => { it with rInfo := val })
  Decode.when (it.isUseRela && it.has RELOCATION_GROUP_HAS_ADDEND_FLAG &&
      !it.has RELOCATION_GROUPED_BY_ADDEND_FLAG)
    (readInto fun val it => { it with rAddend := it.rAddend + val })
  setIter fun it => { it with
    relocationIndex := it.relocationIndex + 1
    relocationGroupIndex := it.relocationGroupIndex + 1 }
  let it ← getIter
  pure ⟨⟨it.rOffset, it.rInfo⟩, if it.isUseRela then some it.rAddend else none⟩

theorem packedRelocIteratorNext_eq (m : Bytes) (it : PackedIter) :
    packedRelocIteratorNext m it =
      if it.relocationCount ≤ it.relocationIndex then none
      else (Decode.when (it.relocationGroupIndex == it.groupSize) readGroupFields m it).bind
        fun r => readEntry m r.2 := by
  change (Xhook.failIf (it.relocationCount ≤ it.relocationIndex) m it).bind _ = _
  simp only [Xhook.failIf, decide_eq_true_eq]
  split <;> rfl

def moved (g : PackedGroup) (e : PackedEntry) (it : PackedIter) : PackedIter :=
  { it with
    rOffset := (g.move it.isUseRela it.origin e).offset
    rInfo := g.infoOf e
    rAddend := (g.move it.isUseRela it.origin e).addend
    relocationIndex := it.relocationIndex + 1
    relocationGroupIndex := it.relocationGroupIndex + 1 }

theorem Inside.moved {n : ℕ} (h : Inside g n it) (e : PackedEntry) :
    Inside g (n + 1) (moved g e it) where
  size := h.size
  flags := h.flags
  delta := h.delta
  info hinfo := by simp [Xhook.moved, PackedGroup.infoOf, hinfo]
  index := by simp [Xhook.moved, h.index, BitVec.ofNat_add]

/-- The step of the offset is that of the group or the one that is read. -/
theorem takes_offset {n : ℕ} (h : Inside g n it) (e : PackedEntry) :
    ∃ it', Takes m (Decode.when g.byDelta
        (setIter fun it => { it with rOffset := it.rOffset + it.groupROffsetDelta })) it [] () it' ∧
      Takes m
        (Decode.when (!g.byDelta) (readInto fun val it => { it with rOffset := it.rOffset + val }))
        it' (present (!g.byDelta) e.delta) () { it with rOffset := it.rOffset + g.deltaOf e } := by
  cases hdelta : g.byDelta with
  | false =>
      refine ⟨it, Takes.pure (), ?_⟩
      simp only [PackedGroup.deltaOf, hdelta]
      exact Takes.readInto (by simp) (by simp)
  | true =>
      refine ⟨_, Takes.setIter (by simp) (by simp), ?_⟩
      simp only [PackedGroup.deltaOf, hdelta, h.delta hdelta]
      exact Takes.pure ()

theorem takes_info {n : ℕ} (h : Inside g n it) (e : PackedEntry) (o : Addr) :
    Takes m (Decode.when (!g.byInfo) (readInto fun val it => { it with rInfo := val }))
      { it with rOffset := o } (present (!g.byInfo) e.info) ()
      { it with rOffset := o, rInfo := g.infoOf e } := by
  cases hinfo : g.byInfo with
  | false =>
      simp only [PackedGroup.infoOf, hinfo]
      exact Takes.readInto (by simp) (by simp)
  | true =>
      simp only [PackedGroup.infoOf, hinfo, ↓reduceIte]
      rw [← h.info hinfo]
      exact Takes.pure ()

theorem takes_addend (c : Bool) (v : ℤ) :
    Takes m (Decode.when c (readInto fun val it => { it with rAddend := it.rAddend + val })) it
      (present c v) ()
      { it with rAddend := if c then it.rAddend + BitVec.ofInt 32 v else it.rAddend } := by
  cases c with
  | false => exact Takes.pure ()
  | true => exact Takes.readInto (by simp) (by simp)

theorem takes_readEntry {n : ℕ} (h : Inside g n it) (e : PackedEntry) :
    Takes m readEntry it (g.entry it.isUseRela e) (g.rel it.isUseRela it.origin e)
      (moved g e it) := by
  have hown : (it.isUseRela && it.has RELOCATION_GROUP_HAS_ADDEND_FLAG &&
      !it.has RELOCATION_GROUPED_BY_ADDEND_FLAG) = g.ownAddends it.isUseRela := by
    rw [h.has, h.has]
    rfl
  have hnums : g.entry it.isUseRela e = [] ++ (present (!g.byDelta) e.delta ++
      (present (!g.byInfo) e.info ++ (present (g.ownAddends it.isUseRela) e.addend ++
        ([] ++ [])))) := by
    simp [PackedGroup.entry]
  obtain ⟨it₁, hshared, hoffset⟩ := takes_offset (m := m) h e
  rw [hnums]
  refine Takes.getIter fun cur => ?_
  change Takes m (Decode.when (it.has RELOCATION_GROUPED_BY_OFFSET_DELTA_FLAG) _ >>= fun _ =>
    Decode.when (!it.has RELOCATION_GROUPED_BY_OFFSET_DELTA_FLAG) _ >>= fun _ =>
    Decode.when (!it.has RELOCATION_GROUPED_BY_INFO_FLAG) _ >>= fun _ =>
    Decode.when (it.isUseRela && it.has RELOCATION_GROUP_HAS_ADDEND_FLAG &&
      !it.has RELOCATION_GROUPED_BY_ADDEND_FLAG) _ >>= fun _ => _) _ _ _ _
  rw [hown, h.has, h.has]
  refine hshared.bind (hoffset.bind ((takes_info h e _).bind ((takes_addend _ e.addend).bind ?_)))
  refine Takes.bind (Takes.setIter (f := fun it => { it with
    relocationIndex := it.relocationIndex + 1
    relocationGroupIndex := it.relocationGroupIndex + 1 }) (by simp) (by simp)) ?_
  exact Takes.getIter fun cur' => Takes.pure _

end Reading

/-! ## Reading the table -/

section Table

variable {m : Bytes}

/-- The relocations of the rest of a group and of the groups after it, counted from `p`. -/
def restRels (rela : Bool) (p : Origin) (g : PackedGroup) (es : List PackedEntry)
    (gs : List PackedGroup) : List PackedRel :=
  g.relsFrom rela p es ++ groupRels rela (es.foldl (g.move rela) p) gs

def numbersFrom (rela : Bool) (g : PackedGroup) (es : List PackedEntry) (gs : List PackedGroup) :
    List ℤ :=
  es.flatMap (g.entry rela) ++ gs.flatMap (·.numbers rela)

/-- The iterator is in the group `g` with the relocations `es` ahead, and then the groups `gs`. -/
structure Reads (m : Bytes) (rela : Bool) (it : PackedIter) (g : PackedGroup)
    (es : List PackedEntry) (gs : List PackedGroup) : Prop where
  isUseRela : it.isUseRela = rela
  ahead : Ahead m it.stop it.cur (numbersFrom rela g es gs)
  count : it.relocationIndex.toNat + (es ++ gs.flatMap (·.entries)).length =
    it.relocationCount.toNat
  inside : es ≠ [] → ∃ n, Inside g n it ∧ n + es.length = g.entries.length
  done : es = [] → it.relocationGroupIndex = it.groupSize
  small : ∀ g' ∈ g :: gs, g'.entries.length < 2 ^ 32
  nonempty : ∀ g ∈ gs, g.entries ≠ []
  addend : rela = false → ∀ g ∈ gs, g.oneAddend = false

variable {rela : Bool} {it : PackedIter} {g g' : PackedGroup} {e : PackedEntry}
  {es : List PackedEntry} {gs : List PackedGroup}

theorem Reads.step (h : Reads m rela it g (e :: es) gs) :
    ∃ it', readEntry m it = some (g.rel rela it.origin e, it') ∧
      Reads m rela it' g es gs ∧ it'.origin = g.move rela it.origin e := by
  obtain ⟨n, hinside, hn⟩ := h.inside (by simp)
  obtain rfl := h.isUseRela
  have hahead := h.ahead
  rw [numbersFrom, List.flatMap_cons, List.append_assoc] at hahead
  obtain ⟨cur, hrun, hrest⟩ := (takes_readEntry hinside e).2 it.cur _ hahead
  have hcount := h.count
  have hsize := it.relocationCount.isLt
  have hsmall := h.small g (by simp)
  simp only [List.cons_append, List.length_cons] at hcount hn
  refine ⟨_, hrun, ⟨rfl, hrest, ?_, ?_, ?_, h.small, h.nonempty, h.addend⟩, rfl⟩
  · have hone : (it.relocationIndex + 1).toNat = it.relocationIndex.toNat + 1 := by bv_omega
    simp only [moved, hone]
    omega
  · intro _
    exact ⟨n + 1, (hinside.moved e).withCur cur, by omega⟩
  · rintro rfl
    have hindex := (hinside.moved e).index
    rw [List.length_nil, Nat.add_zero] at hn
    rw [hn] at hindex
    exact hindex.trans hinside.size.symm

theorem Reads.head (h : Reads m rela it g [] (g' :: gs)) :
    ∃ it', readGroupFields m it = some ((), it') ∧ Reads m rela it' g' g'.entries gs ∧
      it'.origin = g'.enter it.origin := by
  obtain rfl := h.isUseRela
  obtain ⟨it', htakes, hinside, hentered⟩ :=
    takes_readGroupFields m it g' (fun hrela => h.addend hrela g' (by simp))
  have hahead := h.ahead
  rw [numbersFrom, List.flatMap_nil, List.nil_append, List.flatMap_cons, PackedGroup.numbers,
    List.append_assoc] at hahead
  obtain ⟨cur, hrun, hrest⟩ := htakes.2 it.cur _ hahead
  have hlen := h.count
  refine ⟨_, hrun, ⟨hentered.isUseRela, ?_, ?_, ?_, ?_, ?_, ?_, ?_⟩, hentered.origin⟩
  · simp only [htakes.1]
    exact hrest
  · simp only [hentered.index, hentered.count]
    simpa using hlen
  · intro _
    exact ⟨0, hinside.withCur cur, by simp⟩
  · intro hnil
    exact absurd hnil (h.nonempty g' (by simp))
  · exact fun g₀ hg₀ => h.small g₀ (List.mem_cons_of_mem g hg₀)
  · exact fun g₀ hg₀ => h.nonempty g₀ (List.mem_cons_of_mem g' hg₀)
  · exact fun hfalse g₀ hg₀ => h.addend hfalse g₀ (List.mem_cons_of_mem g' hg₀)

theorem Reads.next_entry (h : Reads m rela it g es gs) (hes : es ≠ []) :
    packedRelocIteratorNext m it = readEntry m it := by
  obtain ⟨n, hinside, hn⟩ := h.inside hes
  have hpos : 0 < es.length := List.length_pos_of_ne_nil hes
  have hcount := h.count
  have hsmall := h.small g (by simp)
  rw [List.length_append] at hcount
  have hmore : ¬ it.relocationCount ≤ it.relocationIndex := by bv_omega
  have hindex : (it.relocationGroupIndex == it.groupSize) = false := by
    rw [hinside.index, hinside.size, beq_eq_false_iff_ne]
    intro heq
    have hnat := congrArg BitVec.toNat heq
    rw [BitVec.toNat_ofNat, BitVec.toNat_ofNat, Nat.mod_eq_of_lt (by omega),
      Nat.mod_eq_of_lt hsmall] at hnat
    omega
  rw [packedRelocIteratorNext_eq, if_neg hmore, hindex]
  rfl

/-- Between two groups the iterator goes on with a head. -/
theorem Reads.next_head (h : Reads m rela it g [] (g' :: gs)) :
    ∃ it', packedRelocIteratorNext m it = packedRelocIteratorNext m it' ∧
      Reads m rela it' g' g'.entries gs ∧ it'.origin = g'.enter it.origin := by
  obtain ⟨it', hrun, hreads, horigin⟩ := h.head
  have hne := h.nonempty g' (by simp)
  have hcount := h.count
  have hpos : 0 < g'.entries.length := List.length_pos_of_ne_nil hne
  rw [List.nil_append, List.flatMap_cons, List.length_append] at hcount
  have hmore : ¬ it.relocationCount ≤ it.relocationIndex := by bv_omega
  have hindex : (it.relocationGroupIndex == it.groupSize) = true := beq_iff_eq.mpr (h.done rfl)
  refine ⟨it', ?_, hreads, horigin⟩
  rw [hreads.next_entry hne, packedRelocIteratorNext_eq, if_neg hmore, hindex]
  change (readGroupFields m it).bind _ = _
  rw [hrun]
  rfl

theorem Reads.next_none (h : Reads m rela it g [] []) : packedRelocIteratorNext m it = none := by
  have hcount := h.count
  rw [packedRelocIteratorNext_eq, if_pos]
  simp only [List.flatMap_nil, List.append_nil, List.length_nil] at hcount
  bv_omega

/-- The rest of a group, given what comes after it. -/
theorem yields_entries
    (hrest : ∀ it, Reads m rela it g [] gs →
      Yields (packedRelocIteratorNext m) it (groupRels rela it.origin gs))
    (h : Reads m rela it g es gs) :
    Yields (packedRelocIteratorNext m) it (restRels rela it.origin g es gs) := by
  induction es generalizing it with
  | nil => exact hrest it h
  | cons e es ih =>
      obtain ⟨it', hrun, hreads, horigin⟩ := h.step
      rw [← h.next_entry (by simp)] at hrun
      have htail := ih hreads
      rw [horigin] at htail
      exact .cons hrun htail

theorem Reads.yields (h : Reads m rela it g es gs) :
    Yields (packedRelocIteratorNext m) it (restRels rela it.origin g es gs) := by
  induction gs generalizing it g es with
  | nil => exact yields_entries (fun it h => .nil h.next_none) h
  | cons g' gs ih =>
      refine yields_entries ?_ h
      intro it h
      obtain ⟨it', hnext, hreads, horigin⟩ := h.next_head
      have hall := ih hreads
      rw [horigin] at hall
      exact hall.congr hnext

theorem reads_init {t : PackedTable} {rel : Addr} {rel_sz : SizeT}
    (ht : t.Sound rela) (hahead : Ahead m (rel + rel_sz) rel (t.numbers rela)) :
    Reads m rela (PackedIter.init m rel rel_sz rela) ⟨0, 0, 0, 0, []⟩ [] t.groups ∧
      (PackedIter.init m rel rel_sz rela).origin = ⟨BitVec.ofInt 32 t.offset, 0⟩ := by
  obtain ⟨cur, hcount, hahead⟩ := (Takes.sleb128Next
    { cur := rel, stop := rel + rel_sz, isUseRela := rela } t.entries.length).2 rel _ hahead
  obtain ⟨cur', hoffset, hahead⟩ := (Takes.sleb128Next {
    cur := cur, stop := rel + rel_sz, relocationCount := BitVec.ofInt 32 t.entries.length,
    isUseRela := rela } t.offset).2 cur _ hahead
  have hinit : PackedIter.init m rel rel_sz rela = {
      cur := cur', stop := rel + rel_sz, relocationCount := BitVec.ofInt 32 t.entries.length,
      rOffset := BitVec.ofInt 32 t.offset, isUseRela := rela } := by
    rw [PackedIter.init]
    simp only [hcount, hoffset]
  have hlen := ht.count
  rw [hinit]
  refine ⟨⟨rfl, hahead, ?_, fun h => absurd rfl h, fun _ => rfl, ?_, ht.nonempty, ht.addend⟩, rfl⟩
  · rw [BitVec.ofInt_natCast, BitVec.toNat_ofNat, Nat.mod_eq_of_lt hlen]
    simp [PackedTable.entries]
  · intro g hg
    rcases List.mem_cons.mp hg with rfl | hg
    · simp
    · have hle : g.entries.length ≤ t.entries.length := by
        obtain ⟨gs₁, gs₂, hsplit⟩ := List.append_of_mem hg
        simp only [PackedTable.entries, hsplit, List.flatMap_append, List.flatMap_cons,
          List.length_append]
        omega
      omega

theorem yields_of_ahead {t : PackedTable} {rel : Addr} {rel_sz : SizeT}
    (ht : t.Sound rela) (hahead : Ahead m (rel + rel_sz) rel (t.numbers rela)) :
    Yields (packedRelocIteratorNext m) (PackedIter.init m rel rel_sz rela) (t.rels rela) := by
  obtain ⟨hreads, horigin⟩ := reads_init ht hahead
  rw [PackedTable.rels, ← horigin]
  exact hreads.yields

/-- Whatever grouping and whatever encodings of the numbers the linker has chosen, the iterator
yields the relocations of the table. -/
theorem packed_yields {t : PackedTable} {rel : Addr} {rel_sz : SizeT}
    {bytes : List (BitVec 8)} (ht : t.Sound rela) (henc : EncodesAll 5 bytes (t.numbers rela))
    (hbytes : Stored m rel bytes) (hsz : rel.toNat + bytes.length ≤ (rel + rel_sz).toNat) :
    Yields (packedRelocIteratorNext m) (PackedIter.init m rel rel_sz rela) (t.rels rela) :=
  yields_of_ahead ht ⟨bytes, henc, hbytes, hsz⟩

end Table

/-- Two relocations that share their info and their addend, one with an addend of its own, and
one without. -/
def withAddends : PackedTable where
  offset := 0x500
  groups := [⟨15, 4, 0x115, 0x10, [⟨0, 0, 0⟩, ⟨0, 0, 0⟩]⟩, ⟨8, 0, 0, 0, [⟨-8, 0x102, 5⟩]⟩,
    ⟨0, 0, 0, 0, [⟨4, 0x102, 0⟩]⟩]

def withAddendsBytes : List (BitVec 8) :=
  [0x04, 0x80, 0x0a, 0x02, 0x0f, 0x04, 0x95, 0x02, 0x10, 0x01, 0x08, 0x78, 0x82, 0x02, 0x05,
    0x01, 0x00, 0x04, 0x82, 0x02]

theorem withAddends_sound : withAddends.Sound true where
  count := by decide
  nonempty := by decide
  addend := by simp

theorem withAddends_encoded : EncodesAll 5 withAddendsBytes (withAddends.numbers true) := by
  have hnumbers : withAddends.numbers true =
      [4, 0x500, 2, 15, 4, 0x115, 0x10, 1, 8, -8, 0x102, 5, 1, 0, 4, 0x102] := by
    decide
  have hbytes : encodeAll [4, 0x500, 2, 15, 4, 0x115, 0x10, 1, 8, -8, 0x102, 5, 1, 0, 4, 0x102] =
      withAddendsBytes := by
    simp [encodeAll, encode, withAddendsBytes]
  rw [hnumbers, ← hbytes]
  exact encodesAll_encodeAll (k := 4) (by simp)

/-- The addend is moved by the first two groups and cleared by the last. -/
theorem packed_yields_withAddends :
    withAddends.rels true = [⟨⟨0x504, 0x115⟩, some 0x10⟩, ⟨⟨0x508, 0x115⟩, some 0x10⟩,
      ⟨⟨0x500, 0x102⟩, some 0x15⟩, ⟨⟨0x504, 0x102⟩, some 0⟩] ∧
    Yields (packedRelocIteratorNext (memoryOf [(0x1440, withAddendsBytes)]))
      (PackedIter.init (memoryOf [(0x1440, withAddendsBytes)]) 0x1440 20 true)
      (withAddends.rels true) :=
  ⟨by decide, packed_yields withAddends_sound withAddends_encoded (by decide +kernel) (by decide)⟩

/-! ## Packing and hooking -/

section Hooking

variable {π : Type*} {pages : Pages π} {elf : Elf} {p : Addr} {sz : SizeT}
  {symidx new_func old_func : Addr} {fuel : ℕ} {s : Vm π}

def Elf.packed (elf : Elf) (p : Addr) (sz : SizeT) : Elf :=
  { elf with reldyn := 0, relandroid := p, relandroidSz := sz }

theorem hashChain_packed (m : Bytes) (symbol : String) (n : ℕ) (i : SizeT) :
    (elf.packed p sz).hashChain m symbol n i = elf.hashChain m symbol n i := by
  induction n generalizing i with
  | zero => rfl
  | succ n ih => simp only [Elf.hashChain, ih]; rfl

theorem gnuChain_packed (m : Bytes) (symbol : String) (hash : SizeT) (n : ℕ) (i : SizeT) :
    (elf.packed p sz).gnuChain m symbol hash n i = elf.gnuChain m symbol hash n i := by
  induction n generalizing i with
  | zero => rfl
  | succ n ih => simp only [Elf.gnuChain, ih]; rfl

theorem lookup_packed (m : Bytes) (symbol : String) :
    (elf.packed p sz).xhElfFindSymidxByName m symbol fuel =
      elf.xhElfFindSymidxByName m symbol fuel := by
  simp only [Elf.xhElfFindSymidxByName, Elf.xhElfGnuHashLookup, Elf.xhElfGnuHashLookupDef,
    Elf.xhElfHashLookup, hashChain_packed, gnuChain_packed]
  rfl

def Tables.packed {m : Bytes} (tables : Tables elf m) (hp : p ≠ 0) {rels : List PackedRel}
    (h : Yields (packedRelocIteratorNext m) (PackedIter.init m p sz elf.isUseRela) rels) :
    Tables (elf.packed p sz) m where
  plt := tables.plt
  dyn := []
  android := rels
  plt_absent := tables.plt_absent
  dyn_absent _ := rfl
  android_absent h := absurd h hp
  plt_yields := tables.plt_yields
  dyn_yields h := absurd rfl h
  android_yields _ := h

theorem disjoint_packed {m : Bytes} {tables : Tables elf m} {hp : p ≠ 0}
    {rels : List PackedRel}
    {h : Yields (packedRelocIteratorNext m) (PackedIter.init m p sz elf.isUseRela) rels} {a : Addr}
    (hplain : Disjoint (word a) tables.bytes)
    (hpacked : Disjoint (word a) (packedBytes (elf.packed p sz))) :
    Disjoint (word a) (tables.packed hp h).bytes := by
  refine Set.disjoint_union_right.mpr ⟨hplain.mono_right ?_, hpacked⟩
  rintro b ⟨q, hq, hb⟩
  refine Or.inl ⟨q, ?_, hb⟩
  simp only [Tables.packed, List.append_nil] at hq
  exact List.mem_append_left _ hq

/-- Packing the relocations of an image changes nothing in what a hook does. -/
theorem hook_packed {tables : Tables elf s.mem} {symbol : String} {t : PackedTable}
    {bytes : List (BitVec 8)} (hplain : elf.relandroid = 0)
    (ht : t.Sound elf.isUseRela)
    (hrels : (t.rels elf.isUseRela).map (·.toRel) = tables.dyn.map (relAt s.mem))
    (henc : EncodesAll 5 bytes (t.numbers elf.isUseRela)) (hp : p ≠ 0)
    (hbytes : Stored s.mem p bytes) (hsz : p.toNat + bytes.length ≤ (p + sz).toNat)
    (hkeep : ∀ symidx, elf.xhElfFindSymidxByName s.mem symbol fuel = some (some symidx) →
      KeepsTables tables symidx old_func ∧
      (∀ a ∈ tables.relocs.slots elf symidx, Disjoint (word a) (packedBytes (elf.packed p sz))) ∧
      (old_func ≠ 0 → Disjoint (word old_func) (packedBytes (elf.packed p sz))))
    (hfuel : tables.Within fuel) :
    (elf.packed p sz).xhElfHook pages fuel (some symbol) new_func old_func s =
      elf.xhElfHook pages fuel (some symbol) new_func old_func s := by
  have hyields := yields_of_ahead ht ⟨bytes, henc, hbytes, hsz⟩
  have hlookup' : (elf.packed p sz).xhElfFindSymidxByName s.mem symbol fuel =
      elf.xhElfFindSymidxByName s.mem symbol fuel := lookup_packed s.mem symbol
  by_cases hpath : elf.pathname = none
  · have hpath' : (elf.packed p sz).pathname = none := hpath
    rw [Elf.xhElfHook, if_pos hpath', Elf.xhElfHook, if_pos hpath]
  · cases hlookup : elf.xhElfFindSymidxByName s.mem symbol fuel with
    | none =>
        simp only [Elf.xhElfHook, hlookup', hlookup]
        rfl
    | some found =>
        cases found with
        | none =>
            simp only [Elf.xhElfHook, hlookup', hlookup]
            rfl
        | some symidx =>
            obtain ⟨hkeep, hslots, hold⟩ := hkeep symidx hlookup
            have handroid : tables.android = [] := tables.android_absent hplain
            have hrelocs : (tables.packed hp hyields).relocs.dyn ++
                (tables.packed hp hyields).relocs.android =
                tables.relocs.dyn ++ tables.relocs.android := by
              simp [Tables.packed, Tables.relocs, hrels, handroid]
            have hslots' : (tables.packed hp hyields).relocs.slots (elf.packed p sz) symidx =
                tables.relocs.slots elf symidx := by
              simp only [Relocs.slots, hrelocs]
              rfl
            have hkeep' : KeepsTables (tables.packed hp hyields) symidx old_func := by
              constructor
              · intro a ha
                rw [hslots'] at ha
                exact disjoint_packed (hkeep.slots a ha) (hslots a ha)
              · exact fun hne => disjoint_packed (hkeep.old hne) (hold hne)
            have hfuel' : (tables.packed hp hyields).Within fuel := by
              have hlen : (t.rels elf.isUseRela).length = tables.dyn.length := by
                rw [← List.length_map, hrels, List.length_map]
              exact ⟨hfuel.1, Nat.zero_lt_of_lt hfuel.1, hlen ▸ hfuel.2.1⟩
            have hpath' : (elf.packed p sz).pathname ≠ none := hpath
            rw [xhElfHook_eq hpath' (hlookup'.trans hlookup) hkeep' hfuel',
              xhElfHook_eq hpath hlookup hkeep hfuel]
            simp only [Relocs.hook, hrelocs]
            rfl

end Hooking

/-- Two relocations four bytes apart that share their info, and one before them. -/
def twoGroups : PackedTable where
  offset := 0x500
  groups := [⟨3, 4, 0x115, 0, [⟨0, 0, 0⟩, ⟨0, 0, 0⟩]⟩, ⟨0, 0, 0, 0, [⟨-8, 0x102, 0⟩]⟩]

theorem twoGroups_rels : (twoGroups.rels false).map (·.toRel) =
    [⟨0x504, 0x115⟩, ⟨0x508, 0x115⟩, ⟨0x500, 0x102⟩] := by
  decide

theorem twoGroups_sound : twoGroups.Sound false where
  count := by decide
  nonempty := by decide
  addend _ := by decide

theorem twoGroups_encoded : EncodesAll 5
    [0x03, 0x80, 0x0a, 0x02, 0x03, 0x04, 0x95, 0x02, 0x01, 0x00, 0x78, 0x82, 0x02]
    (twoGroups.numbers false) := by
  have hnumbers : twoGroups.numbers false = [3, 0x500, 2, 3, 4, 0x115, 1, 0, -8, 0x102] := by
    decide
  have hbytes : encodeAll [3, 0x500, 2, 3, 4, 0x115, 1, 0, -8, 0x102] =
      [0x03, 0x80, 0x0a, 0x02, 0x03, 0x04, 0x95, 0x02, 0x01, 0x00, 0x78, 0x82, 0x02] := by
    simp [encodeAll, encode]
  rw [hnumbers, ← hbytes]
  exact encodesAll_encodeAll (k := 4) (by simp)

/-- `libf` with `twoGroups` in `.rel.dyn`, and also packed. -/
@[irreducible] def packedMemory : Bytes := memoryOf [
  (0x1101, [0x66, 0]),
  (0x1210, [1, 0, 0, 0]),
  (0x1300, [1, 0, 0, 0]),
  (0x1400, [0x04, 0x05, 0, 0, 0x15, 0x01, 0, 0, 0x08, 0x05, 0, 0, 0x15, 0x01, 0, 0,
    0x00, 0x05, 0, 0, 0x02, 0x01, 0, 0]),
  (0x1440, [0x03, 0x80, 0x0a, 0x02, 0x03, 0x04, 0x95, 0x02, 0x01, 0x00, 0x78, 0x82, 0x02]),
  (0x1500, [1, 0x70, 0, 0, 2, 0x70, 0, 0, 3, 0x70, 0, 0])]

theorem packedMemory_stored : Stored packedMemory 0x1440
    [0x03, 0x80, 0x0a, 0x02, 0x03, 0x04, 0x95, 0x02, 0x01, 0x00, 0x78, 0x82, 0x02] := by
  decide +kernel

/-- `libf` without `.rel.plt`, with the relocations of `twoGroups` in `.rel.dyn`. -/
def libfPlain : Elf := { libf with relplt := 0, reldyn := 0x1400, reldynSz := 24, relandroid := 0 }

def libfPlainTables : Tables libfPlain packedMemory where
  plt := []
  dyn := [0x1400, 0x1408, 0x1410]
  android := []
  plt_absent _ := rfl
  dyn_absent := by decide
  android_absent _ := rfl
  plt_yields h := absurd rfl h
  dyn_yields _ := yields_of_collect (n := 4) (by decide +kernel)
  android_yields h := absurd rfl h

theorem libfPlain_relocs : libfPlainTables.dyn.map (relAt packedMemory) =
    (twoGroups.rels false).map (·.toRel) := by
  rw [twoGroups_rels]
  decide +kernel

theorem libfPlain_slots : libfPlainTables.relocs.slots libfPlain 1 = [0x1504, 0x1508, 0x1500] := by
  rw [Tables.relocs, libfPlain_relocs, twoGroups_rels]
  decide

theorem libfPlain_apart {a : Addr} (ha : a ∈ ([0x1504, 0x1508, 0x1500, 0x2000] : List Addr)) :
    Disjoint (word a) libfPlainTables.bytes ∧
      Disjoint (word a) (packedBytes (libfPlain.packed 0x1440 13)) := by
  constructor
  · apply disjoint_bytes
    · revert a
      simp [libfPlainTables]
    · revert a
      simp [libfPlain, libf]
  · refine (disjoint_span (b := 0x1440) (k := 13) ?_ ?_).mono_right ?_
    · revert a
      simp
    · revert a
      simp
    · rintro b ⟨-, h₁, h₂⟩
      rw [mem_span]
      simp only [Elf.packed] at h₁ h₂
      bv_omega

theorem libfPlain_lookup :
    libfPlain.xhElfFindSymidxByName packedMemory "f" 4 = some (some 1) := by
  decide +kernel

theorem hook_packed_libf :
    (libfPlain.packed 0x1440 13).xhElfHook simplePages 4 (some "f") 0x3000 0x2000
      ⟨packedMemory, 1⟩ =
    libfPlain.xhElfHook simplePages 4 (some "f") 0x3000 0x2000 ⟨packedMemory, 1⟩ :=
  hook_packed (s := ⟨packedMemory, 1⟩) rfl twoGroups_sound
    libfPlain_relocs.symm twoGroups_encoded (by decide) packedMemory_stored (by decide)
    (fun symidx h => by
      obtain rfl : symidx = 1 := by simpa [libfPlain_lookup] using h.symm
      have hslots : ∀ a ∈ libfPlainTables.relocs.slots libfPlain 1,
          a ∈ ([0x1504, 0x1508, 0x1500, 0x2000] : List Addr) := by
        rw [libfPlain_slots]
        simp
      exact ⟨⟨fun a ha => (libfPlain_apart (hslots a ha)).1,
          fun _ => (libfPlain_apart (by simp)).1⟩,
        fun a ha => (libfPlain_apart (hslots a ha)).2, fun _ => (libfPlain_apart (by simp)).2⟩)
    ⟨by decide, by decide, by decide⟩

end Patrons.Xhook
