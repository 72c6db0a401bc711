import Patrons.Model.Image

/-! # What the loops of a hook read

A hook writes the slots of a symbol and `*old_func` while its iterators read the tables of
the image. The decoder of the packed table reads only the bytes ahead of it. -/

namespace Patrons.Xhook

open Bytes Loop

/-! ## Decoding -/

def Within (T : Set Addr) (it : PackedIter) : Prop := ∀ b, it.cur ≤ b → b < it.stop → b ∈ T

variable {β γ : Type} {T : Set Addr}

/-- The decoder reads nothing outside `T` and stays within it. -/
structure Local (T : Set Addr) (x : Decode β) : Prop where
  congr : ∀ {m m' : Bytes} {it : PackedIter}, Set.EqOn m m' T → Within T it → x m it = x m' it
  within : ∀ {m : Bytes} {it : PackedIter} {r : β × PackedIter},
    Within T it → x m it = some r → Within T r.2

theorem Within.congr {it it' : PackedIter} (h : Within T it) (hcur : it'.cur = it.cur)
    (hstop : it'.stop = it.stop) : Within T it' := by
  intro b h₁ h₂
  exact h b (hcur ▸ h₁) (hstop ▸ h₂)

namespace Local

theorem pure (b : β) : Local T (Pure.pure b : Decode β) where
  congr _ _ := rfl
  within hit h := by
    obtain rfl := Option.some.inj h
    exact hit

theorem bind {x : Decode β} {f : β → Decode γ} (hx : Local T x) (hf : ∀ b, Local T (f b)) :
    Local T (x >>= f) where
  congr {m m' it} hm hit := by
    change (x m it).bind (fun r => f r.1 m r.2) = (x m' it).bind (fun r => f r.1 m' r.2)
    rw [hx.congr hm hit]
    cases h : x m' it with
    | none => rfl
    | some r => exact (hf r.1).congr hm (hx.within hit h)
  within {m it r} hit h := by
    obtain ⟨u, hu, hr⟩ := Option.bind_eq_some_iff.mp h
    exact (hf u.1).within (hx.within hit hu) hr

theorem when {c : Bool} {x : Decode Unit} (hx : Local T x) : Local T (Decode.when c x) := by
  cases c
  · exact pure ()
  · exact hx

theorem failIf (c : Bool) : Local T (Xhook.failIf c) where
  congr _ _ := rfl
  within hit h := by
    simp only [Xhook.failIf, Option.ite_none_left_eq_some, Option.some.injEq] at h
    rw [← h.2]
    exact hit

theorem getIter : Local T Xhook.getIter where
  congr _ _ := rfl
  within hit h := by
    obtain rfl := Option.some.inj h
    exact hit

theorem setIter {f : PackedIter → PackedIter} (hcur : ∀ it, (f it).cur = it.cur)
    (hstop : ∀ it, (f it).stop = it.stop) : Local T (Xhook.setIter f) where
  congr _ _ := rfl
  within {m it r} hit h := by
    obtain rfl := Option.some.inj h
    exact hit.congr (hcur it) (hstop it)

end Local

theorem sleb128_congr {m m' : Bytes} {stop : Addr} {n : ℕ} {cur : Addr}
    (hT : ∀ b, cur ≤ b → b < stop → m b = m' b) (hn : cur.toNat + n ≤ stop.toNat)
    (shift : ℕ) (value : SizeT) : sleb128 m n cur shift value = sleb128 m' n cur shift value := by
  induction n generalizing cur shift value with
  | zero => rfl
  | succ n ih =>
      have hbyte : m cur = m' cur := hT cur (BitVec.le_refl cur) (by bv_omega)
      have hrest : ∀ b, cur + 1 ≤ b → b < stop → m b = m' b := by
        intro b h₁ h₂
        exact hT b (by bv_omega) h₂
      rw [sleb128, sleb128, hbyte]
      simp only [ih hrest (by bv_omega)]

theorem le_of_sleb128 {m : Bytes} {stop : Addr} {n : ℕ} {cur : Addr} {shift : ℕ} {value : SizeT}
    {r : SizeT × Addr} (hn : cur.toNat + n ≤ stop.toNat)
    (h : sleb128 m n cur shift value = some r) : cur ≤ r.2 := by
  induction n generalizing cur shift value with
  | zero => simp [sleb128] at h
  | succ n ih =>
      have hnext : cur ≤ cur + 1 := by bv_omega
      simp only [sleb128] at h
      split at h
      · exact BitVec.le_trans hnext (ih (by bv_omega) h)
      · split at h <;> obtain rfl := Option.some.inj h <;> exact hnext

theorem local_sleb128Next : Local T sleb128Next where
  congr {m m' it} hm hit := by
    by_cases h : it.cur ≤ it.stop
    · have hT : ∀ b, it.cur ≤ b → b < it.stop → m b = m' b := fun b h₁ h₂ => hm (hit b h₁ h₂)
      rw [sleb128Next, sleb128Next, sleb128_congr hT (by bv_omega)]
    · have hn : it.stop.toNat - it.cur.toNat = 0 := by bv_omega
      rw [sleb128Next, sleb128Next, hn]
      rfl
  within {m it r} hit h := by
    obtain ⟨u, hu, hr⟩ := Option.map_eq_some_iff.mp h
    rw [← hr]
    intro b h₁ h₂
    refine hit b ?_ h₂
    by_cases hle : it.cur ≤ it.stop
    · have hn : it.cur.toNat + (it.stop.toNat - it.cur.toNat) ≤ it.stop.toNat := by bv_omega
      exact BitVec.le_trans (le_of_sleb128 hn hu) h₁
    · have hn : it.stop.toNat - it.cur.toNat = 0 := by bv_omega
      rw [hn] at hu
      simp [sleb128] at hu

theorem local_readInto {set : SizeT → PackedIter → PackedIter}
    (hcur : ∀ v it, (set v it).cur = it.cur) (hstop : ∀ v it, (set v it).stop = it.stop) :
    Local T (readInto set) :=
  local_sleb128Next.bind fun v => .setIter (hcur v) (hstop v)

theorem local_readGroupFields : Local T readGroupFields := by
  refine (local_readInto (by simp) (by simp)).bind fun _ => ?_
  refine (local_readInto (by simp) (by simp)).bind fun _ => ?_
  refine Local.getIter.bind fun it => ?_
  refine (local_readInto (by simp) (by simp)).when.bind fun _ => ?_
  refine (local_readInto (by simp) (by simp)).when.bind fun _ => ?_
  refine (Local.failIf _).bind fun _ => ?_
  refine (local_readInto (by simp) (by simp)).when.bind fun _ => ?_
  refine (Local.setIter (by simp) (by simp)).when.bind fun _ => ?_
  exact .setIter (by simp) (by simp)

theorem local_packedRelocIteratorNext : Local T packedRelocIteratorNext := by
  refine Local.getIter.bind fun it => ?_
  refine (Local.failIf _).bind fun _ => ?_
  refine local_readGroupFields.when.bind fun _ => ?_
  refine Local.getIter.bind fun it => ?_
  refine (Local.setIter (by simp) (by simp)).when.bind fun _ => ?_
  refine (local_readInto (by simp) (by simp)).when.bind fun _ => ?_
  refine (local_readInto (by simp) (by simp)).when.bind fun _ => ?_
  refine (local_readInto (by simp) (by simp)).when.bind fun _ => ?_
  refine (Local.setIter (by simp) (by simp)).bind fun _ => ?_
  exact Local.getIter.bind fun it => .pure _

/-! ## The tables of an image -/

/-- What the iterators of `elf` yield in a memory. A section that is absent has no entries. -/
structure Tables (elf : Elf) (m : Bytes) where
  plt : List Addr
  dyn : List Addr
  android : List PackedRel
  plt_absent : elf.relplt = 0 → plt = []
  dyn_absent : elf.reldyn = 0 → dyn = []
  android_absent : elf.relandroid = 0 → android = []
  plt_yields : elf.relplt ≠ 0 →
    Yields PlainIter.next (PlainIter.init elf.relplt elf.relpltSz elf.isUseRela) plt
  dyn_yields : elf.reldyn ≠ 0 →
    Yields PlainIter.next (PlainIter.init elf.reldyn elf.reldynSz elf.isUseRela) dyn
  android_yields : elf.relandroid ≠ 0 →
    Yields (packedRelocIteratorNext m)
      (PackedIter.init m elf.relandroid elf.relandroidSz elf.isUseRela) android

def packedBytes (elf : Elf) : Set Addr :=
  {b | elf.relandroid ≠ 0 ∧ elf.relandroid ≤ b ∧ b < elf.relandroid + elf.relandroidSz}

namespace Tables

variable {elf : Elf} {m : Bytes} (tables : Tables elf m)

def relocs : Relocs where
  plt := tables.plt.map (relAt m)
  dyn := tables.dyn.map (relAt m)
  android := tables.android.map (·.toRel)

def bytes : Set Addr := {b | ∃ p ∈ tables.plt ++ tables.dyn, b ∈ span p 8} ∪ packedBytes elf

def Within (fuel : ℕ) : Prop :=
  tables.plt.length < fuel ∧ tables.dyn.length < fuel ∧ tables.android.length < fuel

end Tables

theorem disjoint_bytes {elf : Elf} {m : Bytes} {tables : Tables elf m} {a : Addr} {n : ℕ}
    (hentries : ∀ p ∈ tables.plt ++ tables.dyn, 8 ≤ (a - p).toNat ∧ n ≤ (p - a).toNat)
    (hpacked : elf.relandroidSz.toNat ≤ (a - elf.relandroid).toNat ∧
      n ≤ (elf.relandroid - a).toNat) : Disjoint (span a n) tables.bytes := by
  refine Set.disjoint_union_right.mpr ⟨?_, ?_⟩
  · rw [Set.disjoint_left]
    rintro b hb ⟨p, hp, hbp⟩
    obtain ⟨h₁, h₂⟩ := hentries p hp
    exact Set.disjoint_left.mp (disjoint_span h₁ h₂) hb hbp
  · refine (disjoint_span hpacked.1 hpacked.2).mono_right ?_
    rintro b ⟨-, h₁, h₂⟩
    rw [mem_span]
    bv_omega

theorem relAt_congr {m m' : Bytes} {p : Addr} (h : Set.EqOn m m' (span p 8)) :
    relAt m p = relAt m' p := by
  have hoffset : loadWord m p = loadWord m' p := by
    refine load_congr (h.mono ?_)
    intro b hb
    rw [mem_span] at hb ⊢
    omega
  have hinfo : loadWord m (p + 4) = loadWord m' (p + 4) := by
    refine load_congr (h.mono ?_)
    intro b hb
    rw [mem_span] at hb ⊢
    bv_omega
  rw [relAt, relAt, hoffset, hinfo]

theorem PackedIter.init_congr {m m' : Bytes} {rel : Addr} {rel_sz : SizeT} (is_use_rela : Bool)
    (hT : ∀ b, rel ≤ b → b < rel + rel_sz → b ∈ T) (hm : Set.EqOn m m' T) :
    PackedIter.init m rel rel_sz is_use_rela = PackedIter.init m' rel rel_sz is_use_rela ∧
      Xhook.Within T (PackedIter.init m' rel rel_sz is_use_rela) := by
  have hstart : Xhook.Within T { cur := rel, stop := rel + rel_sz, isUseRela := is_use_rela } := hT
  have hend : ∀ it : PackedIter, Xhook.Within T it.atEnd := by
    intro it b h₁ h₂
    simp only [PackedIter.atEnd] at h₁ h₂
    split at h₁ <;> bv_omega
  simp only [PackedIter.init]
  rw [local_sleb128Next.congr hm hstart]
  cases hcount : sleb128Next m' { cur := rel, stop := rel + rel_sz, isUseRela := is_use_rela } with
  | none => exact ⟨rfl, hend _⟩
  | some r =>
      have hit : Xhook.Within T { r.2 with relocationCount := r.1 } :=
        (local_sleb128Next.within hstart hcount).congr rfl rfl
      simp only
      rw [local_sleb128Next.congr hm hit]
      cases hoffset : sleb128Next m' { r.2 with relocationCount := r.1 } with
      | none => exact ⟨rfl, hend _⟩
      | some u => exact ⟨rfl, (local_sleb128Next.within hit hoffset).congr rfl rfl⟩

/-! ## What a hook writes -/

variable {π : Type*} {pages : Pages π} {self : Elf} {W : Set Addr}

theorem eqOn_saveOld {old_func : Addr} {v : SizeT} {m : Bytes}
    (h : old_func ≠ 0 → Disjoint (word old_func) W) : Set.EqOn (saveOld old_func v m) m W := by
  unfold saveOld
  split
  · rename_i hne
    exact eqOn_store_of_disjoint (h hne)
  · exact Set.eqOn_refl m W

namespace Elf

theorem eqOn_replaceFunction {addr new_func old_func : Addr} {s : Vm π}
    (haddr : Disjoint (word addr) W) (hold : old_func ≠ 0 → Disjoint (word old_func) W) :
    Set.EqOn (self.xhElfReplaceFunction pages addr new_func old_func s).2.mem s.mem W := by
  unfold xhElfReplaceFunction
  split
  · exact Set.eqOn_refl _ W
  · simp only
    split
    · exact Set.eqOn_refl _ W
    · have hwritten : Set.EqOn
          (storeWord (saveOld old_func (loadWord s.mem addr) s.mem) addr new_func) s.mem W :=
        (eqOn_store_of_disjoint haddr).trans (eqOn_saveOld hold)
      split
      · split
        · exact Set.eqOn_refl _ W
        · exact hwritten
      · split
        · exact Set.eqOn_refl _ W
        · exact hwritten

theorem eqOn_findAndReplaceFunc {is_plt : Bool} {new_func old_func : Addr} {symidx : SizeT}
    {rel : Rel} {s : Vm π} (hslot : fits is_plt symidx rel → Disjoint (word (self.slot rel)) W)
    (hold : old_func ≠ 0 → Disjoint (word old_func) W) :
    Set.EqOn (self.xhElfFindAndReplaceFunc pages is_plt new_func old_func symidx rel s).2.2.mem
      s.mem W := by
  unfold xhElfFindAndReplaceFunc
  split
  · exact Set.eqOn_refl _ W
  · rename_i hfits
    simp only
    split
    · exact Set.eqOn_refl _ W
    · split
      · exact eqOn_saveOld hold
      · exact eqOn_replaceFunction (hslot (by simpa using hfits)) hold

end Elf

/-! ## From the tables to their entries -/

/-- The slots for a symbol and `*old_func` keep away from the tables. -/
structure KeepsTables {elf : Elf} {m : Bytes} (tables : Tables elf m) (symidx : SizeT)
    (old_func : Addr) : Prop where
  slots : ∀ a ∈ tables.relocs.slots elf symidx, Disjoint (word a) tables.bytes
  old : old_func ≠ 0 → Disjoint (word old_func) tables.bytes

namespace Relocs

variable {elf : Elf} {relocs : Relocs} {symidx : SizeT} {rel : Rel}

theorem mem_slots_plt (h : rel ∈ relocs.plt) (hfits : Elf.fits true symidx rel) :
    elf.slot rel ∈ relocs.slots elf symidx :=
  List.mem_map_of_mem (List.mem_append_left _ (List.mem_filter.mpr ⟨h, hfits⟩))

theorem mem_slots_dyn (h : rel ∈ relocs.dyn ++ relocs.android) (hfits : Elf.fits false symidx rel) :
    elf.slot rel ∈ relocs.slots elf symidx :=
  List.mem_map_of_mem (List.mem_append_right _ (List.mem_filter.mpr ⟨h, hfits⟩))

variable {new_func old_func : Addr} {s : Vm π}
  (hslots : ∀ a ∈ relocs.slots elf symidx, Disjoint (word a) W)
  (hold : old_func ≠ 0 → Disjoint (word old_func) W)

include hslots hold

theorem eqOn_hookPlt (h : rel ∈ relocs.plt) :
    Set.EqOn (elf.hookPlt pages new_func old_func symidx rel s).2.mem s.mem W :=
  Elf.eqOn_findAndReplaceFunc (fun hfits => hslots _ (mem_slots_plt h hfits)) hold

theorem eqOn_hookDyn (h : rel ∈ relocs.dyn ++ relocs.android) :
    Set.EqOn (elf.hookDyn pages new_func old_func symidx rel s).2.mem s.mem W :=
  Elf.eqOn_findAndReplaceFunc (fun hfits => hslots _ (mem_slots_dyn h hfits)) hold

/-- A hook writes the slots of its symbol and `*old_func` only. -/
theorem eqOn_hook :
    Set.EqOn (relocs.hook pages elf symidx new_func old_func s).2.mem s.mem W := by
  have hplt : Set.EqOn
      (forEach (elf.hookPlt pages new_func old_func symidx) relocs.plt s).2.mem s.mem W :=
    forEach_invariant (I := fun t : Vm π => Set.EqOn t.mem s.mem W)
      (fun rel hrel t ht => (eqOn_hookPlt hslots hold hrel).trans ht) (Set.eqOn_refl _ W)
  unfold hook
  simp only
  split
  · exact hplt
  · exact forEach_invariant (I := fun t : Vm π => Set.EqOn t.mem s.mem W)
      (fun rel hrel t ht => (eqOn_hookDyn hslots hold hrel).trans ht) hplt

end Relocs

section Sections

variable {elf : Elf} {m : Bytes} {tables : Tables elf m} {symidx new_func old_func : Addr}
  {fuel : ℕ} {s : Vm π}

theorem eqOn_bytes_hookPlt (hkeep : KeepsTables tables symidx old_func) {rel : Rel}
    (hrel : rel ∈ tables.relocs.plt) (hs : Set.EqOn s.mem m tables.bytes) :
    Set.EqOn (elf.hookPlt pages new_func old_func symidx rel s).2.mem m tables.bytes :=
  (Relocs.eqOn_hookPlt hkeep.slots hkeep.old hrel).trans hs

theorem eqOn_bytes_hookDyn (hkeep : KeepsTables tables symidx old_func) {rel : Rel}
    (hrel : rel ∈ tables.relocs.dyn ++ tables.relocs.android)
    (hs : Set.EqOn s.mem m tables.bytes) :
    Set.EqOn (elf.hookDyn pages new_func old_func symidx rel s).2.mem m tables.bytes :=
  (Relocs.eqOn_hookDyn hkeep.slots hkeep.old hrel).trans hs

theorem relAt_of_eqOn {p : Addr} (hp : p ∈ tables.plt ++ tables.dyn)
    (hs : Set.EqOn s.mem m tables.bytes) : relAt s.mem p = relAt m p := by
  refine relAt_congr (hs.mono ?_)
  intro b hb
  exact Or.inl ⟨p, hp, hb⟩

/-- A loop over the entries `ps` of a plain table, with a body that keeps the tables. -/
theorem plainSection_eq {hook : Rel → Vm π → Option ℤ × Vm π} {rel : Addr} {it : PlainIter}
    {ps : List Addr} (habsent : rel = 0 → ps = [])
    (hyields : rel ≠ 0 → Yields PlainIter.next it ps) (hsub : ps ⊆ tables.plt ++ tables.dyn)
    (hhook : ∀ p ∈ ps, ∀ t : Vm π, Set.EqOn t.mem m tables.bytes →
      Set.EqOn (hook (relAt m p) t).2.mem m tables.bytes)
    (hs : Set.EqOn s.mem m tables.bytes) (hfuel : ps.length < fuel) :
    (if rel = 0 then some (none, s)
      else whileNext (fun _ it => it.next) (fun p t => hook (relAt t.mem p) t) fuel it s) =
      some (forEach hook (ps.map (relAt m)) s) := by
  split
  · rename_i hzero
    rw [habsent hzero]
    rfl
  · rename_i hpresent
    rw [forEach_map]
    refine whileNext_eq_forEach (I := fun t : Vm π => Set.EqOn t.mem m tables.bytes)
      (J := fun _ => True) ?_ ?_ (hyields hpresent) trivial ?_ hs hfuel
    · exact fun _ _ _ _ => rfl
    · exact fun _ _ _ _ _ => trivial
    · intro p hp t ht
      rw [relAt_of_eqOn (hsub hp) ht]
      exact ⟨rfl, hhook p hp t ht⟩

theorem pltSection_eq (hkeep : KeepsTables tables symidx old_func)
    (hs : Set.EqOn s.mem m tables.bytes) (hfuel : tables.plt.length < fuel) :
    elf.pltSection pages fuel new_func old_func symidx s =
      some (forEach (elf.hookPlt pages new_func old_func symidx) tables.relocs.plt s) := by
  refine plainSection_eq tables.plt_absent tables.plt_yields (List.subset_append_left _ _) ?_
    hs hfuel
  intro p hp t ht
  exact eqOn_bytes_hookPlt hkeep (List.mem_map_of_mem hp) ht

theorem dynSection_eq (hkeep : KeepsTables tables symidx old_func)
    (hs : Set.EqOn s.mem m tables.bytes) (hfuel : tables.dyn.length < fuel) :
    elf.dynSection pages fuel new_func old_func symidx s =
      some (forEach (elf.hookDyn pages new_func old_func symidx) tables.relocs.dyn s) := by
  refine plainSection_eq tables.dyn_absent tables.dyn_yields (List.subset_append_right _ _) ?_
    hs hfuel
  intro p hp t ht
  exact eqOn_bytes_hookDyn hkeep (List.mem_append_left _ (List.mem_map_of_mem hp)) ht

theorem androidSection_eq (hkeep : KeepsTables tables symidx old_func)
    (hs : Set.EqOn s.mem m tables.bytes) (hfuel : tables.android.length < fuel) :
    elf.androidSection pages fuel new_func old_func symidx s =
      some (forEach (elf.hookDyn pages new_func old_func symidx) tables.relocs.android s) := by
  unfold Elf.androidSection
  split
  · rename_i habsent
    have hnil : tables.relocs.android = [] := by simp [Tables.relocs, tables.android_absent habsent]
    rw [hnil]
    rfl
  · rename_i hpresent
    have hT : ∀ b, elf.relandroid ≤ b → b < elf.relandroid + elf.relandroidSz →
        b ∈ packedBytes elf := fun b h₁ h₂ => ⟨hpresent, h₁, h₂⟩
    have hpacked : ∀ t : Vm π, Set.EqOn t.mem m tables.bytes → Set.EqOn t.mem m (packedBytes elf) :=
      fun t ht => ht.mono Set.subset_union_right
    obtain ⟨hinit, hwithin⟩ := PackedIter.init_congr elf.isUseRela hT (hpacked s hs)
    rw [hinit, Tables.relocs, forEach_map]
    refine whileNext_eq_forEach (I := fun t : Vm π => Set.EqOn t.mem m tables.bytes)
      (J := Within (packedBytes elf)) ?_ ?_ (tables.android_yields hpresent) hwithin ?_ hs hfuel
    · intro t it ht hit
      exact local_packedRelocIteratorNext.congr (hpacked t ht) hit
    · intro it rel it' hit h
      exact local_packedRelocIteratorNext.within hit h
    · intro rel hrel t ht
      have hrel' : rel.toRel ∈ tables.relocs.android := List.mem_map_of_mem hrel
      exact ⟨rfl, eqOn_bytes_hookDyn hkeep (List.mem_append_right _ hrel') ht⟩

/-- Only an error ends the loops outside `.rel.plt`. -/
theorem ne_zero_of_hookDyn {rels : List Rel} {r : ℤ}
    (h : (forEach (elf.hookDyn pages new_func old_func symidx) rels s).1 = some r) : r ≠ 0 := by
  refine forEach_result (P := fun q : ℤ => q ≠ 0) ?_ h
  intro rel t q hq
  simp only [Elf.hookDyn, Option.ite_none_right_eq_some, Option.some.injEq] at hq
  exact hq.2 ▸ hq.1

/-- A hook runs over the entries of its tables, which are those of the memory `m`. -/
theorem xhElfHook_of_eqOn {symbol : String} (hs : Set.EqOn s.mem m tables.bytes)
    (hpath : elf.pathname ≠ none)
    (hlookup : elf.xhElfFindSymidxByName s.mem symbol fuel = some (some symidx))
    (hkeep : KeepsTables tables symidx old_func) (hfuel : tables.Within fuel) :
    elf.xhElfHook pages fuel (some symbol) new_func old_func s =
      some (tables.relocs.hook pages elf symidx new_func old_func s) := by
  obtain ⟨hplt, hdyn, handroid⟩ := hfuel
  rw [Elf.xhElfHook, if_neg hpath]
  simp only [hlookup, Option.bind_some]
  rw [pltSection_eq hkeep hs hplt, Relocs.hook, orReturn, Option.bind_some]
  have hs₁ : Set.EqOn
      (forEach (elf.hookPlt pages new_func old_func symidx) tables.relocs.plt s).2.mem
      m tables.bytes :=
    forEach_invariant (I := fun t : Vm π => Set.EqOn t.mem m tables.bytes)
      (fun rel hrel t ht => eqOn_bytes_hookPlt hkeep hrel ht) hs
  generalize forEach (elf.hookPlt pages new_func old_func symidx) tables.relocs.plt s = p at hs₁ ⊢
  simp only
  split
  · rfl
  · rw [dynSection_eq hkeep hs₁ hdyn, orReturn, Option.bind_some, forEach_append]
    have hs₂ : Set.EqOn
        (forEach (elf.hookDyn pages new_func old_func symidx) tables.relocs.dyn p.2).2.mem
        m tables.bytes :=
      forEach_invariant (I := fun t : Vm π => Set.EqOn t.mem m tables.bytes)
        (fun rel hrel t ht => eqOn_bytes_hookDyn hkeep (List.mem_append_left _ hrel) ht) hs₁
    have herror : ∀ r, (forEach (elf.hookDyn pages new_func old_func symidx)
        tables.relocs.dyn p.2).1 = some r → r ≠ 0 := fun r h => ne_zero_of_hookDyn h
    generalize forEach (elf.hookDyn pages new_func old_func symidx) tables.relocs.dyn p.2 = d
      at hs₂ herror ⊢
    rcases d with ⟨_ | r, t⟩
    · simp only [Option.getD_none, ne_eq, not_true_eq_false, ↓reduceIte]
      rw [androidSection_eq hkeep hs₂ handroid, orReturn, Option.bind_some]
      generalize forEach (elf.hookDyn pages new_func old_func symidx) tables.relocs.android t = q
      split
      · rfl
      · rename_i hzero
        rw [not_not.mp hzero]
    · exact if_pos (herror r rfl)

/-- With its tables out of reach, the hook runs over the entries that they hold at the start. -/
theorem xhElfHook_eq {symbol : String} {tables : Tables elf s.mem} (hpath : elf.pathname ≠ none)
    (hlookup : elf.xhElfFindSymidxByName s.mem symbol fuel = some (some symidx))
    (hkeep : KeepsTables tables symidx old_func) (hfuel : tables.Within fuel) :
    elf.xhElfHook pages fuel (some symbol) new_func old_func s =
      some (tables.relocs.hook pages elf symidx new_func old_func s) :=
  xhElfHook_of_eqOn (Set.eqOn_refl _ _) hpath hlookup hkeep hfuel

end Sections

end Patrons.Xhook
