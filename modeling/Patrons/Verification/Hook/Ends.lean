import Patrons.Verification.Hook.Packed

/-! # The hook of an image returns

A packed table can hold anything, also what the hook has just written there: the iterator counts
its relocations, so that the loop ends. The loop over a plain table compares addresses, and ends
where the addresses do not wrap around. -/

namespace Patrons.Xhook

open Bytes Loop

/-! ## The packed table -/

/-- What `g` sees of the iterator afterwards is what `f` saw before. -/
def Carries {β γ : Type} (f g : PackedIter → γ) (x : Decode β) : Prop :=
  ∀ m it r, x m it = some r → g r.2 = f it

namespace Carries

variable {β γ δ : Type} {f g h : PackedIter → γ}

theorem pure (b : β) : Carries f f (Pure.pure b : Decode β) := by
  rintro m it r hr
  obtain rfl := Option.some.inj hr
  rfl

theorem bind {x : Decode β} {k : β → Decode δ} (hx : Carries f g x)
    (hk : ∀ b, Carries g h (k b)) : Carries f h (x >>= k) := by
  intro m it r hr
  obtain ⟨u, hu, hr⟩ := Option.bind_eq_some_iff.mp hr
  exact (hk u.1 m u.2 r hr).trans (hx m it u hu)

theorem when {c : Bool} {x : Decode Unit} (hx : Carries f f x) :
    Carries f f (Decode.when c x) := by
  cases c
  · exact pure ()
  · exact hx

theorem getIter : Carries f f Xhook.getIter := by
  intro m it r hr
  obtain rfl := Option.some.inj hr
  rfl

theorem setIter {set : PackedIter → PackedIter} (hset : ∀ it, g (set it) = f it) :
    Carries f g (Xhook.setIter set) := by
  intro m it r hr
  obtain rfl := Option.some.inj hr
  exact hset it

theorem failIf (c : Bool) : Carries f f (Xhook.failIf c) := by
  intro m it r hr
  simp only [Xhook.failIf, Option.ite_none_left_eq_some, Option.some.injEq] at hr
  rw [← hr.2]

theorem readInto {set : SizeT → PackedIter → PackedIter}
    (hcur : ∀ it cur, f { it with cur := cur } = f it) (hset : ∀ v it, f (set v it) = f it) :
    Carries f f (Xhook.readInto set) := by
  refine bind ?_ fun v => setIter (hset v)
  intro m it r hr
  obtain ⟨u, -, rfl⟩ := Option.map_eq_some_iff.mp hr
  exact hcur it u.2

end Carries

def place (it : PackedIter) : SizeT × SizeT := (it.relocationIndex, it.relocationCount)

def nextPlace (it : PackedIter) : SizeT × SizeT := (it.relocationIndex + 1, it.relocationCount)

theorem carries_readGroupFields : Carries nextPlace nextPlace readGroupFields := by
  refine (Carries.readInto (by simp [nextPlace]) (by simp [nextPlace])).bind fun _ => ?_
  refine (Carries.readInto (by simp [nextPlace]) (by simp [nextPlace])).bind fun _ => ?_
  refine Carries.getIter.bind fun it => ?_
  refine (Carries.readInto (by simp [nextPlace]) (by simp [nextPlace])).when.bind fun _ => ?_
  refine (Carries.readInto (by simp [nextPlace]) (by simp [nextPlace])).when.bind fun _ => ?_
  refine (Carries.failIf _).bind fun _ => ?_
  refine (Carries.readInto (by simp [nextPlace]) (by simp [nextPlace])).when.bind fun _ => ?_
  refine (Carries.setIter (by simp [nextPlace])).when.bind fun _ => ?_
  exact .setIter (by simp [nextPlace])

theorem carries_readEntry : Carries nextPlace place readEntry := by
  refine Carries.getIter.bind fun it => ?_
  refine (Carries.setIter (by simp [nextPlace])).when.bind fun _ => ?_
  refine (Carries.readInto (by simp [nextPlace]) (by simp [nextPlace])).when.bind fun _ => ?_
  refine (Carries.readInto (by simp [nextPlace]) (by simp [nextPlace])).when.bind fun _ => ?_
  refine (Carries.readInto (by simp [nextPlace]) (by simp [nextPlace])).when.bind fun _ => ?_
  refine (Carries.setIter (g := place) (by simp [place, nextPlace])).bind fun _ => ?_
  exact Carries.getIter.bind fun it => .pure _

/-- The iterator counts, whatever bytes it meets. -/
theorem place_of_next {m : Bytes} {it it' : PackedIter} {rel : PackedRel}
    (h : packedRelocIteratorNext m it = some (rel, it')) :
    it.relocationIndex < it.relocationCount ∧ place it' = nextPlace it := by
  rw [packedRelocIteratorNext_eq] at h
  obtain ⟨hmore, h⟩ := Option.ite_none_left_eq_some.mp h
  obtain ⟨r, hhead, hentry⟩ := Option.bind_eq_some_iff.mp h
  exact ⟨BitVec.not_le.mp hmore,
    (carries_readEntry m r.2 _ hentry).trans (carries_readGroupFields.when m it r hhead)⟩

/-! ## The loops -/

section Loops

variable {π : Type*} {pages : Pages π} {elf : Elf} {symidx new_func old_func : Addr} {fuel : ℕ}

/-- No entry of the plain table is the last of the address space. -/
def InReach (rel : Addr) (sz : SizeT) : Prop := (rel + sz).toNat + 12 ≤ 2 ^ 32

instance (rel : Addr) (sz : SizeT) : Decidable (InReach rel sz) :=
  inferInstanceAs (Decidable (_ ≤ _))

def PlainIter.left (it : PlainIter) : ℕ := it.stop.toNat - it.cur.toNat

theorem left_of_next {it it' : PlainIter} {p : Addr} (hstop : it.stop.toNat + 12 ≤ 2 ^ 32)
    (h : it.next = some (p, it')) : it'.stop.toNat + 12 ≤ 2 ^ 32 ∧ it'.left < it.left := by
  rw [PlainIter.next] at h
  obtain ⟨hmore, h⟩ := Option.ite_none_left_eq_some.mp h
  obtain ⟨-, rfl⟩ := Prod.mk.inj (Option.some.inj h)
  refine ⟨hstop, ?_⟩
  simp only [PlainIter.left]
  split <;> bv_omega

theorem plainSection_ends {hook : Addr → Vm π → Option ℤ × Vm π} {rel : Addr} {sz : SizeT}
    (hreach : rel ≠ 0 → InReach rel sz) (hfuel : 2 ^ 32 ≤ fuel) (s : Vm π) :
    ∃ r, (if rel = 0 then some (none, s)
      else whileNext (fun _ it => it.next) hook fuel (PlainIter.init rel sz elf.isUseRela) s) =
        some r := by
  split
  · exact ⟨_, rfl⟩
  · rename_i hne
    refine whileNext_ends (J := fun it : PlainIter => it.stop.toNat + 12 ≤ 2 ^ 32)
      (μ := PlainIter.left) ?_ (hreach hne) ?_ s
    · exact fun _ it p it' hi h => left_of_next hi h
    · have hlt := (rel + sz).isLt
      simp only [PlainIter.left, PlainIter.init]
      omega

def PackedIter.left (it : PackedIter) : ℕ := it.relocationCount.toNat - it.relocationIndex.toNat

theorem androidSection_ends (hfuel : 2 ^ 32 ≤ fuel) (s : Vm π) :
    ∃ r, elf.androidSection pages fuel new_func old_func symidx s = some r := by
  rw [Elf.androidSection]
  split
  · exact ⟨_, rfl⟩
  · refine whileNext_ends (J := fun _ => True) (μ := PackedIter.left) ?_ trivial ?_ s
    · intro t it rel it' _ h
      obtain ⟨hmore, hplace⟩ := place_of_next h
      obtain ⟨hindex, hcount⟩ := Prod.mk.inj hplace
      refine ⟨trivial, ?_⟩
      rw [PackedIter.left, PackedIter.left, hindex, hcount]
      bv_omega
    · generalize PackedIter.init s.mem elf.relandroid elf.relandroidSz elf.isUseRela = it
      have hlt := it.relocationCount.isLt
      rw [PackedIter.left]
      omega

/-- The hook returns from every memory in which the lookup does, also where its writes reach
the tables that it reads. -/
theorem xhElfHook_ends (hplt : elf.relplt ≠ 0 → InReach elf.relplt elf.relpltSz)
    (hdyn : elf.reldyn ≠ 0 → InReach elf.reldyn elf.reldynSz) {s : Vm π} {symbol : Option String}
    (hlookup : ∀ name, symbol = some name →
      ∃ found, elf.xhElfFindSymidxByName s.mem name fuel = some found)
    (hfuel : 2 ^ 32 ≤ fuel) :
    ∃ r, elf.xhElfHook pages fuel symbol new_func old_func s = some r := by
  have hreturn : ∀ (loop : Option (Option ℤ × Vm π)) (rest : Vm π → Option (ℤ × Vm π)),
      (∃ r, loop = some r) → (∀ t, ∃ r, rest t = some r) → ∃ r, orReturn loop rest = some r := by
    rintro loop rest ⟨r, rfl⟩ hrest
    rw [orReturn, Option.bind_some]
    split
    · exact ⟨_, rfl⟩
    · exact hrest r.2
  cases symbol with
  | none =>
      simp only [Elf.xhElfHook]
      split <;> exact ⟨_, rfl⟩
  | some name =>
      obtain ⟨found, hfound⟩ := hlookup name rfl
      simp only [Elf.xhElfHook, hfound, Option.bind_some]
      split
      · exact ⟨_, rfl⟩
      · cases found with
        | none => exact ⟨_, rfl⟩
        | some symidx =>
            refine hreturn _ _ (plainSection_ends hplt hfuel s) fun t => ?_
            refine hreturn _ _ (plainSection_ends hdyn hfuel t) fun u => ?_
            exact hreturn _ _ (androidSection_ends hfuel u) fun v => ⟨_, rfl⟩

end Loops

theorem xhElfHook_ends_libf :
    ∃ r, libf.xhElfHook simplePages (2 ^ 32) (some "f") 0x3000 0x2000 ⟨libfMemory, 1⟩ = some r :=
  xhElfHook_ends (fun _ => by decide) (fun _ => by decide)
    (fun name h => ⟨some 1, by
      obtain rfl := Option.some.inj h
      decide +kernel⟩)
    le_rfl

end Patrons.Xhook
