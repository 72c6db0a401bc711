import Mathlib.Data.Int.Notation
import Mathlib.Data.Nat.Notation
import Mathlib.Data.Set.Defs
import Mathlib.Logic.Function.Basic

/-! # Protection of pages

A 32-bit address space has pages of 4096 bytes, and a mapped page has a protection. The kernel
changes it when it is asked to, or refuses. -/

namespace Patrons

namespace Paging

/-- What may be done with the bytes of a page. -/
structure Prot where
  read : Bool
  write : Bool
  exec : Bool
  deriving DecidableEq

namespace Prot

/-- `PROT_READ`, `PROT_WRITE` and `PROT_EXEC`. -/
def bits (p : Prot) : BitVec 32 :=
  (if p.read then 1 else 0) ||| (if p.write then 2 else 0) ||| (if p.exec then 4 else 0)

def ofBits (b : BitVec 32) : Prot := ⟨b.getLsbD 0, b.getLsbD 1, b.getLsbD 2⟩

def inter (p q : Prot) : Prot := ⟨p.read && q.read, p.write && q.write, p.exec && q.exec⟩

def readWrite : Prot := ⟨true, true, false⟩

@[simp] theorem ofBits_bits (p : Prot) : ofBits p.bits = p := by
  rcases p with ⟨_ | _, _ | _, _ | _⟩ <;> rfl

end Prot

/-- A mapped page; `α` is what else is known of it. -/
structure Page (α : Type*) where
  prot : Prot
  attr : α

abbrev Table (α : Type*) := BitVec 20 → Option (Page α)

def pageOf (a : BitVec 32) : BitVec 20 := a.extractLsb' 12 20

variable {α κ : Type*}

def Table.protect (t : Table α) (p : BitVec 20) (page : Page α) (prot : Prot) : Table α :=
  Function.update t p (some { page with prot := prot })

/-- `mprotect` of one page in the state `κ` of a kernel, with the value of `errno` for a failure.
`refused` has the pages for which a call has failed so far. -/
structure Protects (table : κ → Table α) (refused : κ → Set (BitVec 20))
    (mprotect : (start len prot : BitVec 32) → κ → Option ℤ × κ) : Prop where
  mono : ∀ start len prot c, refused c ⊆ refused (mprotect start len prot c).2
  success : ∀ start (prot : Prot) c, start &&& 0xfff = 0 →
    (mprotect start 4096 prot.bits c).1 = none →
      ∃ page, table c (pageOf start) = some page ∧
        table (mprotect start 4096 prot.bits c).2 = (table c).protect (pageOf start) page prot
  failure : ∀ start (prot : Prot) c, start &&& 0xfff = 0 →
    (mprotect start 4096 prot.bits c).1 ≠ none →
      table (mprotect start 4096 prot.bits c).2 = table c ∧
        pageOf start ∈ refused (mprotect start 4096 prot.bits c).2

/-- From one state to another every page has kept its protection, or a change of it was refused
and it has `prot` now. -/
structure Kept (table : κ → Table α) (refused : κ → Set (BitVec 20)) (prot : Prot) (c d : κ) :
    Prop where
  mono : refused c ⊆ refused d
  page : ∀ p, table d p = table c p ∨
    p ∈ refused d ∧ ∃ page, table c p = some page ∧ table d p = some { page with prot := prot }

variable {table : κ → Table α} {refused : κ → Set (BitVec 20)} {prot : Prot} {b c d : κ}

theorem Kept.refl (c : κ) : Kept table refused prot c c := ⟨fun _ h => h, fun _ => .inl rfl⟩

theorem Kept.trans (h : Kept table refused prot b c) (h' : Kept table refused prot c d) :
    Kept table refused prot b d := by
  refine ⟨fun p hp => h'.mono (h.mono hp), fun p => ?_⟩
  rcases h.page p with heq | ⟨hrefused, page, hpage, hprot⟩
  · rcases h'.page p with heq' | ⟨hrefused, page, hpage, hprot⟩
    · exact .inl (heq'.trans heq)
    · exact .inr ⟨hrefused, page, heq ▸ hpage, hprot⟩
  · refine .inr ⟨h'.mono hrefused, page, hpage, ?_⟩
    rcases h'.page p with heq' | ⟨-, page', hpage', hprot'⟩
    · exact heq'.trans hprot
    · obtain rfl := Option.some.inj (hprot.symm.trans hpage')
      exact hprot'

variable {mprotect : (start len prot : BitVec 32) → κ → Option ℤ × κ} {start : BitVec 32}
  {page : Page α}

namespace Protects

end Protects
end Paging
end Patrons
