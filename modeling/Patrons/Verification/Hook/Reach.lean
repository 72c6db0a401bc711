import Patrons.Model.Image

/-! # The slots that a hook reaches

Which slots a hook reaches, and the code it returns, are decided by the relocations alone
where the protection of the pages can be changed. The hook then visits these slots in order. -/

namespace Patrons.Xhook

open Bytes Loop

/-- Reading and changing the protection of a page gives no error. -/
structure Pages.Succeed {π : Type*} (pages : Pages π) : Prop where
  get : ∀ addr pathname p, (pages.getAddrProtect addr pathname p).1.1 = 0
  set : ∀ addr prot p, (pages.setAddrProtect addr prot p).1 = 0

namespace Relocs

variable (elf : Elf) (symidx : SizeT)

/-- The slots that the loop over `.rel.plt` reaches, and its code. -/
def reachPlt : List Rel → List Addr × ℤ
  | [] => ([], 0)
  | rel :: rels =>
    if Elf.fits true symidx rel then
      if elf.slot rel < elf.baseAddr then ([], errnoFormat) else ([elf.slot rel], 0)
    else reachPlt rels

/-- The slots that the loops outside `.rel.plt` reach, and their code. -/
def reachDyn : List Rel → List Addr × ℤ
  | [] => ([], 0)
  | rel :: rels =>
    if Elf.fits false symidx rel then
      if elf.slot rel < elf.baseAddr then ([], errnoFormat)
      else (elf.slot rel :: (reachDyn rels).1, (reachDyn rels).2)
    else reachDyn rels

def reach (relocs : Relocs) : List Addr × ℤ :=
  let p := reachPlt elf symidx relocs.plt
  if p.2 ≠ 0 then p
  else
    let d := reachDyn elf symidx (relocs.dyn ++ relocs.android)
    (p.1 ++ d.1, d.2)

variable {elf symidx}

theorem reachPlt_sublist (rels : List Rel) :
    (reachPlt elf symidx rels).1.Sublist ((rels.filter (Elf.fits true symidx)).map elf.slot) := by
  induction rels with
  | nil => exact List.Sublist.refl _
  | cons rel rels ih =>
      rw [reachPlt]
      split
      · rename_i hfits
        rw [List.filter_cons_of_pos hfits, List.map_cons]
        split
        · exact List.nil_sublist _
        · exact List.singleton_sublist.mpr (List.mem_cons_self ..)
      · rename_i hfits
        rw [List.filter_cons_of_neg hfits]
        exact ih

theorem reachDyn_sublist (rels : List Rel) :
    (reachDyn elf symidx rels).1.Sublist ((rels.filter (Elf.fits false symidx)).map elf.slot) := by
  induction rels with
  | nil => exact List.Sublist.refl _
  | cons rel rels ih =>
      rw [reachDyn]
      split
      · rename_i hfits
        rw [List.filter_cons_of_pos hfits, List.map_cons]
        split
        · exact List.nil_sublist _
        · exact ih.cons_cons _
      · rename_i hfits
        rw [List.filter_cons_of_neg hfits]
        exact ih

theorem reach_sublist (relocs : Relocs) :
    (relocs.reach elf symidx).1.Sublist (relocs.slots elf symidx) := by
  rw [reach, slots, List.map_append]
  simp only
  split
  · exact (reachPlt_sublist _).trans (List.sublist_append_left _ _)
  · exact (reachPlt_sublist _).append (reachDyn_sublist _)

end Relocs

/-! ## Visits -/

variable {π : Type*} (pages : Pages π)

def Elf.visit (elf : Elf) (new_func old_func : Addr) (s : Vm π) (slot : Addr) : Vm π :=
  if new_func = 0 then { s with mem := saveOld old_func (loadWord s.mem slot) s.mem }
  else (elf.xhElfReplaceFunction pages slot new_func old_func s).2

variable {pages} {elf : Elf} {symidx new_func old_func : Addr}

theorem replaceFunction_fst (hpages : pages.Succeed) (addr : Addr) (s : Vm π) :
    (elf.xhElfReplaceFunction pages addr new_func old_func s).1 = 0 := by
  unfold Elf.xhElfReplaceFunction
  simp only [hpages.get, ne_eq, not_true_eq_false, ↓reduceIte]
  split
  · rfl
  · split <;> simp [hpages.set]

theorem replaceFunction_mem (hpages : pages.Succeed) (addr : Addr) (s : Vm π) :
    (elf.xhElfReplaceFunction pages addr new_func old_func s).2.mem =
      if loadWord s.mem addr = new_func then s.mem
      else storeWord (saveOld old_func (loadWord s.mem addr) s.mem) addr new_func := by
  unfold Elf.xhElfReplaceFunction
  simp only [hpages.get, ne_eq, not_true_eq_false, ↓reduceIte]
  split
  · rfl
  · split <;> simp [hpages.set]

theorem findAndReplaceFunc_eq (hpages : pages.Succeed) {is_plt : Bool} {rel : Rel}
    (hfits : Elf.fits is_plt symidx rel) (hbase : ¬elf.slot rel < elf.baseAddr) (s : Vm π) :
    elf.xhElfFindAndReplaceFunc pages is_plt new_func old_func symidx rel s =
      (0, true, elf.visit pages new_func old_func s (elf.slot rel)) := by
  unfold Elf.xhElfFindAndReplaceFunc Elf.visit
  simp only [hfits, Bool.not_true, Bool.false_eq_true, ↓reduceIte, if_neg hbase]
  split
  · rfl
  · rw [replaceFunction_fst hpages]

theorem findAndReplaceFunc_of_lt {is_plt : Bool} {rel : Rel} (hfits : Elf.fits is_plt symidx rel)
    (hbase : elf.slot rel < elf.baseAddr) (s : Vm π) :
    elf.xhElfFindAndReplaceFunc pages is_plt new_func old_func symidx rel s =
      (errnoFormat, true, s) := by
  unfold Elf.xhElfFindAndReplaceFunc
  simp [hfits, hbase]

theorem findAndReplaceFunc_of_not_fits {is_plt : Bool} {rel : Rel}
    (hfits : ¬Elf.fits is_plt symidx rel) (s : Vm π) :
    elf.xhElfFindAndReplaceFunc pages is_plt new_func old_func symidx rel s = (0, false, s) := by
  unfold Elf.xhElfFindAndReplaceFunc
  simp [hfits]

theorem forEach_hookPlt (hpages : pages.Succeed) (rels : List Rel) (s : Vm π) :
    ((forEach (elf.hookPlt pages new_func old_func symidx) rels s).1.getD 0,
      (forEach (elf.hookPlt pages new_func old_func symidx) rels s).2) =
    ((Relocs.reachPlt elf symidx rels).2,
      (Relocs.reachPlt elf symidx rels).1.foldl (elf.visit pages new_func old_func) s) := by
  induction rels generalizing s with
  | nil => rfl
  | cons rel rels ih =>
      rw [forEach, Relocs.reachPlt]
      by_cases hfits : Elf.fits true symidx rel
      · by_cases hbase : elf.slot rel < elf.baseAddr
        · rw [Elf.hookPlt, findAndReplaceFunc_of_lt hfits hbase, if_pos hfits, if_pos hbase]
          rfl
        · rw [Elf.hookPlt, findAndReplaceFunc_eq hpages hfits hbase, if_pos hfits, if_neg hbase]
          rfl
      · rw [Elf.hookPlt, findAndReplaceFunc_of_not_fits hfits, if_neg hfits]
        exact ih s

theorem forEach_hookDyn (hpages : pages.Succeed) (rels : List Rel) (s : Vm π) :
    ((forEach (elf.hookDyn pages new_func old_func symidx) rels s).1.getD 0,
      (forEach (elf.hookDyn pages new_func old_func symidx) rels s).2) =
    ((Relocs.reachDyn elf symidx rels).2,
      (Relocs.reachDyn elf symidx rels).1.foldl (elf.visit pages new_func old_func) s) := by
  induction rels generalizing s with
  | nil => rfl
  | cons rel rels ih =>
      rw [forEach, Relocs.reachDyn]
      by_cases hfits : Elf.fits false symidx rel
      · by_cases hbase : elf.slot rel < elf.baseAddr
        · rw [Elf.hookDyn, findAndReplaceFunc_of_lt hfits hbase, if_pos hfits, if_pos hbase]
          rfl
        · rw [Elf.hookDyn, findAndReplaceFunc_eq hpages hfits hbase, if_pos hfits, if_neg hbase]
          exact ih (elf.visit pages new_func old_func s (elf.slot rel))
      · rw [Elf.hookDyn, findAndReplaceFunc_of_not_fits hfits, if_neg hfits]
        exact ih s

/-- A hook visits the slots that it reaches, whatever it does there. -/
theorem hook_eq_reach (hpages : pages.Succeed) (relocs : Relocs) (s : Vm π) :
    relocs.hook pages elf symidx new_func old_func s =
      ((relocs.reach elf symidx).2,
        (relocs.reach elf symidx).1.foldl (elf.visit pages new_func old_func) s) := by
  have hplt : ((forEach (elf.hookPlt pages new_func old_func symidx) relocs.plt s).1.getD 0, _) =
      (_, _) := forEach_hookPlt hpages relocs.plt s
  obtain ⟨hcode, hstate⟩ := Prod.mk.inj hplt
  rw [Relocs.hook, Relocs.reach]
  simp only
  rw [hcode, hstate]
  split
  · rfl
  · rw [List.foldl_append]
    exact forEach_hookDyn hpages _ _

end Patrons.Xhook
