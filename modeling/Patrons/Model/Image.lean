import Patrons.Model.Elf

/-! # Images whose tables are read

A mapped image keeps its tables, so what a hook finds in them is data of the image. Only
the slots are memory. -/

namespace Patrons.Xhook

open Loop

/-- The relocations that the three iterators of an image yield. -/
structure Relocs where
  plt : List Rel
  dyn : List Rel
  android : List Rel

namespace Relocs

variable {π : Type*} (pages : Pages π) (self : Elf) (symidx : SizeT) (relocs : Relocs)

def slots : List Addr :=
  (relocs.plt.filter (Elf.fits true symidx) ++
    (relocs.dyn ++ relocs.android).filter (Elf.fits false symidx)).map self.slot

/-- `xh_elf_hook` from the first loop on. -/
def hook (new_func old_func : Addr) (s : Vm π) : ℤ × Vm π :=
  let p := forEach (self.hookPlt pages new_func old_func symidx) relocs.plt s
  if p.1.getD 0 ≠ 0 then (p.1.getD 0, p.2)
  else
    let d := forEach (self.hookDyn pages new_func old_func symidx)
      (relocs.dyn ++ relocs.android) p.2
    (d.1.getD 0, d.2)

end Relocs
end Patrons.Xhook
