import Patrons.Library.Machine
import Patrons.Model.System

/-! # Concurrent resizes

Calls of `ResizeRegionSpace` on different threads. The reads and checks of a call are one
step. What it does under the region lock is another, and any call may run in between. -/

namespace Patrons

inductive ResizePc where
  | called
  /-- The checks passed, `ClampGrowthLimit` comes next. -/
  | checked
  | returned
  deriving DecidableEq

inductive ResizeStep where
  | check (φ : Site → Bool)
  | clamp (φ : Site → Bool)

structure Resizes (ι : Type*) where
  process : Process
  pc : ι → ResizePc := fun _ => .called
  /-- Since its checks, another call has clamped the space to less than it will. -/
  overtaken : ι → Bool := fun _ => false

variable (lib : ArtLib)

/-- What `ResizeRegionSpace` does once the checks have passed. -/
def applyResize (new_size : JInt) : Native Unit := do
  let g ← globals
  callClampGrowthLimit lib g.regionSpace_ new_size
  dumpLine (resizedLine new_size)

theorem resizeRegionSpace_eq (new_size : JInt) :
    resizeRegionSpace lib new_size = (do
      if ← resizeChecks new_size then do
        applyResize lib new_size
        pure true
      else
        pure false) := by
  simp only [resizeRegionSpace, applyResize, bind_assoc]

variable {ι : Type*} [DecidableEq ι]

/-- Call `i` is `ResizeRegionSpace(size i)`. -/
def resizes (size : ι → JInt) : Machine (Resizes ι) (ι × ResizeStep) where
  step s
    | (i, .check φ) =>
      if s.pc i = .called then
        ((resizeChecks (size i)).run φ s.process).result?.map fun r =>
          { process := r.2
            pc := Function.update s.pc i (if r.1 then .checked else .returned)
            overtaken := Function.update s.overtaken i false }
      else none
    | (i, .clamp φ) =>
      if s.pc i = .checked then
        ((applyResize lib (size i)).after φ s.process).map fun p =>
          { process := p
            pc := Function.update s.pc i .returned
            overtaken := fun j => s.overtaken j || decide (size i < size j) }
      else none

end Patrons
