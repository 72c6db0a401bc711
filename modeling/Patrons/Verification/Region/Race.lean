import Patrons.Model.Resizes
import Patrons.Verification.Region.Contract
import Patrons.Verification.Region.Space

/-! # A resize while ART allocates

Between the checks of `ResizeRegionSpace` and the region lock other threads may take regions.
`ClampGrowthLimit__` looks at the used regions once more and answers nothing. -/

namespace Patrons

open Prog

/-! ## Allocations -/

/-- One allocation raises the index of the last region in use, up to the number of regions. -/
def Fields.alloc (f : Fields) (nonFree : SizeT) : Fields :=
  if f.nonFree ≤ nonFree ∧ nonFree ≤ f.numRegions then { f with nonFree := nonFree } else f

def Fields.allocs (f : Fields) (nonFree : List SizeT) : Fields := nonFree.foldl Fields.alloc f

def allocate (s : Process) (nonFree : SizeT) : Process :=
  if s.fields.nonFree ≤ nonFree ∧ nonFree ≤ s.fields.numRegions then allocRegions s nonFree else s

/-- `ResizeRegionSpace` with the allocations that happen before it holds the region lock. -/
def resizeAmid (lib : ArtLib) (new_size : JInt) (nonFree : List SizeT) : Native Bool := do
  if ← resizeChecks new_size then do
    Prog.modify fun s => nonFree.foldl allocate s
    applyResize lib new_size
    pure true
  else
    pure false

theorem resizeAmid_nil (lib : ArtLib) (new_size : JInt) :
    resizeAmid lib new_size [] = resizeRegionSpace lib new_size := by
  rw [resizeRegionSpace_eq]
  rfl

structure Allocated (s t : Process) : Prop where
  g : t.g = s.g
  calls : t.art.calls = s.art.calls

section
variable {s t : Process}

theorem allocated_allocate (s : Process) (n : SizeT) : Allocated s (allocate s n) := by
  unfold allocate
  split
  · exact ⟨by simp [allocRegions], by simp [allocRegions]⟩
  · exact ⟨rfl, rfl⟩

theorem fields_allocate (hl : Layout s.g) (n : SizeT) :
    (allocate s n).fields = s.fields.alloc n := by
  unfold allocate Fields.alloc
  split
  · exact fields_allocRegions hl n
  · rfl

theorem allocated_foldl (nonFree : List SizeT) (s : Process) :
    Allocated s (nonFree.foldl allocate s) := by
  induction nonFree generalizing s with
  | nil => exact ⟨rfl, rfl⟩
  | cons n ns ih =>
      have hfirst := allocated_allocate s n
      have hrest := ih (allocate s n)
      exact ⟨hrest.g.trans hfirst.g, hrest.calls.trans hfirst.calls⟩

theorem fields_foldl_allocate (hl : Layout s.g) (nonFree : List SizeT) :
    (nonFree.foldl allocate s).fields = s.fields.allocs nonFree := by
  induction nonFree generalizing s with
  | nil => rfl
  | cons n ns ih =>
      have hg := (allocated_allocate s n).g
      rw [List.foldl_cons, ih (hg ▸ hl), fields_allocate hl]
      rfl

/-! ## The answer of a resize -/

/-- The capacity is the size, and `SetHeapSize` and `SetSize` were called with it. -/
def Applied (s t : Process) (w : SizeT) : Prop :=
  t.fields.capacity = w ∧ ∃ cs, t.art.calls = cs ++ s.art.calls ∧
    (∃ bitmap, .setHeapSize bitmap w ∈ cs) ∧ ∃ memMap, .setSize memMap w ∈ cs

theorem calls_refused {g : Globals} (a : Art) (rs : Addr) {w : SizeT}
    (hw : ¬ (fieldsAt g a.mem).used < w) :
    (clamped g a rs w).calls =
      [.exclusiveUnlock (rs + offsetRegionLock), .threadCurrent,
        .exclusiveLock (rs + offsetRegionLock), .threadCurrent] ++ a.calls := by
  have hlocked : lockedClamped g (acquired a (rs + offsetRegionLock)) rs w =
      acquired a (rs + offsetRegionLock) := if_neg hw
  rw [clamped, hlocked]
  rfl

variable {lib : ArtLib} {φ : Site → Bool} {w : JInt} {nonFree : List SizeT} {r : Bool}

/-- The state in which the clamp of an accepted size runs. -/
theorem wp_resizeAmid (hl : Layout s.g) (w : JInt) (nonFree : List SizeT) :
    wp φ (resizeAmid lib w nonFree)
      (fun r t => r = s.fields.accepts w ∧
        if s.fields.accepts w then
          ∃ u log, Allocated s u ∧ u.fields = s.fields.allocs nonFree ∧
            t = (u.setArt (resizedArt lib u.g u.art w)).setLog log
        else t.art = s.art ∧ t.g = s.g)
      (fun _ => True) (fun _ => True) s := by
  simp only [resizeAmid, wp_bind]
  refine wp_mono (wp_resizeChecks w) ?_ (fun _ _ => trivial) fun _ _ => trivial
  intro r t hend
  rcases hend with ⟨-, rfl, rfl⟩
  cases ha : s.fields.accepts w with
  | false => simp
  | true =>
      have hstart := allocated_foldl nonFree (s.setLog (checksLog s.log s.fields w))
      have hfields := fields_foldl_allocate (s := s.setLog (checksLog s.log s.fields w))
        (by simpa using hl) nonFree
      simp only [if_true, wp_bind, wp_modify, applyResize, wp_globals, wp_dumpLine, wp_pure]
      generalize nonFree.foldl allocate (s.setLog (checksLog s.log s.fields w)) = u
        at hstart hfields
      have hg : u.g = s.g := by simpa using hstart.g
      have hcalls : u.art.calls = s.art.calls := by simpa using hstart.calls
      refine wp_mono (wp_callClampGrowthLimit lib (hg ▸ hl) w) ?_ (fun _ _ => trivial)
        fun _ _ => trivial
      intro _ t hend
      rcases hend with ⟨-, rfl⟩
      exact ⟨trivial, u, _, ⟨hg, hcalls⟩, by simpa using hfields, rfl⟩

theorem applied_resizedArt_iff {u : Process} {log : LogRing} (hl : Layout u.g)
    (hm : u.g.clampGrowthLimit = .own) (hcalls : u.art.calls = s.art.calls) :
    Applied s ((u.setArt (resizedArt lib u.g u.art w)).setLog log) w ↔ u.fields.used < w := by
  simp only [Applied, Process.fields, Process.g_setLog, Process.g_setArt, Process.art_setLog,
    Process.art_setArt, resizedArt, hm]
  constructor
  · intro h
    by_contra hw
    obtain ⟨-, cs, hcs, ⟨bitmap, hmem⟩, -⟩ := h
    rw [calls_refused u.art u.g.regionSpace_ hw, hcalls] at hcs
    obtain rfl := List.append_cancel_right hcs
    simp at hmem
  · intro hw
    obtain ⟨bitmap, memMap, hcs⟩ := calls_clamped u.art u.g.regionSpace_ w hw
    refine ⟨?_, _, hcalls ▸ hcs, ⟨bitmap, by simp⟩, memMap, by simp⟩
    rw [fieldsAt_clamped hl u.art _ w hw, capacity_clamp]

/-- Below Android P a resize answers right unless the used regions grow to its size between its
checks and the lock. -/
theorem answer_iff_applied_iff {dev : Device} (hs : AfterInit lib dev s)
    (hlevel : s.g.apiLevel < 28) (hr : (resizeAmid lib w nonFree).run φ s = .done r t) :
    (r = true ↔ Applied s t w) ↔
      ¬ (s.fields.accepts w = true ∧ w ≤ (s.fields.allocs nonFree).used) := by
  have hm : s.g.clampGrowthLimit = .own :=
    (hs.sound.1.prepared hs.sound.2).2.2.2.1.mpr hlevel
  obtain ⟨rfl, hend⟩ := wp_done (wp_resizeAmid hs.layout w nonFree) hr
  cases ha : s.fields.accepts w with
  | false =>
      rw [ha] at hend
      have hnot : ¬ Applied s t w := by
        rintro ⟨-, cs, hcs, ⟨bitmap, hmem⟩, -⟩
        rw [hend.1] at hcs
        obtain rfl : cs = [] := by simpa using hcs
        simp at hmem
      simp [hnot]
  | true =>
      rw [ha] at hend
      obtain ⟨u, log, hu, hfields, rfl⟩ := hend
      have happlied : Applied s ((u.setArt (resizedArt lib u.g u.art w)).setLog log) w ↔
          u.fields.used < w :=
        applied_resizedArt_iff (hu.g ▸ hs.layout) (hu.g ▸ hm) hu.calls
      rw [happlied, hfields]
      simp only [true_iff, true_and, BitVec.not_le]

theorem answer_iff_applied_iff_android81 :
    ∃ t, (resizeAmid Phone.art (256 * MB) [450, 500]).run Phone.noFault
          Phone.android81 = .done true t ∧
      ((true = true ↔ Applied Phone.android81 t (256 * MB)) ↔
        ¬ (Phone.android81.fields.accepts (256 * MB) = true ∧
          256 * MB ≤ (Phone.android81.fields.allocs [450, 500]).used)) := by
  have hs : AfterInit Phone.art (Phone.device 27) Phone.android81 :=
    Phone.afterInit (by decide +kernel)
  obtain ⟨_, t, ht, rfl⟩ := Outcome.exists_done
    (o := (resizeAmid Phone.art (256 * MB) [450, 500]).run Phone.noFault
      Phone.android81)
    (f := Prod.fst) (b := true) (by decide +kernel)
  exact ⟨t, ht, answer_iff_applied_iff hs (by decide +kernel) ht⟩

/-- ART takes 150 MB while the space is resized to 200 MB with 100 MB in use: the resize
answers `true` and the capacity is still 512 MB. -/
theorem overtaken_returns_true :
    ∃ t, AfterInit Phone.art (Phone.device 27) Phone.android81 ∧
      (resizeAmid Phone.art (200 * MB) [1000]).run Phone.noFault
        Phone.android81 = .done true t ∧
      t.fields.capacity = 512 * MB ∧ ¬ (true = true ↔ Applied Phone.android81 t (200 * MB)) := by
  have hs : AfterInit Phone.art (Phone.device 27) Phone.android81 :=
    Phone.afterInit (by decide +kernel)
  obtain ⟨r, t, ht, hfacts⟩ := Outcome.exists_done
    (o := (resizeAmid Phone.art (200 * MB) [1000]).run Phone.noFault
      Phone.android81)
    (f := fun r => (r.1, r.2.fields.capacity)) (b := (true, 512 * MB)) (by decide +kernel)
  simp only [Prod.mk.injEq] at hfacts
  rcases hfacts with ⟨rfl, hcap⟩
  refine ⟨t, hs, ht, hcap, fun h => ?_⟩
  have hnew := (h.mp rfl).1
  rw [hcap] at hnew
  exact absurd hnew (by decide)

end

end Patrons
