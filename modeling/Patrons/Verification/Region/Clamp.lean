import Mathlib.Tactic.Common
import Patrons.Model.Resize

/-! # What `ClampGrowthLimit__` does to memory -/

namespace Patrons

open Prog

/-! ## The fields of the region space -/

/-- The words behind the addresses that `NativeInit` computed. -/
structure Fields where
  begin_ : SizeT
  end_ : SizeT
  limit_ : SizeT
  numRegions : SizeT
  nonFree : SizeT
  deriving DecidableEq

def fieldsAt (g : Globals) (mem : Mem) : Fields where
  begin_ := mem g.begin_
  end_ := mem g.end_
  limit_ := mem g.limit_
  numRegions := mem g.numRegions_
  nonFree := mem g.nonFreeRegionIndexLimit_

def Process.fields (s : Process) : Fields := fieldsAt s.g s.art.mem

def Fields.capacity (f : Fields) : SizeT := f.limit_ - f.begin_

def Fields.used (f : Fields) : SizeT := f.nonFree * kRegionSize

/-- The cells that `ClampGrowthLimit__` writes are apart from each other and from every
cell that it reads. -/
structure Layout (g : Globals) : Prop where
  begin_ : g.begin_ = g.regionSpace_ + 0x14
  end_ : g.end_ = g.regionSpace_ + 0x18
  limit_ : g.limit_ = g.regionSpace_ + 0x1c
  numRegions_ : g.numRegions_ = g.regionSpace_ + g.offsetNumRegionsInRegionSpace
  nonFree : g.nonFreeRegionIndexLimit_ = g.regionSpace_ + g.offsetRegionLimitInRegionSpace
  apart : [g.begin_, g.end_, g.limit_, g.numRegions_, g.nonFreeRegionIndexLimit_].Nodup

theorem Layout.ne {g : Globals} (h : Layout g) :
    (g.begin_ ≠ g.numRegions_ ∧ g.begin_ ≠ g.limit_ ∧ g.begin_ ≠ g.end_) ∧
    (g.end_ ≠ g.numRegions_ ∧ g.end_ ≠ g.limit_) ∧
    (g.limit_ ≠ g.end_ ∧ g.numRegions_ ≠ g.limit_ ∧ g.numRegions_ ≠ g.end_) ∧
    g.nonFreeRegionIndexLimit_ ≠ g.numRegions_ ∧ g.nonFreeRegionIndexLimit_ ≠ g.limit_ ∧
    g.nonFreeRegionIndexLimit_ ≠ g.end_ := by
  have ha := h.apart
  simp only [List.nodup_cons, List.mem_cons, List.not_mem_nil, or_false, not_or] at ha
  obtain ⟨⟨h1, h2, h3, -⟩, ⟨h4, h5, h6⟩, ⟨h7, h8⟩, h9, -⟩ := ha
  exact ⟨⟨h3, h2, h1⟩, ⟨h5, h4⟩, ⟨Ne.symm h4, Ne.symm h7, Ne.symm h5⟩,
    Ne.symm h9, Ne.symm h8, Ne.symm h6⟩

/-! ## The effect of the clamp -/

def endMem (g : Globals) (mem : Mem) (new_capacity : SizeT) : Mem :=
  if new_capacity < mem g.end_ - mem g.begin_ then
    Function.update mem g.end_ (mem g.limit_)
  else mem

/-- The memory after the block under `new_capacity > used`. -/
def clampMem (g : Globals) (mem : Mem) (new_capacity : SizeT) : Mem :=
  endMem g (Function.update (Function.update mem g.numRegions_ (new_capacity / kRegionSize))
    g.limit_ (mem g.begin_ + new_capacity)) new_capacity

def Fields.clamp (f : Fields) (new_capacity : SizeT) : Fields :=
  { f with
    numRegions := new_capacity / kRegionSize
    limit_ := f.begin_ + new_capacity
    end_ := if new_capacity < f.end_ - f.begin_ then f.begin_ + new_capacity else f.end_ }

theorem fieldsAt_clampMem {g : Globals} (h : Layout g) (mem : Mem) (new_capacity : SizeT) :
    fieldsAt g (clampMem g mem new_capacity) = (fieldsAt g mem).clamp new_capacity := by
  obtain ⟨⟨h1, h2, h3⟩, ⟨h4, h5⟩, ⟨h6, h7, h8⟩, h9, h10, h11⟩ := h.ne
  unfold clampMem endMem Fields.clamp fieldsAt
  simp only [Function.update_self, Function.update_of_ne h1, Function.update_of_ne h2,
    Function.update_of_ne h4, Function.update_of_ne h5]
  split
  · simp only [Function.update_self, Function.update_of_ne h3, Function.update_of_ne h6,
      Function.update_of_ne h2, Function.update_of_ne h1, Function.update_of_ne h7,
      Function.update_of_ne h8, Function.update_of_ne h9, Function.update_of_ne h10,
      Function.update_of_ne h11]
  · simp only [Function.update_self, Function.update_of_ne h1, Function.update_of_ne h2,
      Function.update_of_ne h4, Function.update_of_ne h5, Function.update_of_ne h7,
      Function.update_of_ne h9, Function.update_of_ne h10]

/-! ## Where a clamp can fault -/

section
variable (φ : Site → Bool)

def endFaults (g : Globals) (mem : Mem) (new_capacity : SizeT) : Bool :=
  raises φ .clampEnd g.end_ || raises φ .clampSizeBegin g.begin_ ||
    (decide (new_capacity < mem g.end_ - mem g.begin_) &&
      (raises φ .clampNewEnd g.limit_ || raises φ .clampSetEnd g.end_))

def spaceFaults (g : Globals) (mem : Mem) (region_space : Addr) (new_capacity : SizeT) : Bool :=
  raises φ .clampNumRegions g.numRegions_ || raises φ .clampBegin g.begin_ ||
    raises φ .clampLimit g.limit_ || endFaults φ g mem new_capacity ||
    raises φ .clampBitmap (region_space + g.offsetSpaceBitmapInRegionSpace) ||
    raises φ .clampSetHeapSize g.setHeapSize ||
    raises φ .clampMemMap (region_space + offsetMemMap) || raises φ .clampSetSize g.setSize

/-- A SIGSEGV is raised before `ExclusiveLock` has returned. -/
def lockFaults (g : Globals) : Bool :=
  raises φ .lockThread g.threadCurrent || raises φ .lock g.exclusiveLock

def lockedFaults (g : Globals) (mem : Mem) (region_space : Addr) (new_capacity : SizeT) : Bool :=
  raises φ .clampUsed g.nonFreeRegionIndexLimit_ ||
    (decide ((fieldsAt g mem).used < new_capacity) && spaceFaults φ g mem region_space new_capacity)

def unlockFaults (g : Globals) : Bool :=
  raises φ .unlockThread g.threadCurrent || raises φ .unlock g.exclusiveUnlock

/-- A SIGSEGV is raised between the return of `ExclusiveLock` and that of
`ExclusiveUnlock`. -/
def criticalFaults (g : Globals) (mem : Mem) (region_space : Addr) (new_capacity : SizeT) :
    Bool :=
  lockedFaults φ g mem region_space new_capacity || unlockFaults φ g

end

/-! ## A clamp that completes -/

def spaceClamped (g : Globals) (a : Art) (region_space : Addr) (new_capacity : SizeT) : Art :=
  let mem := clampMem g a.mem new_capacity
  { a with
    mem := mem
    calls :=
      [.setSize (mem (region_space + offsetMemMap)) new_capacity,
        .setHeapSize (mem (region_space + g.offsetSpaceBitmapInRegionSpace)) new_capacity] ++
      a.calls }

def lockedClamped (g : Globals) (a : Art) (region_space : Addr) (new_capacity : SizeT) : Art :=
  if (fieldsAt g a.mem).used < new_capacity then spaceClamped g a region_space new_capacity
  else a

def acquired (a : Art) (mutex : Addr) : Art :=
  ((a.call .threadCurrent).setLocked mutex true).call (.exclusiveLock mutex)

def released (a : Art) (mutex : Addr) : Art :=
  ((a.call .threadCurrent).setLocked mutex false).call (.exclusiveUnlock mutex)

def clamped (g : Globals) (a : Art) (region_space : Addr) (new_capacity : SizeT) : Art :=
  released (lockedClamped g (acquired a (region_space + offsetRegionLock)) region_space
    new_capacity) (region_space + offsetRegionLock)

@[simp] theorem mem_acquired (a : Art) (m : Addr) : (acquired a m).mem = a.mem := rfl

@[simp] theorem locked_acquired (a : Art) (m : Addr) : (acquired a m).locked m = true := by
  simp [acquired]

@[simp] theorem mem_released (a : Art) (m : Addr) : (released a m).mem = a.mem := rfl

theorem locked_lockedClamped (g : Globals) (a : Art) (rs : Addr) (cap : SizeT) :
    (lockedClamped g a rs cap).locked = a.locked := by
  unfold lockedClamped
  split <;> rfl

variable (lib : ArtLib) {φ : Site → Bool} {s : Process}

theorem wp_clampEnd {cap : SizeT} {Q : Unit → Process → Prop} {F H : Process → Prop} :
    wp φ (clampEnd cap) Q F H s ↔
      (endFaults φ s.g s.art.mem cap = true → F s) ∧
        (endFaults φ s.g s.art.mem cap = false →
          Q () (s.setArt { s.art with mem := endMem s.g s.art.mem cap })) := by
  simp only [clampEnd, wp_bind, wp_globals, wp_load, wp_when, wp_store, endFaults, endMem]
  cases raises φ .clampEnd s.g.end_ <;> cases raises φ .clampSizeBegin s.g.begin_ <;> try simp
  by_cases hc : cap < s.art.mem s.g.end_ - s.art.mem s.g.begin_
  · have hn : ¬ s.art.mem s.g.end_ - s.art.mem s.g.begin_ ≤ cap := by simpa using hc
    cases raises φ .clampNewEnd s.g.limit_ <;> simp [hc, hn, Art.store]
  · have hn : s.art.mem s.g.end_ - s.art.mem s.g.begin_ ≤ cap := by simpa using hc
    simp [hc, hn, Process.setArt]

/-- The new size and limit do not move the bounds that the update of `*end_` compares. -/
theorem endFaults_resized {g : Globals} (hl : Layout g) (mem : Mem) (cap v w : SizeT) :
    endFaults φ g (Function.update (Function.update mem g.numRegions_ v) g.limit_ w) cap =
      endFaults φ g mem cap := by
  obtain ⟨⟨h1, h2, -⟩, ⟨h4, h5⟩, -⟩ := hl.ne
  simp only [endFaults, Function.update_of_ne h1, Function.update_of_ne h2,
    Function.update_of_ne h4, Function.update_of_ne h5]

/-- A fault inside the block leaves the locks as they are. -/
theorem wp_clampSpace (hl : Layout s.g) (rs : Addr) (cap : SizeT) :
    wp φ (clampSpace lib rs cap)
      (fun _ t => spaceFaults φ s.g s.art.mem rs cap = false ∧
        t = s.setArt (spaceClamped s.g s.art rs cap))
      (fun t => spaceFaults φ s.g s.art.mem rs cap = true ∧
        ∃ a, t = s.setArt a ∧ a.locked = s.art.locked)
      (fun _ => False) s := by
  have hb : s.g.begin_ ≠ s.g.numRegions_ := hl.ne.1.1
  simp only [clampSpace, wp_bind, wp_globals, wp_load, wp_store, wp_callArt, wp_clampEnd,
    Process.g_setArt, Process.art_setArt, Process.setArt_setArt, Art.mem_store,
    endFaults_resized hl, Function.update_of_ne hb, Art.callWith_setHeapSize,
    Art.callWith_setSize]
  -- every exit but the last is the fault of the access that comes next
  refine ⟨fun h1 => ⟨by simp [spaceFaults, h1], s.art, rfl, rfl⟩, fun h1 => ?_⟩
  refine ⟨fun h2 => ⟨by simp [spaceFaults, h2], _, rfl, rfl⟩, fun h2 => ?_⟩
  refine ⟨fun h3 => ⟨by simp [spaceFaults, h3], _, rfl, rfl⟩, fun h3 => ?_⟩
  refine ⟨fun h4 => ⟨by simp [spaceFaults, h4], _, rfl, rfl⟩, fun h4 => ?_⟩
  refine ⟨fun h5 => ⟨by simp [spaceFaults, h5], _, rfl, rfl⟩, fun h5 => ?_⟩
  refine ⟨fun h6 => ⟨by simp [spaceFaults, h6], _, rfl, rfl⟩, fun h6 => ?_⟩
  refine ⟨fun h7 => ⟨by simp [spaceFaults, h7], _, rfl, rfl⟩, fun h7 => ?_⟩
  refine ⟨fun h8 => ⟨by simp [spaceFaults, h8], _, rfl, rfl⟩, fun h8 => ?_⟩
  exact ⟨by simp [spaceFaults, h1, h2, h3, h4, h5, h6, h7, h8], rfl⟩

theorem wp_clampLocked (hl : Layout s.g) (rs : Addr) (cap : SizeT) :
    wp φ (clampLocked lib rs cap)
      (fun _ t => lockedFaults φ s.g s.art.mem rs cap = false ∧
        t = s.setArt (lockedClamped s.g s.art rs cap))
      (fun t => lockedFaults φ s.g s.art.mem rs cap = true ∧
        ∃ a, t = s.setArt a ∧ a.locked = s.art.locked)
      (fun _ => False) s := by
  have hu : s.art.mem s.g.nonFreeRegionIndexLimit_ * kRegionSize =
      (fieldsAt s.g s.art.mem).used := rfl
  simp only [clampLocked, wp_bind, wp_globals, wp_load, wp_when, hu, decide_eq_true_eq,
    decide_eq_false_iff_not, lockedFaults, lockedClamped]
  refine ⟨fun h1 => ⟨by simp [h1], s.art, rfl, rfl⟩, fun h1 => ⟨fun h2 => ?_, fun h2 => ?_⟩⟩
  · refine wp_mono (wp_clampSpace lib hl rs cap) ?_ ?_ fun _ h => h
    · intro _ t hend
      rcases hend with ⟨hf, rfl⟩
      exact ⟨by simp [h1, hf], by rw [if_pos h2]⟩
    · intro t hend
      rcases hend with ⟨hf, ha⟩
      exact ⟨by simp [h2, hf], ha⟩
  · exact ⟨by simp [h1, h2], by rw [if_neg h2, Process.setArt_art]⟩

theorem wp_lockRegion (rs : Addr) :
    wp φ (lockRegion lib rs)
      (fun _ t => (lockFaults φ s.g = false ∧ s.art.locked (rs + offsetRegionLock) = false) ∧
        t = s.setArt (acquired s.art (rs + offsetRegionLock)))
      (fun t => lockFaults φ s.g = true ∧ ∃ cs, t = s.setArt { s.art with calls := cs })
      (fun _ => lockFaults φ s.g = false ∧ s.art.locked (rs + offsetRegionLock) = true) s := by
  simp only [lockRegion, wp_bind, wp_threadCurrent, wp_exclusiveLock, Process.g_setArt,
    Process.art_setArt, Art.locked_call]
  refine ⟨fun h1 => ⟨by simp [lockFaults, h1], s.art.calls, rfl⟩, fun h1 => ?_⟩
  refine ⟨fun h2 => ⟨by simp [lockFaults, h2], _, rfl⟩, fun h2 => ?_⟩
  have hf : lockFaults φ s.g = false := by simp [lockFaults, h1, h2]
  exact ⟨fun h3 => ⟨hf, h3⟩, fun h3 => ⟨⟨hf, h3⟩, rfl⟩⟩

theorem wp_unlockRegion (rs : Addr) :
    wp φ (unlockRegion lib rs)
      (fun _ t => unlockFaults φ s.g = false ∧
        t = s.setArt (released s.art (rs + offsetRegionLock)))
      (fun t => unlockFaults φ s.g = true ∧ ∃ a, t = s.setArt a ∧ a.locked = s.art.locked)
      (fun _ => False) s := by
  simp only [unlockRegion, wp_bind, wp_threadCurrent, wp_exclusiveUnlock, Process.g_setArt]
  refine ⟨fun h1 => ⟨by simp [unlockFaults, h1], s.art, rfl, rfl⟩, fun h1 => ?_⟩
  refine ⟨fun h2 => ⟨by simp [unlockFaults, h2], _, rfl, rfl⟩, fun h2 => ?_⟩
  exact ⟨by simp [unlockFaults, h1, h2], rfl⟩

/-- `ClampGrowthLimit__` completes, or a SIGSEGV stops it before it holds the lock, or a
SIGSEGV stops it while it holds the lock, or it waits for a lock that was not given back. -/
theorem wp_clampGrowthLimit (hl : Layout s.g) (rs : Addr) (cap : SizeT) :
    wp φ (clampGrowthLimit_ lib rs cap)
      (fun _ t => (lockFaults φ s.g = false ∧ s.art.locked (rs + offsetRegionLock) = false ∧
          criticalFaults φ s.g s.art.mem rs cap = false) ∧
        t = s.setArt (clamped s.g s.art rs cap))
      (fun t => (lockFaults φ s.g = true ∧ ∃ cs, t = s.setArt { s.art with calls := cs }) ∨
        ((lockFaults φ s.g = false ∧ s.art.locked (rs + offsetRegionLock) = false ∧
            criticalFaults φ s.g s.art.mem rs cap = true) ∧
          ∃ a, t = s.setArt a ∧ a.locked (rs + offsetRegionLock) = true))
      (fun _ => lockFaults φ s.g = false ∧ s.art.locked (rs + offsetRegionLock) = true) s := by
  simp only [clampGrowthLimit_, wp_bind]
  refine wp_mono (wp_lockRegion lib rs) ?_ (fun t h => .inl h) fun t h => h
  intro _ t hend
  rcases hend with ⟨⟨hlock, hfree⟩, rfl⟩
  -- from here on the lock is held
  have hspec := wp_clampLocked lib (φ := φ)
    (s := s.setArt (acquired s.art (rs + offsetRegionLock)))
    (by simpa using hl) rs cap
  simp only [Process.g_setArt, Process.art_setArt, Process.setArt_setArt, mem_acquired] at hspec
  refine wp_mono hspec ?_ ?_ fun _ h => h.elim
  · intro _ t hend
    rcases hend with ⟨hf, rfl⟩
    refine wp_mono (wp_unlockRegion lib rs) ?_ ?_ fun _ h => h.elim
    · intro _ t hend
      rcases hend with ⟨hu, rfl⟩
      simp only [Process.g_setArt] at hu
      refine ⟨⟨hlock, hfree, by simp [criticalFaults, hf, hu]⟩, ?_⟩
      simp only [clamped, Process.setArt_setArt, Process.art_setArt]
    · intro t hend
      rcases hend with ⟨hu, a, rfl, ha⟩
      simp only [Process.g_setArt] at hu
      refine .inr ⟨⟨hlock, hfree, by simp [criticalFaults, hu]⟩, a, ?_, ?_⟩
      · simp only [Process.setArt_setArt]
      · rw [ha, Process.art_setArt, locked_lockedClamped, locked_acquired]
  · intro t hend
    rcases hend with ⟨hf, a, rfl, ha⟩
    refine .inr ⟨⟨hlock, hfree, by simp [criticalFaults, hf]⟩, a, rfl, ?_⟩
    rw [ha, locked_acquired]

end Patrons
