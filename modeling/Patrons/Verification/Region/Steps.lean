import Patrons.Verification.Init.Pointers
import Patrons.Verification.Region.Space

/-! # Shrinking in steps

Resizes that are accepted one after another leave what a single resize to the last size
leaves. -/

namespace Patrons

open Prog

/-! ## The pointers that a clamp follows -/

theorem defineOffset_bitmap {dev : Device} (h₁ : 26 ≤ dev.apiLevel) (h₂ : dev.apiLevel < 28)
    (g : Globals) : (defineOffset (initEnv dev g)).offsetSpaceBitmapInRegionSpace =
      dev.globals.offsetSpaceBitmapInRegionSpace := by
  have hlevel : dev.apiLevel = 26 ∨ dev.apiLevel = 27 := by omega
  rcases hlevel with hlevel | hlevel <;> simp [Device.globals, defineOffset, initEnv, hlevel]

/-- Below Android P the pointers to the bitmap and to the `MemMap` lie apart from the words that
a clamp writes. -/
theorem defineOffset_pointers_apart {g : Globals} (h₁ : 26 ≤ g.apiLevel) (h₂ : g.apiLevel < 28) :
    [offsetMemMap, (defineOffset g).offsetSpaceBitmapInRegionSpace].Forall
      (· ∉ [(defineOffset g).offsetNumRegionsInRegionSpace, 0x1c, 0x18]) := by
  have happart : ∀ limit ∈ [(0x70 : SizeT), 0x78, 0x90],
      [offsetMemMap, limit + 52].Forall (· ∉ [limit - 4 * 3, 0x1c, 0x18]) := by
    simp [offsetMemMap]
  unfold defineOffset
  by_cases hO : g.apiLevel = 26
  · rw [if_pos hO]
    exact happart _ (offsetsO_limit g.brand g.device)
  · have hOMr1 : g.apiLevel = 27 := by omega
    rw [if_neg hO, if_pos hOMr1]
    exact happart _ (List.mem_of_mem_take (i := 2) (offsetsOMr1_limit g.brand g.device))

section
variable {lib : ArtLib} {dev : Device} {s t : Process}

/-- The bitmap is looked for where the device has it. -/
def BitmapLocated (dev : Device) (s : Process) : Prop :=
  s.g.init_ = true → dev.apiLevel < 28 →
    s.g.offsetSpaceBitmapInRegionSpace = dev.globals.offsetSpaceBitmapInRegionSpace

theorem bitmapLocated_step {e : Event} (hs : Sound dev s) (hb : BitmapLocated dev s)
    (h : (process lib dev).step s e = some t) : BitmapLocated dev t := by
  rcases init_or_globals hs h with ⟨ld, args, k, φ, code, rfl, hr⟩ | ⟨-, hg⟩
  · intro hinit hlevel
    obtain ⟨p, ⟨-, b, hp⟩, hfound⟩ := wp_done (wp_init_found ld hs args) hr
    have ht := (sound_step hs h).1
    have hmin : 26 ≤ dev.apiLevel := by
      rw [← (ht.device hinit).1]
      exact (ht.prepared hinit).1.1
    have hkept := congrArg (fun l => l.2.2.2.2) (hfound.linkage ld hinit)
    rw [hp] at hkept
    exact hkept.trans (defineOffset_bitmap hmin hlevel _)
  · unfold BitmapLocated
    rw [hg]
    exact hb

theorem AfterInit.reached (h : AfterInit lib dev s) :
    ∃ mem handler es, (process lib dev).exec es (Process.loaded mem handler) = some s := by
  rcases h with ⟨mem, handler, before, s₀, ld, args, k, φ, s₁, after, h₀, hr, h₁⟩
  refine ⟨mem, handler, before ++ .init ld args k φ :: after, ?_⟩
  have hstep : (process lib dev).step s₀ (.init ld args k φ) = some s₁ :=
    after_eq_some.mpr ⟨_, hr⟩
  rw [Machine.exec_append, h₀, Option.bind_some, Machine.exec_cons, hstep, Option.bind_some, h₁]

theorem AfterInit.bitmapLocated (h : AfterInit lib dev s) : BitmapLocated dev s := by
  obtain ⟨mem, handler, es, hes⟩ := h.reached
  refine (Machine.exec_invariant (I := fun u => Sound dev u ∧ BitmapLocated dev u) ?_
    ⟨sound_loaded mem handler, by simp [BitmapLocated, Process.loaded]⟩ hes).2
  intro u e v hu hstep
  exact ⟨(sound_step hu.1 hstep).1, bitmapLocated_step hu.1 hu.2 hstep⟩

/-- The cells from which a clamp takes the bitmap and the `MemMap`. -/
def Globals.pointers (g : Globals) : List Addr :=
  [g.regionSpace_ + offsetMemMap, g.regionSpace_ + g.offsetSpaceBitmapInRegionSpace]

theorem AfterInit.pointers_apart (h : AfterInit lib dev s) (hlevel : s.g.apiLevel < 28) :
    ∀ p ∈ s.g.pointers, p ≠ s.g.numRegions_ ∧ p ≠ s.g.limit_ ∧ p ≠ s.g.end_ := by
  obtain ⟨hsound, hinit⟩ := h.sound
  obtain ⟨hdev, hnum, -⟩ := hsound.device hinit
  have hmin := (hsound.prepared hinit).1.1
  rw [hdev] at hlevel hmin
  have hl := h.layout
  have hapart : [offsetMemMap, dev.globals.offsetSpaceBitmapInRegionSpace].Forall
      (· ∉ [dev.globals.offsetNumRegionsInRegionSpace, 0x1c, 0x18]) :=
    defineOffset_pointers_apart hmin hlevel
  have hoff : ∀ o ∈ [offsetMemMap, s.g.offsetSpaceBitmapInRegionSpace],
      s.g.regionSpace_ + o ≠ s.g.numRegions_ ∧ s.g.regionSpace_ + o ≠ s.g.limit_ ∧
        s.g.regionSpace_ + o ≠ s.g.end_ := by
    intro o ho
    rw [h.bitmapLocated hinit hlevel] at ho
    have hne := List.forall_iff_forall_mem.mp hapart o ho
    simp only [List.mem_cons, List.not_mem_nil, or_false, not_or] at hne
    rcases hne with ⟨h₁, h₂, h₃⟩
    rw [hl.numRegions_, hl.limit_, hl.end_, hnum]
    exact ⟨by simpa using h₁, by simpa using h₂, by simpa using h₃⟩
  intro p hp
  simp only [Globals.pointers, List.mem_cons, List.not_mem_nil, or_false] at hp
  rcases hp with rfl | rfl
  · exact hoff _ (by simp)
  · exact hoff _ (by simp)

/-! ## What a shrink leaves -/

def Art.lastSetHeapSize? (a : Art) : Option (Addr × SizeT) :=
  a.calls.findSome? fun
    | .setHeapSize bitmap size => some (bitmap, size)
    | _ => none

def Art.lastSetSize? (a : Art) : Option (Addr × SizeT) :=
  a.calls.findSome? fun
    | .setSize memMap size => some (memMap, size)
    | _ => none

/-- From `s`, the region space was shrunk to `w`. -/
structure ShrunkTo (s t : Process) (w : SizeT) : Prop where
  g : t.g = s.g
  fields : t.fields = s.fields.clamp w
  pointers : ∀ p ∈ s.g.pointers, t.art.mem p = s.art.mem p
  bitmap : t.art.lastSetHeapSize? =
    some (s.art.mem (s.g.regionSpace_ + s.g.offsetSpaceBitmapInRegionSpace), w)
  memMap : t.art.lastSetSize? = some (s.art.mem (s.g.regionSpace_ + offsetMemMap), w)

theorem clampMem_of_apart {g : Globals} {p : Addr}
    (hp : p ≠ g.numRegions_ ∧ p ≠ g.limit_ ∧ p ≠ g.end_) (mem : Mem) (w : SizeT) :
    clampMem g mem w p = mem p := by
  rcases hp with ⟨h₁, h₂, h₃⟩
  unfold clampMem endMem
  split <;>
    simp only [Function.update_of_ne h₁, Function.update_of_ne h₂, Function.update_of_ne h₃]

theorem shrunkTo_clamped (hl : Layout s.g)
    (hp : ∀ p ∈ s.g.pointers, p ≠ s.g.numRegions_ ∧ p ≠ s.g.limit_ ∧ p ≠ s.g.end_) {w : SizeT}
    (hw : s.fields.used < w) (r : LogRing) :
    ShrunkTo s ((s.setArt (clamped s.g s.art s.g.regionSpace_ w)).setLog r) w := by
  have hart : clamped s.g s.art s.g.regionSpace_ w =
      released (spaceClamped s.g (acquired s.art (s.g.regionSpace_ + offsetRegionLock))
        s.g.regionSpace_ w) (s.g.regionSpace_ + offsetRegionLock) := by
    rw [clamped, lockedClamped_acquired hw]
  have hkept : ∀ p ∈ s.g.pointers, clampMem s.g s.art.mem w p = s.art.mem p :=
    fun p h => clampMem_of_apart (hp p h) s.art.mem w
  have hbitmap := hkept (s.g.regionSpace_ + s.g.offsetSpaceBitmapInRegionSpace)
    (by simp [Globals.pointers])
  have hmemMap := hkept (s.g.regionSpace_ + offsetMemMap) (by simp [Globals.pointers])
  refine ⟨by simp, ?_, ?_, ?_, ?_⟩
  · rw [fields_setLog, fields_clamped hl _ hw]
  · rw [Process.art_setLog, Process.art_setArt, hart]
    exact hkept
  · rw [Process.art_setLog, Process.art_setArt, hart, ← hbitmap]
    rfl
  · rw [Process.art_setLog, Process.art_setArt, hart, ← hmemMap]
    rfl

theorem end_clamp (f : Fields) (w : SizeT) :
    (f.clamp w).end_ = if w < f.end_ - f.begin_ then f.begin_ + w else f.end_ := rfl

theorem begin_clamp (f : Fields) (w : SizeT) : (f.clamp w).begin_ = f.begin_ := rfl

theorem end_clamp_clamp (f : Fields) {w w' : SizeT} (h : w' ≤ w) :
    ((f.clamp w).clamp w').end_ = (f.clamp w').end_ := by
  by_cases hw : w < f.end_ - f.begin_
  · have hlt : w' < f.end_ - f.begin_ := BitVec.lt_def.mpr
      (Nat.lt_of_le_of_lt (BitVec.le_def.mp h) (BitVec.lt_def.mp hw))
    have hfirst : (f.clamp w).end_ = f.begin_ + w := if_pos hw
    have hdirect : (f.clamp w').end_ = f.begin_ + w' := if_pos hlt
    have hsize : (f.clamp w).end_ - (f.clamp w).begin_ = w := by
      rw [hfirst, begin_clamp, BitVec.add_comm, BitVec.add_sub_cancel]
    rw [end_clamp (f.clamp w), hsize, hdirect, hfirst, begin_clamp]
    split
    · rfl
    · have heq : w = w' := BitVec.le_antisymm (BitVec.not_lt.mp ‹_›) h
      rw [heq]
  · have hfirst : (f.clamp w).end_ = f.end_ := if_neg hw
    rw [end_clamp (f.clamp w), hfirst, begin_clamp, end_clamp f]

theorem clamp_clamp (f : Fields) {w w' : SizeT} (h : w' ≤ w) :
    (f.clamp w).clamp w' = f.clamp w' := by
  have hend := end_clamp_clamp f h
  calc
    (f.clamp w).clamp w' = { f.clamp w' with end_ := ((f.clamp w).clamp w').end_ } := rfl
    _ = f.clamp w' := by rw [hend]

theorem ShrunkTo.trans {u : Process} {w w' : SizeT} (h : ShrunkTo s u w) (h' : ShrunkTo u t w')
    (hle : w' ≤ w) : ShrunkTo s t w' := by
  have hpointers : u.g.pointers = s.g.pointers := by rw [h.g]
  refine ⟨h'.g.trans h.g, ?_, fun p hp => ?_, ?_, ?_⟩
  · rw [h'.fields, h.fields, clamp_clamp _ hle]
  · rw [h'.pointers p (hpointers ▸ hp), h.pointers p hp]
  · rw [h'.bitmap, h.g, h.pointers _ (by simp [Globals.pointers])]
  · rw [h'.memMap, h.g, h.pointers _ (by simp [Globals.pointers])]

/-! ## Accepted resizes -/

def acceptedResizes (lib : ArtLib) : Machine Process (JInt × (Site → Bool)) where
  step s call :=
    match (resizeRegionSpace lib call.1).run call.2 s with
    | .done true t => some t
    | _ => none

theorem acceptedResizes_step {call : JInt × (Site → Bool)} :
    (acceptedResizes lib).step s call = some t ↔
      (resizeRegionSpace lib call.1).run call.2 s = .done true t := by
  simp only [acceptedResizes]
  split
  · rename_i u hu
    rw [hu]
    simp
  · rename_i hne
    simp only [reduceCtorEq, false_iff]
    exact hne t

/-- The region space below Android P, with every pointer of a clamp outside the words that it
writes. -/
structure Clampable (s : Process) : Prop where
  layout : Layout s.g
  own : s.g.clampGrowthLimit = .own
  apart : ∀ p ∈ s.g.pointers, p ≠ s.g.numRegions_ ∧ p ≠ s.g.limit_ ∧ p ≠ s.g.end_

theorem Clampable.congr (h : Clampable s) (hg : t.g = s.g) : Clampable t := by
  refine ⟨hg ▸ h.layout, hg ▸ h.own, ?_⟩
  rw [hg]
  exact h.apart

theorem AfterInit.clampable (h : AfterInit lib dev s) (hlevel : s.g.apiLevel < 28) :
    Clampable s :=
  ⟨h.layout, (h.sound.1.prepared h.sound.2).2.2.2.1.mpr hlevel, h.pointers_apart hlevel⟩

theorem Clampable.shrunkTo (h : Clampable s) {w : JInt} (hw : s.fields.accepts w = true) :
    ShrunkTo s (resized lib s w) w := by
  have hused := (Fields.accepts_iff.mp hw).2.2
  have heq : resized lib s w = (s.setArt (clamped s.g s.art s.g.regionSpace_ w)).setLog
      ((checksLog s.log s.fields w).logDump (resizedLine w)) := by
    simp only [resized, hw, if_true, resizedArt, h.own]
  rw [heq]
  exact shrunkTo_clamped h.layout h.apart hused _

theorem ShrunkTo.accepts {w w' : JInt} (h : ShrunkTo s t w) (hw : s.fields.accepts w = true)
    (hw' : t.fields.accepts w' = true) : w' ≤ w ∧ s.fields.accepts w' = true := by
  rw [Fields.accepts_iff] at *
  rw [h.fields, capacity_clamp] at hw'
  rcases hw with ⟨-, hcap, -⟩
  rcases hw' with ⟨hpos, hle, hused⟩
  exact ⟨hle, hpos, BitVec.le_trans hle hcap, hused⟩

/-- Accepted resizes shrink the space to the last size, which the first state accepts. -/
theorem Clampable.shrunkTo_last {calls : List (JInt × (Site → Bool))} (hs : Clampable s)
    (hne : calls ≠ []) (h : (acceptedResizes lib).exec calls s = some t) :
    ShrunkTo s t (calls.getLast hne).1 ∧ s.fields.accepts (calls.getLast hne).1 = true := by
  induction calls generalizing s with
  | nil => exact absurd rfl hne
  | cons call calls ih =>
      obtain ⟨u, hu, hrest⟩ := Option.bind_eq_some_iff.mp h
      rw [acceptedResizes_step] at hu
      obtain ⟨-, haccepts, rfl⟩ := wp_done (wp_resizeRegionSpace lib hs.layout call.1) hu
      have hfirst : ShrunkTo s (resized lib s call.1) call.1 := hs.shrunkTo haccepts.symm
      cases calls with
      | nil =>
          obtain rfl : resized lib s call.1 = t := by simpa using hrest
          exact ⟨hfirst, haccepts.symm⟩
      | cons call' calls =>
          rw [List.getLast_cons (List.cons_ne_nil call' calls)]
          obtain ⟨hlast, hw⟩ := ih (hs.congr (by simp)) (List.cons_ne_nil call' calls) hrest
          obtain ⟨hle, hback⟩ := hfirst.accepts haccepts.symm hw
          exact ⟨hfirst.trans hlast hle, hback⟩

/-! ## The direct resize -/

/-- The plan that raises no SIGSEGV but those of `NULL` pointers. -/
def noRaise : Site → Bool := fun _ => false

variable {φ : Site → Bool} {w w' : JInt}

theorem raises_noRaise {i j : Site} {p : Addr} (h : raises φ i p = false) :
    raises noRaise j p = false := by
  simp only [raises, Bool.or_eq_false_iff] at h
  simpa [raises, noRaise] using h.2

/-- A resize that completes finds no `NULL` pointer and a free lock. -/
theorem Clampable.of_done (hs : Clampable s) (hw : s.fields.accepts w = true)
    (h : (resizeRegionSpace lib w).run φ s = .done true t) :
    checkFaults φ s.g w = false ∧ lockFaults φ s.g = false ∧
      s.art.locked (s.g.regionSpace_ + offsetRegionLock) = false ∧
      criticalFaults φ s.g s.art.mem s.g.regionSpace_ w = false := by
  obtain ⟨⟨h₁, h₂, h₃⟩, -⟩ := wp_done (wp_resizeRegionSpace lib hs.layout w) h
  simp only [faultsUnlocked, callFaults, hs.own, hw, Bool.true_and, Bool.or_eq_false_iff] at h₁
  rcases h₁ with ⟨hcheck, hlock⟩
  simp only [waits, callWaits, hs.own, hw, hcheck, hlock, decide_true, Bool.not_false,
    Bool.true_and] at h₃
  simp only [faultsLocked, callFaultsLocked, hs.own, hw, hcheck, hlock, h₃, decide_true,
    Bool.not_false, Bool.true_and] at h₂
  exact ⟨hcheck, hlock, h₃, h₂⟩

theorem criticalFaults_noRaise {g : Globals} {mem : Mem} {rs : Addr}
    (hused : (fieldsAt g mem).used < w) (h : criticalFaults φ g mem rs w = false) :
    criticalFaults noRaise g mem rs w' = false := by
  simp only [criticalFaults, lockedFaults, unlockFaults, spaceFaults, endFaults, hused,
    decide_true, Bool.true_and, Bool.or_eq_false_iff] at h
  obtain ⟨⟨hnonFree, ⟨⟨⟨⟨⟨⟨⟨hnum, hbegin⟩, hlimit⟩, ⟨⟨hend, -⟩, -⟩⟩, hbitmap⟩, hheap⟩, hmap⟩,
    hsize⟩⟩, hthread, hunlock⟩ := h
  simp [criticalFaults, lockedFaults, unlockFaults, spaceFaults, endFaults,
    raises_noRaise hnonFree, raises_noRaise hnum, raises_noRaise hbegin, raises_noRaise hlimit,
    raises_noRaise hend, raises_noRaise hbitmap, raises_noRaise hheap, raises_noRaise hmap,
    raises_noRaise hsize, raises_noRaise hthread, raises_noRaise hunlock]

/-- Where one accepted resize completes, no other raises a SIGSEGV of its own. -/
theorem Clampable.noSegv_of_done (hs : Clampable s) (hw : s.fields.accepts w = true)
    (h : (resizeRegionSpace lib w).run φ s = .done true t) (w' : JInt) :
    NoSegv lib noRaise s w' := by
  obtain ⟨hcheck, hlock, -, hcritical⟩ := hs.of_done hw h
  obtain ⟨-, -, hused⟩ := Fields.accepts_iff.mp hw
  have hpos : w.sle 0 = false := by
    simp only [Fields.accepts, Bool.and_eq_true, Bool.not_eq_true'] at hw
    exact hw.1.1
  simp only [checkFaults, hpos, Bool.not_false, Bool.true_and, Bool.or_eq_false_iff] at hcheck
  obtain ⟨⟨⟨hnonFree, hlimit⟩, hbegin⟩, -⟩ := hcheck
  simp only [lockFaults, Bool.or_eq_false_iff] at hlock
  refine (noSegv_iff hs.layout).mpr ⟨?_, ?_⟩
  · simp [faultsUnlocked, checkFaults, callFaults, hs.own, lockFaults, raises_noRaise hnonFree,
      raises_noRaise hlimit, raises_noRaise hbegin, raises_noRaise hlock.1,
      raises_noRaise hlock.2]
  · simp [faultsLocked, callFaultsLocked, criticalFaults_noRaise hused hcritical]

/-- An accepted resize that is not cut by a SIGSEGV and finds the lock free returns `true`. -/
theorem Clampable.run_of_noSegv (hs : Clampable s) (hw : s.fields.accepts w = true)
    (hlock : s.art.locked (s.g.regionSpace_ + offsetRegionLock) = false)
    (hno : NoSegv lib φ s w) :
    (resizeRegionSpace lib w).run φ s = .done true (resized lib s w) := by
  have hspec := wp_resizeRegionSpace lib (φ := φ) hs.layout w
  cases hr : (resizeRegionSpace lib w).run φ s with
  | done r t =>
      obtain ⟨-, rfl, rfl⟩ := wp_done hspec hr
      rw [hw]
  | fault t => exact absurd hr (hno t)
  | hang t =>
      have hwaits := wp_hang hspec hr
      simp [waits, callWaits, hlock] at hwaits

/-- The same bounds, and the bitmap and the `MemMap` have the same sizes. -/
structure SameSpace (s t : Process) : Prop where
  bounds : t.fields.bounds = s.fields.bounds
  bitmap : t.art.lastSetHeapSize? = s.art.lastSetHeapSize?
  memMap : t.art.lastSetSize? = s.art.lastSetSize?

theorem ShrunkTo.same {u : Process} (h : ShrunkTo s t w) (h' : ShrunkTo s u w) : SameSpace t u := by
  refine ⟨?_, ?_, ?_⟩
  · rw [h.fields, h'.fields]
  · rw [h.bitmap, h'.bitmap]
  · rw [h.memMap, h'.memMap]

/-- Below Android P, whatever a list of accepted resizes leaves is what a single one to the last
size leaves, and that one is accepted. -/
theorem direct_resize (hs : AfterInit lib dev s) (hlevel : s.g.apiLevel < 28)
    {calls : List (JInt × (Site → Bool))} (hne : calls ≠ [])
    (h : (acceptedResizes lib).exec calls s = some t) :
    NoSegv lib noRaise s (calls.getLast hne).1 ∧
      ∀ φ, NoSegv lib φ s (calls.getLast hne).1 →
        ∃ u, (resizeRegionSpace lib (calls.getLast hne).1).run φ s = .done true u ∧
          SameSpace t u := by
  have hc := hs.clampable hlevel
  obtain ⟨hlast, hw⟩ := hc.shrunkTo_last hne h
  cases calls with
  | nil => exact absurd rfl hne
  | cons call calls =>
      obtain ⟨v, hv, -⟩ := Option.bind_eq_some_iff.mp h
      rw [acceptedResizes_step] at hv
      obtain ⟨-, haccepts, -⟩ := wp_done (wp_resizeRegionSpace lib hc.layout call.1) hv
      have hlock := (hc.of_done haccepts.symm hv).2.2.1
      refine ⟨hc.noSegv_of_done haccepts.symm hv _, fun φ hno => ?_⟩
      exact ⟨_, hc.run_of_noSegv hw hlock hno, hlast.same (hc.shrunkTo hw)⟩

theorem direct_resize_android81 :
    ∃ t, (acceptedResizes Phone.art).exec
          [(400 * MB, Phone.noFault), (300 * MB, Phone.noFault), (256 * MB, Phone.noFault)]
          Phone.android81 = some t ∧
      t.fields.capacity = 256 * MB ∧
      NoSegv Phone.art noRaise Phone.android81 (256 * MB) ∧
      ∀ φ, NoSegv Phone.art φ Phone.android81 (256 * MB) →
        ∃ u, (resizeRegionSpace Phone.art (256 * MB)).run φ Phone.android81 =
            .done true u ∧ SameSpace t u := by
  have hs : AfterInit Phone.art (Phone.device 27) Phone.android81 :=
    Phone.afterInit (by decide +kernel)
  have hlevel : Phone.android81.g.apiLevel < 28 := by decide +kernel
  have hcapacity : ((acceptedResizes Phone.art).exec
      [(400 * MB, Phone.noFault), (300 * MB, Phone.noFault), (256 * MB, Phone.noFault)]
      Phone.android81).map (·.fields.capacity) = some (256 * MB) := by
    decide +kernel
  obtain ⟨t, ht, hcap⟩ := Option.map_eq_some_iff.mp hcapacity
  have hdirect := direct_resize hs hlevel (List.cons_ne_nil _ _) ht
  exact ⟨t, ht, hcap, hdirect⟩

end

end Patrons
