import Patrons.Verification.Region.Shrink

/-! # What `shrinkRegionSpace` promises its caller

The boolean that the caller gets, the effect on the region space and the size in
mebibytes that was asked for. -/

namespace Patrons

open Prog

/-! ## The effect of a complete resize -/

theorem capacity_clamp (f : Fields) (w : SizeT) : (f.clamp w).capacity = w := by
  simp only [Fields.clamp, Fields.capacity]
  rw [BitVec.add_comm, BitVec.add_sub_cancel]

theorem lockedClamped_acquired {g : Globals} {a : Art} {m rs : Addr} {w : SizeT}
    (hw : (fieldsAt g a.mem).used < w) :
    lockedClamped g (acquired a m) rs w = spaceClamped g (acquired a m) rs w :=
  if_pos hw

theorem fieldsAt_clamped {g : Globals} (hl : Layout g) (a : Art) (rs : Addr) (w : SizeT)
    (hw : (fieldsAt g a.mem).used < w) :
    fieldsAt g (clamped g a rs w).mem = (fieldsAt g a.mem).clamp w := by
  rw [← fieldsAt_clampMem hl a.mem w, clamped, mem_released, lockedClamped_acquired hw]
  rfl

/-- The calls of a clamp that changes the space, the last one first. -/
theorem calls_clamped {g : Globals} (a : Art) (rs : Addr) (w : SizeT)
    (hw : (fieldsAt g a.mem).used < w) :
    ∃ bitmap memMap, (clamped g a rs w).calls =
      [.exclusiveUnlock (rs + offsetRegionLock), .threadCurrent, .setSize memMap w,
        .setHeapSize bitmap w, .exclusiveLock (rs + offsetRegionLock), .threadCurrent] ++
      a.calls := by
  rw [clamped, lockedClamped_acquired hw]
  exact ⟨_, _, rfl⟩

/-- ART's `ClampGrowthLimit` gives the space the capacity that it is handed, where the
checks of `ResizeRegionSpace` hold. -/
def ArtLib.SetsCapacity (lib : ArtLib) (g : Globals) : Prop :=
  ∀ mem w, (fieldsAt g mem).accepts w = true →
    (fieldsAt g (lib.clampGrowthLimit g.regionSpace_ w mem)).capacity = w

/-- `ClampGrowthLimit` of a `libart` whose effect is the one that `ClampGrowthLimit__`
reproduces. -/
def artOf (g : Globals) : ArtLib :=
  { Phone.art with
    clampGrowthLimit := fun _ w mem =>
      if (fieldsAt g mem).used < w then clampMem g mem w else mem }

theorem setsCapacity_artOf {g : Globals} (hl : Layout g) : (artOf g).SetsCapacity g := by
  intro mem w hw
  obtain ⟨-, -, hu⟩ := Fields.accepts_iff.mp hw
  simp only [artOf, if_pos hu, fieldsAt_clampMem hl, capacity_clamp]

/-- One of the calls in `cs` clamps the space to `w`: ART's `ClampGrowthLimit`, or the pair
of calls that ends the library's own. -/
def Clamps (w : SizeT) (cs : List ArtCall) : Prop :=
  (∃ rs, .clampGrowthLimit rs w ∈ cs) ∨
    ((∃ bitmap, .setHeapSize bitmap w ∈ cs) ∧ ∃ memMap, .setSize memMap w ∈ cs)

/-- `ClampGrowthLimit` was applied, and the capacity is the size afterwards. -/
def TookEffect (s t : Process) (w : SizeT) : Prop :=
  (∃ cs, t.art.calls = cs ++ s.art.calls ∧ Clamps w cs) ∧ t.fields.capacity = w

theorem not_tookEffect {s t : Process} {w : SizeT} (h : t.art = s.art) : ¬ TookEffect s t w := by
  intro hend
  rcases hend with ⟨⟨cs, hcs, hc⟩, -⟩
  rw [h] at hcs
  obtain rfl : cs = [] := by simpa using hcs
  rcases hc with ⟨rs, hm⟩ | ⟨⟨b, hm⟩, -⟩ <;> simp at hm

variable {lib : ArtLib} {dev : Device} {φ : Site → Bool} {s : Process}

theorem art_resized {w : JInt} (hw : s.fields.accepts w = true) :
    (resized lib s w).art = resizedArt lib s.g s.art w := by
  simp [resized, hw]

theorem capacity_resized (hl : Layout s.g) (hlib : lib.SetsCapacity s.g) {w : JInt}
    (hm : s.g.clampGrowthLimit ≠ .null) (hw : s.fields.accepts w = true) :
    (resized lib s w).fields.capacity = w := by
  have hu := (Fields.accepts_iff.mp hw).2.2
  rw [Process.fields, g_resized, art_resized hw]
  cases hc : s.g.clampGrowthLimit with
  | null => exact absurd hc hm
  | own =>
      simp only [resizedArt, hc]
      rw [fieldsAt_clamped hl s.art _ w hu, capacity_clamp]
  | art f =>
      simp only [resizedArt, hc]
      exact hlib s.art.mem w hw

theorem tookEffect_resized (hl : Layout s.g) (hlib : lib.SetsCapacity s.g) {w : JInt}
    (hm : s.g.clampGrowthLimit ≠ .null) (hw : s.fields.accepts w = true) :
    TookEffect s (resized lib s w) w := by
  refine ⟨?_, capacity_resized hl hlib hm hw⟩
  have hu : (fieldsAt s.g s.art.mem).used < w := (Fields.accepts_iff.mp hw).2.2
  rw [art_resized hw]
  cases hc : s.g.clampGrowthLimit with
  | null => exact absurd hc hm
  | own =>
      obtain ⟨bitmap, memMap, hcalls⟩ := calls_clamped s.art s.g.regionSpace_ w hu
      simp only [resizedArt, hc]
      exact ⟨_, hcalls, .inr ⟨⟨bitmap, by simp⟩, memMap, by simp⟩⟩
  | art f =>
      exact ⟨[.clampGrowthLimit s.g.regionSpace_ w], by simp [resizedArt, hc],
        .inl ⟨s.g.regionSpace_, by simp⟩⟩

theorem resized_rejected {w : JInt} (hw : s.fields.accepts w = false) :
    (resized lib s w).art = s.art := by
  simp [resized, hw]

/-! ## The two modes -/

/-- No SIGSEGV is raised while `ResizeRegionSpace` runs. -/
def NoSegv (lib : ArtLib) (φ : Site → Bool) (s : Process) (new_size : JInt) : Prop :=
  ∀ t, (resizeRegionSpace lib new_size).run φ s ≠ .fault t

theorem noSegv_iff (hl : Layout s.g) {w : JInt} :
    NoSegv lib φ s w ↔ faultsUnlocked φ s w = false ∧ faultsLocked φ s w = false := by
  have hspec := wp_resizeRegionSpace lib (φ := φ) hl w
  constructor
  · intro h
    cases hr : (resizeRegionSpace lib w).run φ s with
    | done r t =>
        obtain ⟨⟨h1, h2, -⟩, -⟩ := wp_done hspec hr
        exact ⟨h1, h2⟩
    | fault t => exact absurd hr (h t)
    | hang t =>
        have hw := wp_hang hspec hr
        exact not_faults_of_waits hw
  · intro hend t hr
    rcases hend with ⟨h1, h2⟩
    rcases wp_fault hspec hr with ⟨h, -⟩ | ⟨h, -⟩
    · rw [h1] at h
      exact absurd h (by simp)
    · rw [h2] at h
      exact absurd h (by simp)

/-- Without a SIGSEGV both paths do what `ResizeRegionSpace` does, and the protected path
answers `true` whatever it answered. -/
theorem wp_shrinkRegionSpace (hi : s.g.init_ = true) (hp : Prepared s.g) (hl : Layout s.g)
    (hflag : s.sig.iWantHandleSignalFlag = false) {n : JInt}
    (hno : faultsUnlocked φ s (n * MB) = false ∧ faultsLocked φ s (n * MB) = false) :
    wp φ (shrinkRegionSpace lib n)
      (fun r t => r = (s.g.isProtected || s.fields.accepts (n * MB)) ∧
        t = resized lib s (n * MB))
      (fun _ => False) (fun _ => waits φ s (n * MB) = true) s := by
  obtain ⟨h1, h2⟩ := hno
  unfold wp
  rw [run_shrinkRegionSpace hi hp]
  split
  · rename_i hm
    refine wp_mono (wp_shrinkProtected hl n) ?_ ?_ fun _ h => h
    · intro r t hend
      rcases hend with ⟨-, ⟨rfl, -, rfl⟩ | ⟨-, -, ⟨h, -⟩ | ⟨h, -⟩⟩⟩
      · refine ⟨by simp [hm], ?_⟩
        rw [Signals.setFlag_self hflag]
        exact Process.setSig_of_eq (by simp)
      · exact absurd (h.symm.trans h1) (by simp)
      · exact absurd (h.symm.trans h2) (by simp)
    · intro t hend
      rcases hend with ⟨h | h, -⟩
      · exact absurd (h.symm.trans h1) (by simp)
      · exact absurd (h.symm.trans h2) (by simp)
  · rename_i hm
    refine wp_mono (wp_resizeRegionSpace lib hl _) ?_ ?_ fun _ h => h
    · intro r t hend
      rcases hend with ⟨-, rfl, rfl⟩
      exact ⟨by simp [hm], rfl⟩
    · intro t hend
      rcases hend with ⟨h, -⟩ | ⟨h, -⟩
      · exact absurd (h.symm.trans h1) (by simp)
      · exact absurd (h.symm.trans h2) (by simp)

def Process.setMode (s : Process) (hasExceptionHandle debuggable : Bool) : Process :=
  s.setGlobals
    { s.g with hasExceptionHandle_ := hasExceptionHandle, debuggable := debuggable }

/-- Protected mode: there is a handler and the library is not debuggable. -/
def Process.inProtected (s : Process) : Process := s.setMode true false

def Process.inUnprotected (s : Process) : Process := s.setMode s.g.hasExceptionHandle_ true

def Fields.bounds (f : Fields) : SizeT × SizeT × SizeT × SizeT :=
  (f.begin_, f.end_, f.limit_, f.numRegions)

/-- What a shrink to `w` bytes that returned `r` promises about the states around it. -/
structure Promise (s t : Process) (w : SizeT) (r : Bool) : Prop where
  effect : r = true ↔ TookEffect s t w
  rejected : r = false → t.fields.bounds = s.fields.bounds

/-- Both modes keep the promise, and they return the same value in the same state. -/
structure ModesAgree (lib : ArtLib) (φ : Site → Bool) (s : Process) (n : JInt) : Prop where
  inProtected : ∀ r t, (shrinkRegionSpace lib n).run φ s.inProtected = .done r t →
    Promise s t (n * MB) r
  inUnprotected : ∀ r t, (shrinkRegionSpace lib n).run φ s.inUnprotected = .done r t →
    Promise s t (n * MB) r
  agree : ∀ r t r' t', (shrinkRegionSpace lib n).run φ s.inProtected = .done r t →
    (shrinkRegionSpace lib n).run φ s.inUnprotected = .done r' t' →
    r = r' ∧ t = t'.inProtected

section
variable (s) (a b : Bool)

@[simp] theorem art_setMode : (s.setMode a b).art = s.art := by simp [Process.setMode]

@[simp] theorem log_setMode : (s.setMode a b).log = s.log := by simp [Process.setMode]

@[simp] theorem fields_setMode : (s.setMode a b).fields = s.fields := by
  simp [Process.fields, Process.setMode, fieldsAt]

theorem inProtected_inUnprotected : s.inUnprotected.inProtected = s.inProtected := by
  cases s
  rfl

theorem resizedArt_setMode (w : SizeT) :
    resizedArt lib (s.setMode a b).g s.art w = resizedArt lib s.g s.art w := rfl

theorem resized_setMode (w : JInt) :
    resized lib (s.setMode a b) w = (resized lib s w).setMode a b := by
  unfold resized
  simp only [fields_setMode, log_setMode, art_setMode, resizedArt_setMode]
  split <;> cases s <;> rfl

end

theorem AfterInit.ready (hs : AfterInit lib dev s) (a b : Bool) :
    (s.setMode a b).g.init_ = true ∧ Prepared (s.setMode a b).g ∧ Layout (s.setMode a b).g := by
  obtain ⟨hsound, hi⟩ := hs.sound
  obtain ⟨h1, h2, h3, h4, h5, h6⟩ := hs.layout
  exact ⟨hi, hsound.prepared hi, ⟨h1, h2, h3, h4, h5, h6⟩⟩

theorem run_inProtected (hs : AfterInit lib dev s) {n : JInt} (hno : NoSegv lib φ s (n * MB)) :
    wp φ (shrinkRegionSpace lib n)
      (fun r t => r = true ∧ t = (resized lib s (n * MB)).inProtected) (fun _ => False)
      (fun _ => waits φ s (n * MB) = true) s.inProtected := by
  obtain ⟨hi, hp, hl⟩ := hs.ready true false
  have hno' := (noSegv_iff hs.layout).mp hno
  apply wp_imp (wp_shrinkRegionSpace hi hp hl hs.sound.1.flag hno')
  intro r t hend
  rcases hend with ⟨rfl, rfl⟩
  exact ⟨rfl, resized_setMode s true false (n * MB)⟩

theorem run_inUnprotected (hs : AfterInit lib dev s) {n : JInt}
    (hno : NoSegv lib φ s (n * MB)) :
    wp φ (shrinkRegionSpace lib n)
      (fun r t => r = s.fields.accepts (n * MB) ∧ t = (resized lib s (n * MB)).inUnprotected)
      (fun _ => False) (fun _ => waits φ s (n * MB) = true) s.inUnprotected := by
  obtain ⟨hi, hp, hl⟩ := hs.ready s.g.hasExceptionHandle_ true
  have hno' := (noSegv_iff hs.layout).mp hno
  apply wp_imp (wp_shrinkRegionSpace hi hp hl hs.sound.1.flag hno')
  intro r t hend
  rcases hend with ⟨rfl, rfl⟩
  refine ⟨?_, ?_⟩
  · simp [Process.setMode, Globals.isProtected, Process.fields, fieldsAt]
  · rw [resized_setMode, Process.inUnprotected, g_resized]

theorem promise_resized (hs : AfterInit lib dev s) (hlib : lib.SetsCapacity s.g) {w : JInt}
    (hw : s.fields.accepts w = true) (a b : Bool) :
    Promise s ((resized lib s w).setMode a b) w true := by
  have hm := (hs.sound.1.prepared hs.sound.2).2.2.1
  obtain ⟨hcalls, hcap⟩ := tookEffect_resized hs.layout hlib hm hw
  refine ⟨⟨fun _ => ⟨by simpa using hcalls, by simpa using hcap⟩, fun _ => rfl⟩, by simp⟩

theorem modesAgree_of_accepts (hs : AfterInit lib dev s) (hlib : lib.SetsCapacity s.g) {n : JInt}
    (hno : NoSegv lib φ s (n * MB)) (hw : s.fields.accepts (n * MB) = true) :
    ModesAgree lib φ s n := by
  refine ⟨fun r t hr => ?_, fun r t hr => ?_, fun r t r' t' hr hr' => ?_⟩
  · obtain ⟨rfl, rfl⟩ := wp_done (run_inProtected hs hno) hr
    exact promise_resized hs hlib hw _ _
  · obtain ⟨rfl, rfl⟩ := wp_done (run_inUnprotected hs hno) hr
    rw [hw]
    exact promise_resized hs hlib hw _ _
  · obtain ⟨rfl, rfl⟩ := wp_done (run_inProtected hs hno) hr
    obtain ⟨rfl, rfl⟩ := wp_done (run_inUnprotected hs hno) hr'
    exact ⟨hw.symm, (inProtected_inUnprotected _).symm⟩

theorem not_modesAgree_of_rejects (hs : AfterInit lib dev s) {n : JInt}
    (hno : NoSegv lib φ s (n * MB)) (hw : s.fields.accepts (n * MB) = false) :
    ¬ ModesAgree lib φ s n := by
  intro h
  have hspec := run_inProtected hs hno
  have hwaits : waits φ s (n * MB) = false := by simp [waits, hw]
  cases hr : (shrinkRegionSpace lib n).run φ s.inProtected with
  | done r t =>
      obtain ⟨rfl, rfl⟩ := wp_done hspec hr
      have heffect := (h.inProtected _ _ hr).effect.mp rfl
      refine not_tookEffect ?_ heffect
      rw [Process.inProtected, art_setMode, resized_rejected hw]
  | fault t => exact wp_fault hspec hr
  | hang t =>
      have hwait := wp_hang hspec hr
      exact absurd (hwait.symm.trans hwaits) (by simp)

/-- The two modes keep their promise and agree exactly on the sizes that the guards of
`ResizeRegionSpace` let through. -/
theorem modesAgree_iff (hs : AfterInit lib dev s) (hlib : lib.SetsCapacity s.g) (n : JInt)
    (hno : NoSegv lib φ s (n * MB)) :
    ModesAgree lib φ s n ↔
      0 < (n * MB).toInt ∧ n * MB ≤ s.fields.capacity ∧ s.fields.used < n * MB := by
  rw [← Fields.accepts_iff]
  constructor
  · intro h
    by_contra hw
    exact not_modesAgree_of_rejects hs hno (by simpa using hw) h
  · exact modesAgree_of_accepts hs hlib hno

theorem modesAgree_iff_androidP :
    ModesAgree (artOf Phone.androidP.g) Phone.noFault Phone.androidP 256 ↔
      0 < ((256 : JInt) * MB).toInt ∧ 256 * MB ≤ Phone.androidP.fields.capacity ∧
        Phone.androidP.fields.used < 256 * MB :=
  have hs : AfterInit (artOf Phone.androidP.g) (Phone.device 28) Phone.androidP :=
    Phone.afterInit (by decide +kernel)
  modesAgree_iff hs (setsCapacity_artOf hs.layout) 256
    ((noSegv_iff hs.layout).mpr (by decide +kernel))

/-- A shrink to 64 MB while 100 MB are in use is rejected: the unprotected path says so,
the protected path returns `true`. -/
theorem rejected_returns_true :
    AfterInit (artOf Phone.androidP.g) (Phone.device 28) Phone.androidP ∧
      (artOf Phone.androidP.g).SetsCapacity Phone.androidP.g ∧
      NoSegv (artOf Phone.androidP.g) Phone.noFault Phone.androidP (64 * MB) ∧
      ((shrinkRegionSpace (artOf Phone.androidP.g) 64).run Phone.noFault
        Phone.androidP.inProtected).result?.map Prod.fst = some true ∧
      ((shrinkRegionSpace (artOf Phone.androidP.g) 64).run Phone.noFault
        Phone.androidP.inUnprotected).result?.map Prod.fst = some false ∧
      ¬ ModesAgree (artOf Phone.androidP.g) Phone.noFault Phone.androidP 64 :=
  have hs : AfterInit (artOf Phone.androidP.g) (Phone.device 28) Phone.androidP :=
    Phone.afterInit (by decide +kernel)
  have hno : NoSegv (artOf Phone.androidP.g) Phone.noFault Phone.androidP (64 * MB) :=
    (noSegv_iff hs.layout).mpr (by decide +kernel)
  ⟨hs, setsCapacity_artOf hs.layout, hno, by decide +kernel, by decide +kernel,
    not_modesAgree_of_rejects hs hno (by decide +kernel)⟩

end Patrons
