import Patrons.Library.Arena
import Patrons.Verification.Region.Contract

/-! # The region space as an arena

Below Android P the words of the region space represent an arena of regions of
`kRegionSize`, which `ClampGrowthLimit__` clamps. -/

namespace Patrons

abbrev RegionSpace := Arena (2 ^ 18)

/-- What the final check of `NativeInit` and the bounds of a region space promise. -/
structure Fields.Sane (f : Fields) : Prop where
  begin_le : f.begin_ ≤ f.end_
  end_le : f.end_ ≤ f.limit_
  regions : f.numRegions = f.capacity / kRegionSize
  nonFree : f.nonFree ≤ f.numRegions

structure Represents (f : Fields) (a : RegionSpace) : Prop where
  base : f.begin_.toNat = a.base
  top : f.end_.toNat = a.top
  bound : f.limit_.toNat = a.bound
  regions : f.numRegions.toNat = a.regions
  inUse : f.nonFree.toNat = a.inUse

variable {f : Fields} {a : RegionSpace}

theorem Represents.le (h : Represents f a) : f.begin_ ≤ f.limit_ := by
  have h₁ := a.base_le_top
  have h₂ := a.top_le_bound
  rw [BitVec.le_def, h.base, h.bound]
  omega

theorem Represents.capacity (h : Represents f a) : f.capacity.toNat = a.capacity := by
  rw [Fields.capacity, BitVec.toNat_sub_of_le h.le, h.base, h.bound, Arena.capacity]

theorem Represents.used_lt (h : Represents f a) : f.nonFree.toNat * 2 ^ 18 < 2 ^ 32 := by
  have hle := a.used_le_capacity
  have hlt := f.capacity.isLt
  rw [h.capacity] at hlt
  rw [h.inUse]
  exact Nat.lt_of_le_of_lt hle hlt

theorem Represents.used (h : Represents f a) : f.used.toNat = a.used := by
  rw [Fields.used, toNat_mul_kRegionSize, Nat.mod_eq_of_lt h.used_lt, h.inUse, Arena.used]

theorem sane_iff_represents : f.Sane ↔ ∃ a, Represents f a := by
  constructor
  · intro h
    have h₁ := BitVec.le_def.mp h.begin_le
    have h₂ := BitVec.le_def.mp h.end_le
    have hle : f.begin_ ≤ f.limit_ := BitVec.le_def.mpr (Nat.le_trans h₁ h₂)
    have hregions : f.numRegions.toNat = (f.limit_.toNat - f.begin_.toNat) / 2 ^ 18 := by
      rw [h.regions, BitVec.toNat_udiv, kRegionSize_toNat, Fields.capacity,
        BitVec.toNat_sub_of_le hle]
    have hinUse := BitVec.le_def.mp h.nonFree
    rw [hregions] at hinUse
    exact ⟨⟨_, _, _, _, h₁, h₂, hinUse⟩, rfl, rfl, rfl, hregions, rfl⟩
  · intro h
    rcases h with ⟨a, h⟩
    constructor
    · rw [BitVec.le_def, h.base, h.top]
      exact a.base_le_top
    · rw [BitVec.le_def, h.top, h.bound]
      exact a.top_le_bound
    · apply BitVec.eq_of_toNat_eq
      rw [h.regions, BitVec.toNat_udiv, kRegionSize_toNat, h.capacity, Arena.regions]
    · rw [BitVec.le_def, h.inUse, h.regions]
      exact a.inUse_le

/-- The three writes of the clamp, with `end_` lowered only where it lies above. -/
theorem Represents.clamp (h : Represents f a) {cap : SizeT} (hcap : cap ≤ f.capacity)
    (hused : f.used < cap) : Represents (f.clamp cap) (a.clamp cap.toNat) := by
  have hfit : a.used < cap.toNat := by
    rw [← h.used]
    exact BitVec.lt_def.mp hused
  have hlimit : (f.begin_ + cap).toNat = a.base + cap.toNat := by
    have hle := BitVec.le_def.mp hcap
    have hlt := f.limit_.isLt
    have hbound := a.base_add_capacity
    rw [h.capacity] at hle
    rw [h.bound] at hlt
    rw [BitVec.toNat_add, h.base]
    apply Nat.mod_eq_of_lt
    omega
  have hend : f.begin_ ≤ f.end_ := by
    rw [BitVec.le_def, h.base, h.top]
    exact a.base_le_top
  have hsize : (f.end_ - f.begin_).toNat = a.top - a.base := by
    rw [BitVec.toNat_sub_of_le hend, h.top, h.base]
  constructor
  · rw [Arena.base_clamp]
    exact h.base
  · rw [Arena.top_clamp, if_pos hfit]
    simp only [Fields.clamp, BitVec.lt_def, hsize]
    split
    · rw [hlimit]
      omega
    · rw [h.top]
      omega
  · rw [Arena.bound_clamp, if_pos hfit]
    exact hlimit
  · rw [Arena.regions_clamp, if_pos hfit]
    simp only [Fields.clamp, BitVec.toNat_udiv, kRegionSize_toNat]
  · rw [Arena.inUse_clamp]
    exact h.inUse

/-! ## Calls into ART -/

def Art.heapSize? (a : Art) : Option SizeT :=
  a.calls.findSome? fun
    | .setHeapSize _ size => some size
    | _ => none

def Art.mapSize? (a : Art) : Option SizeT :=
  a.calls.findSome? fun
    | .setSize _ size => some size
    | _ => none

/-- `SetHeapSize` and `SetSize` were last called with the current capacity. -/
def Process.Sized (s : Process) : Prop :=
  s.art.heapSize? = some s.fields.capacity ∧ s.art.mapSize? = some s.fields.capacity

variable {s t : Process}

theorem fields_clamped (hl : Layout s.g) (rs : Addr) {cap : SizeT} (hused : s.fields.used < cap) :
    (s.setArt (clamped s.g s.art rs cap)).fields = s.fields.clamp cap := by
  rw [Process.fields, Process.g_setArt, Process.art_setArt]
  exact fieldsAt_clamped hl s.art rs cap hused

theorem refused_clamped (rs : Addr) {cap : SizeT} (hused : ¬ s.fields.used < cap) :
    clamped s.g s.art rs cap =
      released (acquired s.art (rs + offsetRegionLock)) (rs + offsetRegionLock) := by
  have h : ¬ (fieldsAt s.g (acquired s.art (rs + offsetRegionLock)).mem).used < cap := hused
  rw [clamped, lockedClamped, if_neg h]

theorem sized_clamped (hl : Layout s.g) (rs : Addr) {cap : SizeT} (hused : s.fields.used < cap) :
    (s.setArt (clamped s.g s.art rs cap)).Sized := by
  rcases calls_clamped s.art rs cap hused with ⟨bitmap, memMap, hcalls⟩
  unfold Process.Sized
  rw [fields_clamped hl rs hused, capacity_clamp, Process.art_setArt, Art.heapSize?,
    Art.mapSize?, hcalls]
  constructor
  · simp
  · simp

/-- A refused clamp keeps the words of the space and the sizes of the last calls. -/
theorem sized_refused (rs : Addr) {cap : SizeT} (hused : ¬ s.fields.used < cap) :
    (s.setArt (clamped s.g s.art rs cap)).fields = s.fields ∧
      ((s.setArt (clamped s.g s.art rs cap)).Sized ↔ s.Sized) := by
  have hfields : (s.setArt (clamped s.g s.art rs cap)).fields = s.fields := by
    rw [refused_clamped rs hused, Process.fields, Process.g_setArt, Process.art_setArt]
    rfl
  refine ⟨hfields, ?_⟩
  unfold Process.Sized
  rw [hfields, Process.art_setArt, refused_clamped rs hused]
  exact Iff.rfl

theorem finalCheck_of_sane {φ : Site → Bool} (h : s.fields.Sane) :
    Prog.wp φ finalCheck (fun r _ => r = .success) (fun _ => True) (fun _ => True) s := by
  have hregions : s.art.mem s.g.numRegions_ =
      (s.art.mem s.g.limit_ - s.art.mem s.g.begin_) / kRegionSize := h.regions
  simp [finalCheck, hregions]

/-! ## Clamps and allocations in any order -/

inductive SpaceEvent where
  /-- `ClampGrowthLimit__(region_space_, new_capacity)`. -/
  | clamp (new_capacity : SizeT) (φ : Site → Bool)
  /-- ART allocates or frees regions. -/
  | alloc (nonFree : SizeT)

structure SpaceRun where
  process : Process
  /-- A clamp of the run has passed the check against the used regions. -/
  clamped : Bool := false

def allocRegions (s : Process) (nonFree : SizeT) : Process :=
  s.setArt (s.art.store s.g.nonFreeRegionIndexLimit_ nonFree)

/-- A clamp asks for a capacity from 1 to the current one, and completes. -/
def spaceMachine (lib : ArtLib) : Machine SpaceRun SpaceEvent where
  step u
    | .clamp cap φ =>
      if 0 < cap ∧ cap ≤ u.process.fields.capacity then
        ((clampGrowthLimit_ lib u.process.g.regionSpace_ cap).after φ u.process).map fun s =>
          ⟨s, u.clamped || decide (u.process.fields.used < cap)⟩
      else none
    | .alloc n =>
      if n ≤ u.process.fields.numRegions then some { u with process := allocRegions u.process n }
      else none

def SpaceEvent.op : SpaceEvent → Arena.Op
  | .clamp cap _ => .clamp cap.toNat
  | .alloc n => .alloc n.toNat

/-- The words of the space represent the arena. -/
structure Views (u : SpaceRun) (a : RegionSpace) : Prop where
  layout : Layout u.process.g
  fields : Represents u.process.fields a
  sized : u.clamped = true → u.process.Sized

theorem fields_allocRegions (hl : Layout s.g) (n : SizeT) :
    (allocRegions s n).fields = { s.fields with nonFree := n } := by
  have hb := hl.apart
  simp only [List.nodup_cons, List.mem_cons, List.not_mem_nil, or_false, not_or] at hb
  rcases hb with ⟨⟨-, -, -, h₁⟩, ⟨-, -, h₂⟩, ⟨-, h₃⟩, h₄, -⟩
  simp [allocRegions, Process.fields, fieldsAt, Function.update_of_ne h₁, Function.update_of_ne h₂,
    Function.update_of_ne h₃, Function.update_of_ne h₄]

/-- A clamp that completes is one of the arena, whether its size is refused or not. -/
theorem Views.clamp {u : SpaceRun} (hv : Views u a) {cap : SizeT}
    (hcap : cap ≤ u.process.fields.capacity) (rs : Addr) :
    Views ⟨u.process.setArt (clamped u.process.g u.process.art rs cap),
      u.clamped || decide (u.process.fields.used < cap)⟩ (a.clamp cap.toNat) := by
  have hl : Layout (u.process.setArt (clamped u.process.g u.process.art rs cap)).g := by
    rw [Process.g_setArt]
    exact hv.layout
  by_cases hused : u.process.fields.used < cap
  · refine ⟨hl, ?_, fun _ => sized_clamped hv.layout rs hused⟩
    dsimp only
    rw [fields_clamped hv.layout rs hused]
    exact hv.fields.clamp hcap hused
  · have hfull : ¬ a.used < cap.toNat := by
      rw [← hv.fields.used, ← BitVec.lt_def]
      exact hused
    rcases sized_refused rs hused with ⟨hfields, hsized⟩
    rw [Arena.clamp, dif_neg hfull]
    refine ⟨hl, ?_, ?_⟩
    · dsimp only
      rw [hfields]
      exact hv.fields
    · intro hc
      simp only [hused, decide_false, Bool.or_false] at hc
      exact hsized.mpr (hv.sized hc)

theorem Views.alloc {u : SpaceRun} (hv : Views u a) {n : SizeT} (hn : n.toNat ≤ a.regions) :
    Views { u with process := allocRegions u.process n } (a.alloc n.toNat hn) := by
  have hfields := fields_allocRegions hv.layout n
  refine ⟨hv.layout, ?_, ?_⟩
  · dsimp only
    rw [hfields]
    exact ⟨hv.fields.base, hv.fields.top, hv.fields.bound, hv.fields.regions, rfl⟩
  · intro hc
    have hs := hv.sized hc
    unfold Process.Sized at hs ⊢
    dsimp only
    rw [hfields]
    exact hs

/-- Every clamp and every allocation is one of the arena. -/
theorem views_simulates (lib : ArtLib) :
    (spaceMachine lib).Simulates (Arena.machine (2 ^ 18)) SpaceEvent.op Views := by
  intro u a e v hv hstep
  cases e with
  | clamp cap φ =>
      simp only [spaceMachine, Option.ite_none_right_eq_some] at hstep
      rcases hstep with ⟨⟨hpos, hcap⟩, hstep⟩
      rcases Option.map_eq_some_iff.mp hstep with ⟨t, ht, hv'⟩
      rcases after_eq_some.mp ht with ⟨r, hr⟩
      rcases Prog.wp_done (wp_clampGrowthLimit lib hv.layout _ cap) hr with ⟨-, heq⟩
      have hn : 1 ≤ cap.toNat ∧ cap.toNat ≤ a.capacity := by
        rw [← hv.fields.capacity]
        exact ⟨BitVec.lt_def.mp hpos, BitVec.le_def.mp hcap⟩
      refine ⟨a.clamp cap.toNat, by simp [SpaceEvent.op, Arena.machine, hn], ?_⟩
      rw [← hv', heq]
      exact hv.clamp hcap _
  | alloc n =>
      simp only [spaceMachine, Option.ite_none_right_eq_some, Option.some.injEq] at hstep
      rcases hstep with ⟨hn, hv'⟩
      have hle : n.toNat ≤ a.regions := by
        rw [← hv.fields.regions]
        exact BitVec.le_def.mp hn
      refine ⟨a.alloc n.toNat hle, by simp [SpaceEvent.op, Arena.machine, hle], ?_⟩
      rw [← hv']
      exact hv.alloc hle

/-- What a step from `u` to `v` keeps of the space that was at `start`. -/
structure KeepsSpace (start : SizeT) (u : SpaceRun) (e : SpaceEvent) (v : SpaceRun) : Prop where
  begin_ : v.process.fields.begin_ = start
  sane : v.process.fields.Sane
  finalCheck : ∀ φ code t, finalCheck.run φ v.process = .done code t → code = .success
  used_exact : v.process.fields.nonFree.toNat * 2 ^ 18 < 2 ^ 32
  /-- Neither product nor sum of the clamp wraps. -/
  clamp_exact : ∀ cap φ, e = .clamp cap φ →
    u.process.fields.nonFree.toNat * 2 ^ 18 < 2 ^ 32 ∧
      u.process.fields.begin_.toNat + cap.toNat < 2 ^ 32
  sized : v.clamped = true → v.process.Sized

/-- In any order of clamps and allocations the words of the region space stay sane, no
arithmetic of the clamp wraps, and ART was last told the current capacity. -/
theorem keepsSpace_run {lib : ArtLib} {dev : Device} (hs : AfterInit lib dev s)
    (hsane : s.fields.Sane) (es : List SpaceEvent) :
    (spaceMachine lib).Each (KeepsSpace s.fields.begin_) es ⟨s, false⟩ := by
  rcases sane_iff_represents.mp hsane with ⟨a, ha⟩
  have hv : Views ⟨s, false⟩ a := ⟨hs.layout, ha, by simp⟩
  apply (views_simulates lib).each _ hv (Arena.within_run (es.map SpaceEvent.op))
  intro u b e v c hu hv hstep _ hwithin
  rcases hwithin with ⟨hbase, -, hclamp⟩
  constructor
  · apply BitVec.eq_of_toNat_eq
    rw [hv.fields.base, hbase, ha.base]
  · exact sane_iff_represents.mpr ⟨c, hv.fields⟩
  · intro φ code t hr
    have hspec := finalCheck_of_sane (φ := φ) (sane_iff_represents.mpr ⟨c, hv.fields⟩)
    have hcode := Prog.wp_done hspec hr
    exact hcode
  · exact hv.fields.used_lt
  · intro cap φ he
    have hbound := hclamp cap.toNat (by rw [he]; rfl)
    have hlt := s.fields.limit_.isLt
    rw [ha.bound] at hlt
    rw [hu.fields.base]
    exact ⟨hu.fields.used_lt, by omega⟩
  · exact hv.sized

theorem keepsSpace_android81 :
    (∃ u, (spaceMachine (artOf Phone.android81.g)).exec [.clamp (256 * MB) Phone.noFault,
        .alloc 1024, .clamp (128 * MB) Phone.noFault, .alloc 300, .clamp (200 * MB) Phone.noFault]
        ⟨Phone.android81, false⟩ = some u ∧ u.process.fields.capacity = 200 * MB) ∧
      (spaceMachine (artOf Phone.android81.g)).Each (KeepsSpace Phone.android81.fields.begin_)
        [.clamp (256 * MB) Phone.noFault, .alloc 1024, .clamp (128 * MB) Phone.noFault,
          .alloc 300, .clamp (200 * MB) Phone.noFault] ⟨Phone.android81, false⟩ := by
  have hs : AfterInit (artOf Phone.android81.g) (Phone.device 27) Phone.android81 :=
    Phone.afterInit (by decide +kernel)
  have hsane : Phone.android81.fields.Sane :=
    ⟨by decide +kernel, by decide +kernel, by decide +kernel, by decide +kernel⟩
  refine ⟨?_, keepsSpace_run hs hsane _⟩
  apply Option.map_eq_some_iff.mp
  decide +kernel

end Patrons
