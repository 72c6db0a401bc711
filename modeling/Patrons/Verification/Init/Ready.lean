import Patrons.Model.System
import Patrons.Verification.Region.Resize

/-! # What native init leaves ready

`NativeInit` sets `init_` last, so a state with `init_` has gone through every stage. -/

namespace Patrons

open Prog

/-! ## Offsets -/

/-- The globals that `InitEnv` and `DefineOffset` compute on a device. -/
def Device.globals (dev : Device) : Globals := defineOffset (initEnv dev {})

theorem offsetsO_limit (brand device : String) :
    (offsetsO brand device).2 ∈ [0x70, 0x78, 0x90] := by
  unfold offsetsO
  split_ifs <;> decide

theorem offsetsOMr1_limit (brand device : String) :
    (offsetsOMr1 brand device).2 ∈ [0x70, 0x78] := by
  unfold offsetsOMr1
  split_ifs <;> decide

/-- The words of the region space lie apart on every supported device. -/
theorem defineOffset_apart (g : Globals) :
    [0x14, 0x18, 0x1c, (defineOffset g).offsetNumRegionsInRegionSpace,
      (defineOffset g).offsetRegionLimitInRegionSpace].Nodup := by
  have happart : ∀ limit ∈ [(0x70 : SizeT), 0x78, 0x90],
      [0x14, 0x18, 0x1c, limit - 4 * 3, limit].Nodup := by
    simp
  unfold defineOffset
  split_ifs
  · exact happart _ (offsetsO_limit g.brand g.device)
  · exact happart _ (List.mem_of_mem_take (i := 2) (offsetsOMr1_limit g.brand g.device))
  all_goals
    dsimp only
    decide

theorem defineOffset_numRegions (dev : Device) (g : Globals) :
    (defineOffset (initEnv dev g)).offsetNumRegionsInRegionSpace =
      dev.globals.offsetNumRegionsInRegionSpace := by
  simp only [Device.globals, defineOffset, apply_ite Globals.offsetNumRegionsInRegionSpace]
  rfl

theorem defineOffset_regionLimit (dev : Device) (g : Globals) :
    (defineOffset (initEnv dev g)).offsetRegionLimitInRegionSpace =
      dev.globals.offsetRegionLimitInRegionSpace := by
  simp only [Device.globals, defineOffset, apply_ite Globals.offsetRegionLimitInRegionSpace]
  rfl

theorem defineOffset_apiLevel (dev : Device) (g : Globals) :
    (defineOffset (initEnv dev g)).apiLevel = dev.apiLevel := by
  simp only [defineOffset, apply_ite Globals.apiLevel, ite_self]
  rfl

/-! ## Stages -/

@[simp] theorem wp_setGlobals {φ : Site → Bool} {f : Globals → Globals}
    {Q : Unit → Process → Prop} {F H : Process → Prop} {s : Process} :
    wp φ (setGlobals f) Q F H s ↔ Q () (s.setGlobals (f s.g)) := Iff.rfl

theorem wp_orReturn {φ : Site → Bool} {stage : Native (Option Code)} {rest : Native Code}
    {Q : Code → Process → Prop} {F H : Process → Prop} {s : Process} :
    wp φ (orReturn stage rest) Q F H s ↔
      wp φ stage (fun r t => (∀ c, r = some c → Q c t) ∧ (r = none → wp φ rest Q F H t))
        F H s := by
  unfold orReturn
  rw [wp_bind]
  constructor <;> intro h
  all_goals
    refine wp_imp h fun r t hr => ?_
    cases r <;> simpa using hr

/-- The globals that only the end of `NativeInit` or none of its stages writes. -/
def Globals.settled (g : Globals) : Bool × Bool × Bool × ℤ × SizeT × SizeT :=
  (g.init_, g.hasExceptionHandle_, g.debuggable, g.apiLevel, g.offsetNumRegionsInRegionSpace,
    g.offsetRegionLimitInRegionSpace)

/-- What the stages leave alone. -/
def Frame (s t : Process) : Prop :=
  t.sig = s.sig ∧ t.art = s.art ∧ t.g.settled = s.g.settled

@[simp] theorem frame_setLog {s t : Process} {r : LogRing} :
    Frame s (t.setLog r) ↔ Frame s t := by
  simp [Frame]

/-- The region space is found and its fields are located. -/
def Located (g : Globals) : Prop :=
  g.regionSpace_ ≠ 0 ∧ g.begin_ = g.regionSpace_ + 0x14 ∧ g.end_ = g.regionSpace_ + 0x18 ∧
    g.limit_ = g.regionSpace_ + 0x1c ∧
    g.numRegions_ = g.regionSpace_ + g.offsetNumRegionsInRegionSpace ∧
    g.nonFreeRegionIndexLimit_ = g.regionSpace_ + g.offsetRegionLimitInRegionSpace

/-- The clamp of the version is found, and with the library's own the functions that it
locks with. -/
def Methods (g : Globals) : Prop :=
  g.clampGrowthLimit ≠ .null ∧ (g.clampGrowthLimit = .own ↔ g.apiLevel < 28) ∧
    (g.apiLevel < 28 → g.exclusiveLock ≠ 0 ∧ g.exclusiveUnlock ≠ 0 ∧ g.threadCurrent ≠ 0)

def Supported (g : Globals) : Prop := 26 ≤ g.apiLevel ∧ g.apiLevel ≤ 31

/-- From `I`, a stage stops with an error, is cut by a fault, or goes on in `J`. -/
def StageSpec (φ : Site → Bool) (s₀ : Process) (I J : Globals → Prop)
    (stage : Native (Option Code)) : Prop :=
  ∀ s, Frame s₀ s → I s.g →
    wp φ stage (fun r t => Frame s₀ t ∧ r ≠ some .success ∧ (r = none → J t.g)) (Frame s₀)
      (fun _ => False) s

/-- Where `NativeInit` ends: with `SUCCESS` everything is prepared and `init_` is set, with
an error `init_` is as before. -/
def InitEnd (s₀ : Process) (code : Code) (t : Process) : Prop :=
  t.sig = s₀.sig ∧ t.art = s₀.art ∧ t.g.settled.2 = s₀.g.settled.2 ∧
    (code = .success → t.g.init_ = true ∧ Supported t.g ∧ Located t.g ∧ Methods t.g) ∧
    (code ≠ .success → t.g.init_ = s₀.g.init_)

def RestSpec (φ : Site → Bool) (s₀ : Process) (I : Globals → Prop) (rest : Native Code) : Prop :=
  ∀ s, Frame s₀ s → I s.g → wp φ rest (InitEnd s₀) (Frame s₀) (fun _ => False) s

variable {φ : Site → Bool} {s₀ : Process} {I J : Globals → Prop}

theorem StageSpec.orReturn {stage : Native (Option Code)} {rest : Native Code}
    (hs : StageSpec φ s₀ I J stage) (hr : RestSpec φ s₀ J rest) :
    RestSpec φ s₀ I (orReturn stage rest) := by
  intro s hf hi
  rw [wp_orReturn]
  apply wp_imp (hs s hf hi)
  intro r t hend
  rcases hend with ⟨hft, hne, hj⟩
  refine ⟨?_, fun hr' => hr t hft (hj hr')⟩
  intro c heq
  subst heq
  obtain ⟨h1, h2, h3⟩ := hft
  refine ⟨h1, h2, congrArg Prod.snd h3, fun hc => absurd (hc ▸ rfl) hne, fun _ => ?_⟩
  exact congrArg Prod.fst h3

variable (ld : Linker)

theorem checkEnvironment_spec : StageSpec φ s₀ (fun _ => True) Supported checkEnvironment := by
  intro s hf _
  simp only [checkEnvironment, isAndroidVersionMatch, wp_bind, wp_globals, wp_logLine, wp_ite,
    wp_pure, Bool.not_true, Bool.not_false, Process.g_setLog, frame_setLog]
  refine ⟨fun h1 => ⟨fun _ => ⟨hf, by simp, by simp⟩, by simp⟩, fun h1 => ⟨by simp, fun _ => ?_⟩⟩
  have hs : Supported s.g := by
    simp only [Bool.or_eq_true, decide_eq_true_eq] at h1
    unfold Supported
    omega
  exact ⟨fun _ => ⟨hf, by simp, by simp⟩, fun _ => ⟨hf, by simp, fun _ => hs⟩⟩

theorem loadArt_spec : StageSpec φ s₀ Supported Supported (loadArt ld) := by
  intro s hf hi
  simp only [loadArt, wp_bind, wp_globals, wp_setGlobals, wp_logLine, wp_ite, wp_pure]
  exact ⟨fun _ => ⟨hf, by simp, by simp⟩, fun _ => ⟨hf, by simp, fun _ => hi⟩⟩

theorem loadRuntime_spec : StageSpec φ s₀ Supported Supported (loadRuntime ld) := by
  intro s hf hi
  simp only [loadRuntime, wp_bind, wp_globals, wp_load, wp_setGlobals, wp_logLine, wp_ite,
    wp_pure]
  exact ⟨fun _ => hf, fun _ => ⟨fun _ => ⟨hf, by simp, by simp⟩,
    fun _ => ⟨hf, by simp, fun _ => hi⟩⟩⟩

theorem loadHeap_spec : StageSpec φ s₀ Supported Supported loadHeap := by
  intro s hf hi
  simp only [loadHeap, wp_bind, wp_globals, wp_load, wp_setGlobals, wp_logLine, wp_ite, wp_pure]
  exact ⟨fun _ => hf, fun _ => ⟨fun _ => ⟨hf, by simp, by simp⟩,
    fun _ => ⟨hf, by simp, fun _ => hi⟩⟩⟩

theorem loadRegionSpace_spec :
    StageSpec φ s₀ Supported (fun g => Supported g ∧ Located g) loadRegionSpace := by
  intro s hf hi
  simp only [loadRegionSpace, wp_bind, wp_globals, wp_load, wp_setGlobals, wp_logLine, wp_ite,
    wp_pure]
  refine ⟨fun _ => hf, fun _ => ⟨fun _ => ⟨hf, by simp, by simp⟩, fun h => ?_⟩⟩
  exact ⟨hf, by simp, fun _ => ⟨hi, h, rfl, rfl, rfl, rfl, rfl⟩⟩

theorem lookup_spec {symbol missing : String} {set : Addr → Globals → Globals} {code : Code}
    (hcode : code ≠ .success) (hset : ∀ f g, (set f g).settled = g.settled)
    (hj : ∀ f g, f ≠ 0 → I g → J (set f g)) :
    StageSpec φ s₀ I J (lookup ld symbol set missing code) := by
  intro s hend hi
  rcases hend with ⟨h1, h2, h3⟩
  simp only [lookup, wp_bind, wp_globals, wp_setGlobals, wp_logLine, wp_ite, wp_pure]
  have hf : Frame s₀ (s.setGlobals (set (dlsymArt ld s.g symbol) s.g)) :=
    ⟨h1, h2, (hset _ _).trans h3⟩
  exact ⟨fun _ => ⟨hf, by simpa using hcode, by simp⟩,
    fun h => ⟨hf, by simp, fun _ => hj _ _ h hi⟩⟩

def Prepared (g : Globals) : Prop := Supported g ∧ Located g ∧ Methods g

theorem loadLocks_spec {rest : Native Code} (hr : RestSpec φ s₀ Prepared rest) :
    RestSpec φ s₀
      (fun g => Supported g ∧ Located g ∧ g.clampGrowthLimit = .own ∧ g.apiLevel < 28)
      (loadLocks ld rest) := by
  refine StageSpec.orReturn (J := fun g => Supported g ∧ Located g ∧ g.clampGrowthLimit = .own ∧
    g.apiLevel < 28 ∧ g.exclusiveLock ≠ 0) ?_ (StageSpec.orReturn (J := fun g => Supported g ∧
    Located g ∧ g.clampGrowthLimit = .own ∧ g.apiLevel < 28 ∧ g.exclusiveLock ≠ 0 ∧
    g.exclusiveUnlock ≠ 0) ?_ (StageSpec.orReturn ?_ hr))
  · refine lookup_spec ld (by simp) (fun _ _ => rfl) ?_
    intro f g hf hend
    rcases hend with ⟨h1, h2, h3, h4⟩
    exact ⟨h1, h2, h3, h4, hf⟩
  · refine lookup_spec ld (by simp) (fun _ _ => rfl) ?_
    intro f g hf hend
    rcases hend with ⟨h1, h2, h3, h4, h5⟩
    exact ⟨h1, h2, h3, h4, h5, hf⟩
  · refine lookup_spec ld (by simp) (fun _ _ => rfl) ?_
    intro f g hf hend
    rcases hend with ⟨h1, h2, h3, h4, h5, h6⟩
    refine ⟨h1, h2, ?_, ⟨fun _ => h4, fun _ => h3⟩, fun _ => ⟨h5, h6, hf⟩⟩
    rw [h3]
    simp

theorem loadResizeMethod_spec {rest : Native Code} (hr : RestSpec φ s₀ Prepared rest) :
    RestSpec φ s₀ (fun g => Supported g ∧ Located g) (loadResizeMethod ld rest) := by
  intro s hf hend
  rcases hend with ⟨h1, h2⟩
  simp only [loadResizeMethod, wp_bind, wp_globals, wp_ite, wp_setGlobals]
  refine ⟨fun h => ?_, fun h => loadLocks_spec ld hr _ hf ⟨h1, h2, rfl, Int.not_le.mp h⟩⟩
  have hlookup : StageSpec φ s₀ (fun g => Supported g ∧ Located g ∧ 28 ≤ g.apiLevel) Prepared
      (lookup ld "_ZN3art2gc5space11RegionSpace16ClampGrowthLimitEj"
        (fun f g => { g with clampGrowthLimit := if f = 0 then .null else .art f })
        "resize method is NULL" .resizeMethodNotFound) := by
    refine lookup_spec ld (by simp) (fun _ _ => rfl) ?_
    intro f g hne hend
    rcases hend with ⟨h1, h2, h3⟩
    have hm : (if f = 0 then ClampFn.null else .art f) = .art f := if_neg hne
    refine ⟨h1, h2, ?_, ?_, ?_⟩
    · simp only [hm]
      simp
    · simp only [hm]
      simpa using h3
    · intro h
      exact absurd h (by simpa using h3)
  exact hlookup.orReturn hr s hf ⟨h1, h2, h⟩

theorem loadMethods_spec {rest : Native Code} (hr : RestSpec φ s₀ Prepared rest) :
    RestSpec φ s₀ (fun g => Supported g ∧ Located g) (loadMethods ld rest) := by
  intro s hf hend
  rcases hend with ⟨h1, h2⟩
  simp only [loadMethods, wp_bind, wp_setGlobals]
  exact loadResizeMethod_spec ld hr _ hf ⟨h1, h2⟩

theorem finalCheck_spec : RestSpec φ s₀ Prepared finalCheck := by
  intro s hf hp
  obtain ⟨h1, h2, h3⟩ := hf
  have hcut : ∀ r, Frame s₀ (s.setLog r) := fun r => frame_setLog.mpr ⟨h1, h2, h3⟩
  have hinit : s.g.init_ = s₀.g.init_ := congrArg Prod.fst h3
  have hkept : s.g.settled.2 = s₀.g.settled.2 := congrArg Prod.snd h3
  have hfail : ∀ r, InitEnd s₀ .finalCheckFailed (s.setLog r) := fun r =>
    ⟨by simpa using h1, by simpa using h2, by simpa using hkept, by simp,
      fun _ => by simpa using hinit⟩
  simp only [finalCheck, wp_bind, wp_globals, wp_logLine, wp_nonGrowthLimitCapacity, wp_load,
    wp_ite, wp_pure, wp_setGlobals, Process.g_setLog, Process.art_setLog, Process.log_setLog,
    Process.setLog_setLog]
  refine ⟨fun _ => hcut _, fun _ => ⟨fun _ => hcut _, fun _ => ⟨fun _ => hcut _, fun _ => ?_⟩⟩⟩
  refine ⟨fun _ => ⟨fun _ => hcut _, fun _ => hfail _⟩, fun _ => ?_⟩
  refine ⟨fun _ => hcut _, fun _ => ⟨fun _ => hcut _, fun _ => ⟨fun _ => hcut _, fun _ => ?_⟩⟩⟩
  exact ⟨h1, h2, hkept, fun _ => ⟨rfl, hp⟩, by simp⟩

theorem nativeInit_stages (s : Process) (h : s.g.init_ = false) :
    wp φ (nativeInit ld) (InitEnd s) (Frame s) (fun _ => False) s := by
  have hrest : RestSpec φ s (fun _ => True) (orReturn checkEnvironment <|
      orReturn (loadArt ld) <| orReturn (loadRuntime ld) <| orReturn loadHeap <|
      orReturn loadRegionSpace <| loadMethods ld finalCheck) :=
    checkEnvironment_spec.orReturn <| (loadArt_spec ld).orReturn <|
      (loadRuntime_spec ld).orReturn <| loadHeap_spec.orReturn <|
      loadRegionSpace_spec.orReturn <| loadMethods_spec ld finalCheck_spec
  simp only [nativeInit, wp_bind, wp_globals, wp_ite, h, Bool.false_eq_true, false_implies,
    not_false_eq_true, true_implies, true_and]
  exact hrest s ⟨rfl, rfl, rfl⟩ trivial

/-- `NativeInit` on an initialised process does nothing. -/
theorem nativeInit_of_init (s : Process) (h : s.g.init_ = true) :
    (nativeInit ld).run φ s = .done .success s := by
  unfold nativeInit
  simp only [run_bind, globals, run_map, run_get, Outcome.bind_done, h, if_true, run_pure]

end Patrons
