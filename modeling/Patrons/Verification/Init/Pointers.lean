import Patrons.Verification.Region.Shrink

/-! # The pointers of an initialised process

Native init checks most of the symbols that it looks up. What it does not check is found
exactly when `libart` has it. -/

namespace Patrons

open Prog

/-! ## The libart of one call -/

/-- What the stages of one native init leave alone: what their lookups depend on besides the
handle of `libart`, and the offset of the bitmap. -/
def Globals.linkage (g : Globals) : Addr × Addr × Addr × ℤ × SizeT :=
  (g.loaderDlopen, g.loaderDlsym, g.stubMethodInArt, g.apiLevel, g.offsetSpaceBitmapInRegionSpace)

section
variable (ld : Linker)

/-- The answer of `dlsym` for a symbol of the `libart` that is opened from `g` on. -/
def symbolIn (g : Globals) (symbol : String) : Addr :=
  dlsymArt ld { g with art_ := dlopenArt ld g (getArtPath g.apiLevel) } symbol

theorem symbolIn_congr {g g' : Globals} (h : g'.linkage = g.linkage) :
    symbolIn ld g' = symbolIn ld g := by
  simp only [Globals.linkage, Prod.mk.injEq] at h
  rcases h with ⟨h₁, h₂, h₃, h₄, -⟩
  funext symbol
  simp only [symbolIn, dlsymArt, dlopenArt, callerAddr, h₁, h₂, h₃, h₄]

/-! ## Stages -/

/-- A stage that goes on from `I` goes on in `J`. -/
def StageTo (φ : Site → Bool) (I J : Process → Prop) (stage : Native (Option Code)) : Prop :=
  ∀ s, I s → wp φ stage (fun r t => r ≠ some .success ∧ (r = none → J t)) (fun _ => True)
    (fun _ => False) s

/-- From `I` the rest of `NativeInit` ends in `E` where it returns `SUCCESS`. -/
def RestTo (φ : Site → Bool) (I E : Process → Prop) (rest : Native Code) : Prop :=
  ∀ s, I s → wp φ rest (fun code t => code = .success → E t) (fun _ => True) (fun _ => False) s

variable {φ : Site → Bool} {I J E : Process → Prop} {p : Process}

theorem StageTo.orReturn {stage : Native (Option Code)} {rest : Native Code}
    (hs : StageTo φ I J stage) (hr : RestTo φ J E rest) : RestTo φ I E (orReturn stage rest) := by
  intro s hi
  rw [wp_orReturn]
  apply wp_imp (hs s hi)
  intro r t hend
  rcases hend with ⟨hne, hj⟩
  refine ⟨?_, fun hnone => hr t (hj hnone)⟩
  intro c hc hsuccess
  rw [hc, hsuccess] at hne
  exact absurd rfl hne

/-- The stages leave ART and what the lookups depend on alone. -/
def Linked (p t : Process) : Prop := t.art = p.art ∧ t.g.linkage = p.g.linkage

@[simp] theorem linked_setLog {t : Process} {r : LogRing} :
    Linked p (t.setLog r) ↔ Linked p t := by
  simp [Linked]

def Opened (p t : Process) : Prop :=
  Linked p t ∧ t.g.art_ = dlopenArt ld p.g (getArtPath p.g.apiLevel)

theorem Linked.apiLevel {t : Process} (h : Linked p t) : t.g.apiLevel = p.g.apiLevel :=
  congrArg (fun l => l.2.2.2.1) h.2

theorem Linked.dlopenArt {t : Process} (h : Linked p t) (name : String) :
    dlopenArt ld t.g name = dlopenArt ld p.g name := by
  have hlink := h.2
  simp only [Globals.linkage, Prod.mk.injEq] at hlink
  rcases hlink with ⟨h₁, -, h₃, -, -⟩
  simp only [Patrons.dlopenArt, callerAddr, h₁, h₃]

theorem Opened.dlsymArt {t : Process} (h : Opened ld p t) (symbol : String) :
    dlsymArt ld t.g symbol = symbolIn ld p.g symbol := by
  have hlink := h.1.2
  simp only [Globals.linkage, Prod.mk.injEq] at hlink
  rcases hlink with ⟨-, h₂, h₃, -, -⟩
  simp only [symbolIn, Patrons.dlsymArt, callerAddr, h.2, h₂, h₃]

theorem checkEnvironment_to : StageTo φ (Linked p) (Linked p) checkEnvironment := by
  intro s hs
  simp only [checkEnvironment, isAndroidVersionMatch, wp_bind, wp_globals, wp_logLine, wp_ite,
    wp_pure, Bool.not_true, Bool.not_false, linked_setLog]
  simp [hs]

theorem loadArt_to : StageTo φ (Linked p) (Opened ld p) (loadArt ld) := by
  intro s hs
  simp only [loadArt, wp_bind, wp_globals, wp_setGlobals, wp_logLine, wp_ite, wp_pure]
  refine ⟨fun _ => ⟨by simp, by simp⟩, fun _ => ⟨by simp, fun _ => ⟨hs, ?_⟩⟩⟩
  rw [← hs.dlopenArt ld, ← hs.apiLevel]
  rfl

def Exported (g : Globals) (symbol : String) : Prop := symbolIn ld g symbol ≠ 0

def Instance (p t : Process) : Prop :=
  Opened ld p t ∧ Exported ld p.g "_ZN3art7Runtime9instance_E"

theorem loadRuntime_to : StageTo φ (Opened ld p) (Instance ld p) (loadRuntime ld) := by
  intro s hs
  simp only [loadRuntime, wp_bind, wp_globals, wp_load, wp_setGlobals, wp_logLine, wp_ite,
    wp_pure]
  refine ⟨fun _ => trivial, fun h => ⟨fun _ => ⟨by simp, by simp⟩, fun _ => ⟨by simp, ?_⟩⟩⟩
  intro _
  refine ⟨hs, ?_⟩
  rw [Exported, ← hs.dlsymArt]
  simpa [raises] using (Bool.or_eq_false_iff.mp h).2

theorem loadHeap_to : StageTo φ (Instance ld p) (Instance ld p) loadHeap := by
  intro s hs
  simp only [loadHeap, wp_bind, wp_globals, wp_load, wp_setGlobals, wp_logLine, wp_ite, wp_pure]
  exact ⟨fun _ => trivial, fun _ => ⟨fun _ => ⟨by simp, by simp⟩,
    fun _ => ⟨by simp, fun _ => hs⟩⟩⟩

theorem loadRegionSpace_to : StageTo φ (Instance ld p) (Instance ld p) loadRegionSpace := by
  intro s hs
  simp only [loadRegionSpace, wp_bind, wp_globals, wp_load, wp_setGlobals, wp_logLine, wp_ite,
    wp_pure]
  exact ⟨fun _ => trivial, fun _ => ⟨fun _ => ⟨by simp, by simp⟩,
    fun _ => ⟨by simp, fun _ => hs⟩⟩⟩

/-! ## Methods -/

/-- The two methods that `ClampGrowthLimit__` calls are as `dlsym` answered. -/
def Assigned (p t : Process) : Prop :=
  Instance ld p t ∧
    t.g.setHeapSize = symbolIn ld p.g
      "_ZN3art2gc10accounting11SpaceBitmapILj4096EE11SetHeapSizeEj" ∧
    t.g.setSize = symbolIn ld p.g "_ZN3art6MemMap7SetSizeEj"

def LocksExported (g : Globals) : Prop :=
  Exported ld g "_ZN3art5Mutex13ExclusiveLockEPNS_6ThreadE" ∧
    Exported ld g "_ZN3art5Mutex15ExclusiveUnlockEPNS_6ThreadE" ∧
    Exported ld g "_ZN3art6Thread14CurrentFromGdbEv"

def Complete (p t : Process) : Prop :=
  Assigned ld p t ∧ t.g.clampGrowthLimit ≠ .art 0 ∧ (p.g.apiLevel < 28 → LocksExported ld p.g)

theorem lookup_to {symbol missing : String} {set : Addr → Globals → Globals} {code : Code}
    (hcode : code ≠ .success) (hi : ∀ t, I t → Opened ld p t)
    (hj : ∀ t f, Exported ld p.g symbol → I t → J (t.setGlobals (set f t.g))) :
    StageTo φ I J (lookup ld symbol set missing code) := by
  intro s hs
  simp only [lookup, wp_bind, wp_globals, wp_setGlobals, wp_logLine, wp_ite, wp_pure]
  refine ⟨fun _ => ⟨by simpa using hcode, by simp⟩, fun h => ⟨by simp, fun _ => hj s _ ?_ hs⟩⟩
  rw [Exported, ← (hi s hs).dlsymArt]
  exact h

theorem loadLocks_to {rest : Native Code} (hr : RestTo φ (Complete ld p) E rest) :
    RestTo φ (fun t => Assigned ld p t ∧ t.g.clampGrowthLimit = .own) E (loadLocks ld rest) := by
  refine StageTo.orReturn (J := fun t => (Assigned ld p t ∧ t.g.clampGrowthLimit = .own) ∧
    Exported ld p.g "_ZN3art5Mutex13ExclusiveLockEPNS_6ThreadE") ?_ (StageTo.orReturn
    (J := fun t => (Assigned ld p t ∧ t.g.clampGrowthLimit = .own) ∧
    Exported ld p.g "_ZN3art5Mutex13ExclusiveLockEPNS_6ThreadE" ∧
    Exported ld p.g "_ZN3art5Mutex15ExclusiveUnlockEPNS_6ThreadE") ?_ (StageTo.orReturn ?_ hr))
  · exact lookup_to ld (by simp) (fun _ h => h.1.1.1) fun _ _ hf h => ⟨h, hf⟩
  · exact lookup_to ld (by simp) (fun _ h => h.1.1.1.1) fun _ _ hf h => ⟨h.1, h.2, hf⟩
  · refine lookup_to ld (by simp) (fun _ h => h.1.1.1.1) ?_
    intro t f hf h
    rcases h with ⟨⟨hassigned, hown⟩, hlock, hunlock⟩
    refine ⟨hassigned, ?_, fun _ => ⟨hlock, hunlock, hf⟩⟩
    rw [Process.g_setGlobals, hown]
    simp

theorem loadResizeMethod_to {rest : Native Code} (hr : RestTo φ (Complete ld p) E rest) :
    RestTo φ (Assigned ld p) E (loadResizeMethod ld rest) := by
  intro s hs
  simp only [loadResizeMethod, wp_bind, wp_globals, wp_ite, wp_setGlobals]
  refine ⟨fun h => ?_, fun _ => loadLocks_to ld hr _ ⟨hs, rfl⟩⟩
  have hlevel : ¬ p.g.apiLevel < 28 := by
    rw [← hs.1.1.1.apiLevel]
    omega
  have hlookup : StageTo φ (Assigned ld p) (Complete ld p)
      (lookup ld "_ZN3art2gc5space11RegionSpace16ClampGrowthLimitEj"
        (fun f g => { g with clampGrowthLimit := if f = 0 then .null else .art f })
        "resize method is NULL" .resizeMethodNotFound) := by
    refine lookup_to ld (by simp) (fun _ h => h.1.1) ?_
    intro t f _ h
    refine ⟨h, ?_, fun hlt => absurd hlt hlevel⟩
    rw [Process.g_setGlobals]
    dsimp only
    split_ifs with hf
    · simp
    · simpa using hf
  exact hlookup.orReturn hr s hs

theorem loadMethods_to {rest : Native Code} (hr : RestTo φ (Complete ld p) E rest) :
    RestTo φ (Instance ld p) E (loadMethods ld rest) := by
  intro s hs
  simp only [loadMethods, wp_bind, wp_setGlobals]
  exact loadResizeMethod_to ld hr _ ⟨hs, hs.1.dlsymArt ld _, hs.1.dlsymArt ld _⟩

/-- What a `SUCCESS` of `NativeInit` vouches for. -/
def Found (p t : Process) : Prop :=
  Complete ld p t ∧ t.fields.numRegions = t.fields.capacity / kRegionSize

theorem finalCheck_to : RestTo φ (Complete ld p) (Found ld p) finalCheck := by
  intro s hs
  simp only [finalCheck, wp_bind, wp_globals, wp_logLine, wp_nonGrowthLimitCapacity, wp_load,
    wp_ite, wp_pure, wp_setGlobals, Process.g_setLog, Process.art_setLog]
  refine ⟨fun _ => trivial, fun _ => ⟨fun _ => trivial, fun _ => ⟨fun _ => trivial, fun _ => ?_⟩⟩⟩
  refine ⟨fun _ => ⟨fun _ => trivial, fun _ => by simp⟩, fun hmatch => ?_⟩
  refine ⟨fun _ => trivial, fun _ => ⟨fun _ => trivial, fun _ => ⟨fun _ => trivial, fun _ => ?_⟩⟩⟩
  exact fun _ => ⟨hs, not_not.mp hmatch⟩

theorem nativeInit_found (h : p.g.init_ = false) :
    wp φ (nativeInit ld) (fun code t => code = .success → Found ld p t) (fun _ => True)
      (fun _ => False) p := by
  have hrest : RestTo φ (Linked p) (Found ld p) (orReturn checkEnvironment <|
      orReturn (loadArt ld) <| orReturn (loadRuntime ld) <| orReturn loadHeap <|
      orReturn loadRegionSpace <| loadMethods ld finalCheck) :=
    checkEnvironment_to.orReturn <| (loadArt_to ld).orReturn <| (loadRuntime_to ld).orReturn <|
      (loadHeap_to ld).orReturn <| (loadRegionSpace_to ld).orReturn <|
      loadMethods_to ld (finalCheck_to ld)
  simp only [nativeInit, wp_bind, wp_globals, wp_ite, h, Bool.false_eq_true, false_implies,
    not_false_eq_true, true_implies, true_and]
  exact hrest p ⟨rfl, rfl⟩

/-! ## The JNI function -/

/-- The pointers to functions that only `NativeInit` writes. -/
def Globals.methods (g : Globals) : ClampFn × Addr × Addr :=
  (g.clampGrowthLimit, g.setHeapSize, g.setSize)

theorem refreshed_methods (dev : Device) (args : InitArgs) (g : Globals) :
    (refreshed ld dev args g).methods = g.methods := by
  have h : ∀ g, (defineOffset g).methods = g.methods := by
    intro g
    rw [defineOffset]
    simp only [apply_ite Globals.methods]
    simp only [Globals.methods, ite_self]
  exact h (initEnv dev { g with debuggable := args.debuggable })

variable {dev : Device} {k : SigCalls} {s : Process}

theorem wp_prepareInit_refreshed (args : InitArgs) :
    wp φ (prepareInit ld dev args k)
      (fun _ p => p.art = s.art ∧ ∃ b, p.g = (refreshed ld dev args s.g).setHandle b)
      (fun _ => False) (fun _ => False) s := by
  simp only [prepareInit, wp_bind, wp_setGlobals, wp_when, wp_logLine, cleanLogBuffer, wp_modify,
    Process.g_setGlobals, Process.g_setLog]
  refine ⟨fun _ => ?_, fun _ => ?_⟩
  all_goals
    apply wp_imp wp_registerSignalHandler
    intro _ p hend
    rcases hend with ⟨-, hart, hg⟩
    simp only [Process.g_setGlobals, Process.art_setGlobals, Process.art_setLog] at hart hg
    exact ⟨hart, _, hg⟩

/-- An init that sets `init_` has found what `Found` lists, and one that meets `init_` set
leaves the globals alone. -/
def InitFound (p t : Process) : Prop :=
  t.g.init_ = true → if p.g.init_ then t.g = p.g else Found ld p t

theorem InitFound.linkage {t : Process} (h : InitFound ld p t) (hinit : t.g.init_ = true) :
    t.g.linkage = p.g.linkage := by
  have hf := h hinit
  split at hf
  · rw [hf]
  · exact hf.1.1.1.1.1.2

theorem wp_nativeInit_found (hp : p.g.init_ = true → Prepared p.g) :
    wp φ (nativeInit ld) (fun _ t => InitFound ld p t) (fun t => t.g.init_ = false)
      (fun _ => False) p := by
  cases hi : p.g.init_ with
  | true =>
      rw [wp, nativeInit_of_init ld p hi, Outcome.ends_done]
      intro _
      simp [hi]
  | false =>
      refine wp_mono (wp_and (wp_nativeInit ld hp) (nativeInit_found ld hi)) ?_ ?_ fun _ h => h.1
      · intro code t hend ht
        rcases hend with ⟨⟨-, -, -, hcode, -⟩, hfound⟩
        rw [hi]
        exact hfound (hcode.mpr ht)
      · intro t hend
        rcases hend with ⟨⟨⟨-, -, hsettled⟩, -⟩, -⟩
        exact (congrArg Prod.fst hsettled).trans hi

theorem wp_nativeInitProtected_found (hp : p.g.init_ = true → Prepared p.g) :
    wp φ (nativeInitProtected ld) (fun _ t => InitFound ld p t) (fun _ => True)
      (fun _ => False) p := by
  simp only [nativeInitProtected, wp_bind, wp_setHandleSignalFlag, wp_guarded, wp_pure,
    wp_logLine]
  have hspec := wp_nativeInit_found (φ := φ) ld (p := p.setSig (p.sig.setFlag true))
    (by simpa using hp)
  refine wp_mono hspec ?_ ?_ fun _ h => h
  · exact fun _ t h => h
  · intro t hinit
    split
    · intro h
      simp only [Process.g_setSig, Process.g_setLog, hinit] at h
      exact absurd h (by simp)
    · trivial
    · trivial

theorem wp_init_found (hs : Sound dev s) (args : InitArgs) :
    wp φ (init ld dev args k)
      (fun _ t => ∃ p, (p.art = s.art ∧ ∃ b, p.g = (refreshed ld dev args s.g).setHandle b) ∧
        InitFound ld p t)
      (fun _ => True) (fun _ => False) s := by
  simp only [init, wp_bind, wp_globals, wp_ite]
  refine wp_mono (wp_and (wp_prepareInit ld hs args) (wp_prepareInit_refreshed ld args)) ?_
    (fun _ h => h.1.elim) fun _ h => h.1
  intro _ p hend
  rcases hend with ⟨he, hrefreshed⟩
  refine ⟨fun _ => ?_, fun _ => ?_⟩
  · apply wp_imp (wp_nativeInitProtected_found ld he.prepared)
    exact fun _ t h => ⟨p, hrefreshed, h⟩
  · refine wp_mono (wp_nativeInit_found ld he.prepared) ?_ (fun _ _ => trivial) fun _ h => h
    exact fun _ t h => ⟨p, hrefreshed, h⟩

end

/-! ## Every run -/

/-- Every pointer that `ResizeRegionSpace` calls through on this version is there. -/
structure Callable (g : Globals) : Prop where
  clamp : g.clampGrowthLimit ≠ .null ∧ g.clampGrowthLimit ≠ .art 0
  locks : g.apiLevel < 28 → g.exclusiveLock ≠ 0 ∧ g.exclusiveUnlock ≠ 0 ∧ g.threadCurrent ≠ 0
  sizes : g.apiLevel < 28 → g.setHeapSize ≠ 0 ∧ g.setSize ≠ 0

/-- A native init answers `SUCCESS` exactly when `init_` is set afterwards, and where `init_` is
set there is a region space, its regions were counted when `init_` was set, and the methods are
callable. -/
structure PointersFound (dev : Device) (s : Process) (e : Event) (t : Process) : Prop where
  answer : ∀ ld args k φ code, e = .init ld args k φ →
    (init ld dev args k).run φ s = .done code t → (code = .success ↔ t.g.init_ = true)
  space : t.g.init_ = true → t.g.regionSpace_ ≠ 0
  regions : s.g.init_ = false → t.g.init_ = true →
    t.fields.numRegions = t.fields.capacity / kRegionSize
  methods : t.g.init_ = true → Callable t.g

/-- Below Android P, the `libart` of a first init exports `SetHeapSize` and `SetSize` if it
exports every symbol that is checked. -/
def SizesExported (dev : Device) (s : Process) : Event → Process → Prop
  | .init ld args _ _, _ =>
    let g := refreshed ld dev args s.g
    s.g.init_ = false → dev.apiLevel < 28 →
      Exported ld g "_ZN3art7Runtime9instance_E" ∧ LocksExported ld g →
      Exported ld g "_ZN3art2gc10accounting11SpaceBitmapILj4096EE11SetHeapSizeEj" ∧
        Exported ld g "_ZN3art6MemMap7SetSizeEj"
  | _, _ => True

section
variable {lib : ArtLib} {dev : Device} {s t : Process} {e : Event}

theorem init_or_globals (hs : Sound dev s) (h : (process lib dev).step s e = some t) :
    (∃ ld args k φ code, e = .init ld args k φ ∧ (init ld dev args k).run φ s = .done code t) ∨
      ((∀ ld args k φ, e ≠ .init ld args k φ) ∧ t.g = s.g) := by
  cases e with
  | init ld args k φ =>
      obtain ⟨code, hr⟩ := after_eq_some.mp h
      exact .inl ⟨ld, args, k, φ, code, rfl, hr⟩
  | shrinkRegionSpace n φ =>
      obtain ⟨r, hr⟩ := after_eq_some.mp h
      exact .inr ⟨by simp, (wp_done (shrinkRegionSpace_keeps hs n) hr).1⟩
  | getCurrentRegionSpaceSize φ =>
      obtain ⟨r, hr⟩ := after_eq_some.mp h
      exact .inr ⟨by simp, (wp_done (getCurrentRegionSpaceSize_keeps s) hr).1⟩
  | dumpLogs clean =>
      obtain rfl : s.setLog _ = t := Option.some.inj h
      exact .inr ⟨by simp, by simp⟩
  | art mem =>
      obtain rfl : s.setArt _ = t := Option.some.inj h
      exact .inr ⟨by simp, by simp⟩

/-- What a run carries along. -/
structure Armed (dev : Device) (s : Process) : Prop where
  sound : Sound dev s
  callable : s.g.init_ = true → Callable s.g

theorem Armed.pointersFound_of_globals (hs : Armed dev s) (hg : t.g = s.g)
    (he : ∀ ld args k φ, e ≠ .init ld args k φ) : PointersFound dev s e t := by
  refine ⟨fun ld args k φ _ h => absurd h (he ld args k φ), fun h => ?_, fun h h' => ?_,
    fun h => ?_⟩
  · rw [hg] at h ⊢
    exact (hs.sound.prepared h).2.1.1
  · rw [hg, h] at h'
    exact absurd h' (by simp)
  · rw [hg] at h ⊢
    exact hs.callable h

/-- The three pointers that `Prepared` says nothing or too little about. -/
theorem callable_of_prepared {g : Globals} (hp : Prepared g) (hart : g.clampGrowthLimit ≠ .art 0)
    (hsizes : g.apiLevel < 28 → g.setHeapSize ≠ 0 ∧ g.setSize ≠ 0) : Callable g :=
  ⟨⟨hp.2.2.1, hart⟩, hp.2.2.2.2, hsizes⟩

theorem Callable.renew {g g' : Globals} (hc : Callable g) (hp : Prepared g')
    (hm : g'.methods = g.methods) (hlevel : g'.apiLevel = g.apiLevel) : Callable g' := by
  simp only [Globals.methods, Prod.mk.injEq] at hm
  rcases hm with ⟨hclamp, hheap, hsize⟩
  refine callable_of_prepared hp ?_ fun h => ?_
  · rw [hclamp]
    exact hc.clamp.2
  · rw [hheap, hsize]
    exact hc.sizes (hlevel ▸ h)

theorem callable_of_found {ld : Linker} {p : Process} (hp : Prepared t.g) (hf : Found ld p t)
    (hsizes : t.g.apiLevel < 28 → Exported ld p.g "_ZN3art7Runtime9instance_E" ∧
      LocksExported ld p.g →
      Exported ld p.g "_ZN3art2gc10accounting11SpaceBitmapILj4096EE11SetHeapSizeEj" ∧
        Exported ld p.g "_ZN3art6MemMap7SetSizeEj") : Callable t.g := by
  rcases hf with ⟨⟨⟨⟨hopened, hinstance⟩, hheap, hsize⟩, hart, hlocks⟩, -⟩
  refine callable_of_prepared hp hart fun h => ?_
  rw [hheap, hsize]
  exact hsizes h ⟨hinstance, hlocks (hopened.1.apiLevel ▸ h)⟩

theorem Armed.pointersFound_of_init (hs : Armed dev s) {ld : Linker} {args : InitArgs}
    {k : SigCalls} {φ : Site → Bool} {code : Code}
    (hr : (init ld dev args k).run φ s = .done code t)
    (hsizes : SizesExported dev s (.init ld args k φ) t) :
    PointersFound dev s (.init ld args k φ) t := by
  obtain ⟨hsound, hcode, -⟩ := wp_done (wp_init ld hs.sound args) hr
  obtain ⟨p, ⟨-, b, hp⟩, hfound⟩ := wp_done (wp_init_found ld hs.sound args) hr
  have hinit : p.g.init_ = s.g.init_ := by
    rw [hp]
    exact congrArg (fun f => f.1.1) (refreshed_found ld args s.g)
  have hlevel : ∀ h : t.g.init_ = true, t.g.apiLevel = dev.apiLevel := fun h =>
    (hsound.device h).1
  refine ⟨?_, fun h => (hsound.prepared h).2.1.1, fun h h' => ?_, fun h => ?_⟩
  · intro ld' args' k' φ' code' heq hr'
    cases heq
    rw [hr] at hr'
    cases hr'
    exact hcode
  · have hf := hfound h'
    rw [hinit, h] at hf
    exact hf.2
  · have hf := hfound h
    have hp' := hsound.prepared h
    cases hi : s.g.init_ with
    | true =>
        rw [hinit, hi, if_pos rfl, hp] at hf
        have hdevice := (hs.sound.device hi).1
        have hmethods : t.g.methods = s.g.methods := by
          rw [hf]
          exact refreshed_methods ld dev args s.g
        exact (hs.callable hi).renew hp' hmethods ((hlevel h).trans hdevice.symm)
    | false =>
        rw [hinit, hi] at hf
        refine callable_of_found hp' hf fun hlt => ?_
        rw [hlevel h] at hlt
        have hcongr : symbolIn ld p.g = symbolIn ld (refreshed ld dev args s.g) := by
          rw [hp]
          exact symbolIn_congr ld rfl
        simp only [LocksExported, Exported, hcongr]
        exact hsizes hi hlt

theorem armed_step (hs : Armed dev s) (h : (process lib dev).step s e = some t)
    (hsizes : SizesExported dev s e t) : PointersFound dev s e t ∧ Armed dev t := by
  have hfound : PointersFound dev s e t := by
    rcases init_or_globals hs.sound h with ⟨ld, args, k, φ, code, rfl, hr⟩ | ⟨he, hg⟩
    · exact hs.pointersFound_of_init hr hsizes
    · exact hs.pointersFound_of_globals hg he
  exact ⟨hfound, (sound_step hs.sound h).1, hfound.methods⟩

/-- In a process that only meets such a `libart`, native init answers `SUCCESS` exactly where it
has found everything that a resize needs. -/
theorem pointersFound (lib : ArtLib) (dev : Device) (mem : Mem) (handler : ℕ) (es : List Event)
    (h : (process lib dev).Each (SizesExported dev) es (Process.loaded mem handler)) :
    (process lib dev).Each (PointersFound dev) es (Process.loaded mem handler) :=
  Machine.each_of_invariant (I := Armed dev) (fun _ _ _ hs hstep hsizes =>
    armed_step hs hstep hsizes) ⟨sound_loaded mem handler, by simp [Process.loaded]⟩ h

theorem pointersFound_android81 :
    (process Phone.art (Phone.device 27)).Each (PointersFound (Phone.device 27))
      [.init (Phone.linker true) ⟨true, false, false⟩ {} Phone.noFault,
        .shrinkRegionSpace 256 Phone.noFault]
      (Process.loaded (Phone.mem 400) 0) := by
  refine pointersFound _ _ _ _ _ fun t _ => ⟨fun _ _ _ => ?_, fun _ _ => ⟨trivial, trivial⟩⟩
  unfold Exported
  decide +kernel

/-- With a `libart` that lacks `SetHeapSize`, native init on Android 8.1 answers `SUCCESS` and
leaves a `NULL` that a resize calls. -/
theorem success_without_setHeapSize :
    ∃ t, (init (Phone.linker false) (Phone.device 27) ⟨true, false, false⟩ {}).run Phone.noFault
          (Process.loaded (Phone.mem 400) 0) = .done .success t ∧
      t.g.init_ = true ∧ t.g.apiLevel < 28 ∧ t.g.setHeapSize = 0 ∧
      ¬ (process Phone.art (Phone.device 27)).Each (PointersFound (Phone.device 27))
        [.init (Phone.linker false) ⟨true, false, false⟩ {} Phone.noFault]
        (Process.loaded (Phone.mem 400) 0) := by
  obtain ⟨_, t, ht, rfl⟩ := Outcome.exists_done
    (o := Phone.start 27 false false 400) (f := Prod.fst) (b := .success) (by decide +kernel)
  obtain ⟨_, t', ht', hfacts⟩ := Outcome.exists_done
    (o := Phone.start 27 false false 400)
    (f := fun r => (r.2.g.init_, decide (r.2.g.apiLevel < 28), r.2.g.setHeapSize))
    (b := (true, true, 0)) (by decide +kernel)
  rw [ht] at ht'
  cases ht'
  simp only [Prod.mk.injEq, decide_eq_true_eq] at hfacts
  rcases hfacts with ⟨hinit, hlevel, hheap⟩
  refine ⟨t, ht, hinit, hlevel, hheap, fun h => ?_⟩
  have hstep := (h t (after_eq_some.mpr ⟨_, ht⟩)).1
  exact ((hstep.methods hinit).sizes hlevel).1 hheap

end

end Patrons
