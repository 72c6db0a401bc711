import Mathlib.Data.List.Nodup
import Patrons.Verification.Init.Ready

/-! # Invariants of the runs of a process -/

namespace Patrons

open Prog

/-- The globals that `InitEnv` and `DefineOffset` compute anew in every native init. -/
def OnDevice (dev : Device) (g : Globals) : Prop :=
  g.apiLevel = dev.apiLevel ∧
    g.offsetNumRegionsInRegionSpace = dev.globals.offsetNumRegionsInRegionSpace ∧
    g.offsetRegionLimitInRegionSpace = dev.globals.offsetRegionLimitInRegionSpace

theorem onDevice_defineOffset (dev : Device) (g : Globals) :
    OnDevice dev (defineOffset (initEnv dev g)) :=
  ⟨defineOffset_apiLevel dev g, defineOffset_numRegions dev g, defineOffset_regionLimit dev g⟩

theorem layout_of_located {dev : Device} {g : Globals} (hd : OnDevice dev g) (hl : Located g) :
    Layout g := by
  obtain ⟨-, h1, h2, h3, h4, h5⟩ := hl
  refine ⟨h1, h2, h3, h4, h5, ?_⟩
  have hinj : Function.Injective fun o : SizeT => g.regionSpace_ + o := fun a b h => by
    simpa using h
  have h := List.Nodup.map hinj (defineOffset_apart (initEnv dev {}))
  simp only [List.map_cons, List.map_nil] at h
  rw [h1, h2, h3, h4, h5, hd.2.1, hd.2.2]
  exact h

/-- The globals that only `NativeInit` and the registration of the handler write. -/
def Globals.found (g : Globals) :
    (Bool × Bool) × (Addr × Addr × Addr × Addr × Addr × Addr) × ClampFn × Addr × Addr × Addr :=
  ((g.init_, g.hasExceptionHandle_),
    (g.regionSpace_, g.begin_, g.end_, g.limit_, g.numRegions_, g.nonFreeRegionIndexLimit_),
    g.clampGrowthLimit, g.exclusiveLock, g.exclusiveUnlock, g.threadCurrent)

theorem defineOffset_found (g : Globals) : (defineOffset g).found = g.found := by
  rw [defineOffset]
  simp only [apply_ite Globals.found]
  simp only [Globals.found, ite_self]

theorem Prepared.congr {g g' : Globals} (hp : Prepared g) (hf : g'.found = g.found)
    (h1 : g'.apiLevel = g.apiLevel)
    (h2 : g'.offsetNumRegionsInRegionSpace = g.offsetNumRegionsInRegionSpace)
    (h3 : g'.offsetRegionLimitInRegionSpace = g.offsetRegionLimitInRegionSpace) :
    Prepared g' := by
  simp only [Globals.found, Prod.mk.injEq] at hf
  obtain ⟨-, ⟨e1, e2, e3, e4, e5, e6⟩, e7, e8, e9, e10⟩ := hf
  simp only [Prepared, Supported, Located, Methods] at hp ⊢
  simp only [h1, h2, h3, e1, e2, e3, e4, e5, e6, e7, e8, e9, e10]
  exact hp

theorem Prepared.renew {dev : Device} {g g' : Globals} (hp : Prepared g) (hd : OnDevice dev g)
    (hd' : OnDevice dev g') (hf : g'.found = g.found) : Prepared g' :=
  hp.congr hf (hd'.1.trans hd.1.symm) (hd'.2.1.trans hd.2.1.symm) (hd'.2.2.trans hd.2.2.symm)

/-- Between two calls the flag is down, the handler is the installed disposition once it
was registered, and an initialised process is prepared. -/
structure Sound (dev : Device) (s : Process) : Prop where
  flag : s.sig.iWantHandleSignalFlag = false
  handler : s.g.hasExceptionHandle_ = true → s.sig.sigsegv = .customSignalHandler
  device : s.g.init_ = true → OnDevice dev s.g
  prepared : s.g.init_ = true → Prepared s.g

/-! ## One native init -/

theorem handleSignal_flag (k : SigCalls) (s : Signals) :
    (handleSignal k s).2.iWantHandleSignalFlag = s.iWantHandleSignalFlag := by
  unfold handleSignal
  split_ifs <;> rfl

theorem handleSignal_registered {k : SigCalls} {s : Signals} (h : (handleSignal k s).1 = 0) :
    (handleSignal k s).2.sigsegv = .customSignalHandler := by
  unfold handleSignal at *
  have hne : k.regError ≠ 0 := by
    unfold SigCalls.regError
    split_ifs with he
    · decide
    · exact he
  split_ifs at * <;> simp_all

theorem handleSignal_sigsegv {k : SigCalls} {s : Signals}
    (h : s.sigsegv = .customSignalHandler) :
    (handleSignal k s).2.sigsegv = .customSignalHandler := by
  unfold handleSignal
  split_ifs
  · exact h
  · exact h
  · rfl

structure Entered (dev : Device) (k : SigCalls) (s p : Process) : Prop where
  sig : p.sig = (handleSignal k s.sig).2
  art : p.art = s.art
  handler : p.g.hasExceptionHandle_ = true → p.sig.sigsegv = .customSignalHandler
  device : OnDevice dev p.g
  init_ : p.g.init_ = s.g.init_
  prepared : p.g.init_ = true → Prepared p.g

section
variable {dev : Device} {k : SigCalls} {φ : Site → Bool} {s p : Process} (ld : Linker)

def Globals.setHandle (g : Globals) (b : Bool) : Globals := { g with hasExceptionHandle_ := b }

theorem wp_registerSignalHandler :
    wp φ (registerSignalHandler k)
      (fun _ t => t.sig = (handleSignal k s.sig).2 ∧ t.art = s.art ∧
        t.g = s.g.setHandle
          (decide ((handleSignal k s.sig).1 = 0) || s.g.hasExceptionHandle_))
      (fun _ => False) (fun _ => False) s := by
  simp only [registerSignalHandler, wp_bind, wp_logLine, wp_get, wp_modify, wp_ite, wp_setGlobals,
    Process.sig_setLog]
  refine ⟨fun h => ?_, fun h => ?_⟩
  · simp [h, Globals.setHandle]
  · simp [not_not.mp h, Globals.setHandle]

def refreshed (dev : Device) (args : InitArgs) (g : Globals) : Globals :=
  findSymbol ld args.sync args.isFixHuaweiBinder
    (defineOffset (initEnv dev { g with debuggable := args.debuggable }))

theorem refreshed_found (args : InitArgs) (g : Globals) :
    (refreshed ld dev args g).found = g.found :=
  defineOffset_found (initEnv dev { g with debuggable := args.debuggable })

theorem onDevice_refreshed (args : InitArgs) (g : Globals) :
    OnDevice dev (refreshed ld dev args g) :=
  onDevice_defineOffset dev { g with debuggable := args.debuggable }

theorem Sound.entered (hs : Sound dev s) (args : InitArgs) (hsig : p.sig = (handleSignal k s.sig).2)
    (hart : p.art = s.art) (hg : p.g = (refreshed ld dev args s.g).setHandle
      (decide ((handleSignal k s.sig).1 = 0) ||
        (refreshed ld dev args s.g).hasExceptionHandle_)) :
    Entered dev k s p := by
  have hdev : OnDevice dev p.g := by
    rw [hg]
    exact onDevice_refreshed ld args s.g
  have hfound : (refreshed ld dev args s.g).found = s.g.found := refreshed_found ld args s.g
  have hinit : p.g.init_ = s.g.init_ := by
    rw [hg]
    exact congrArg (fun f => f.1.1) hfound
  have hhandle : (refreshed ld dev args s.g).hasExceptionHandle_ = s.g.hasExceptionHandle_ :=
    congrArg (fun f => f.1.2) hfound
  refine ⟨hsig, hart, ?_, hdev, hinit, fun h => ?_⟩
  · rw [hg, hsig, hhandle]
    simp only [Globals.setHandle, Bool.or_eq_true, decide_eq_true_eq]
    intro hend
    rcases hend with h | h
    · exact handleSignal_registered h
    · exact handleSignal_sigsegv (hs.handler h)
  · have hi := hinit.symm.trans h
    have hp := (hs.prepared hi).renew (hs.device hi) (onDevice_refreshed ld args s.g) hfound
    rw [hg]
    exact hp

theorem wp_prepareInit (hs : Sound dev s) (args : InitArgs) :
    wp φ (prepareInit ld dev args k) (fun _ p => Entered dev k s p)
      (fun _ => False) (fun _ => False) s := by
  simp only [prepareInit, wp_bind, wp_setGlobals, wp_when, wp_logLine, cleanLogBuffer, wp_modify,
    Process.g_setGlobals, Process.g_setLog]
  refine ⟨fun _ => ?_, fun _ => ?_⟩
  all_goals
    apply wp_imp wp_registerSignalHandler
    intro _ p hend
    rcases hend with ⟨h1, h2, h3⟩
    simp only [Process.g_setGlobals, Process.sig_setGlobals, Process.sig_setLog,
      Process.art_setGlobals, Process.art_setLog] at h1 h2 h3
    exact hs.entered ld args h1 h2 h3

theorem Entered.flag (he : Entered dev k s p) (hs : Sound dev s) :
    p.sig.iWantHandleSignalFlag = false := by
  rw [he.sig, handleSignal_flag, hs.flag]

theorem Entered.sound (he : Entered dev k s p) (hflag : p.sig.iWantHandleSignalFlag = false)
    {t : Process} (hsig : t.sig = p.sig) (hset : t.g.settled.2 = p.g.settled.2)
    (hp : t.g.init_ = true → Prepared t.g) : Sound dev t := by
  obtain ⟨h1, -, h2, h3, h4⟩ := (by simpa [Globals.settled] using hset :
    t.g.hasExceptionHandle_ = p.g.hasExceptionHandle_ ∧ t.g.debuggable = p.g.debuggable ∧
      t.g.apiLevel = p.g.apiLevel ∧
      t.g.offsetNumRegionsInRegionSpace = p.g.offsetNumRegionsInRegionSpace ∧
      t.g.offsetRegionLimitInRegionSpace = p.g.offsetRegionLimitInRegionSpace)
  refine ⟨by rw [hsig, hflag], fun h => ?_, fun _ => ?_, hp⟩
  · rw [hsig]
    exact he.handler (h1 ▸ h)
  · exact ⟨h2.trans he.device.1, h3.trans he.device.2.1, h4.trans he.device.2.2⟩

theorem wp_nativeInit (hp : p.g.init_ = true → Prepared p.g) :
    wp φ (nativeInit ld)
      (fun code t => t.sig = p.sig ∧ t.art = p.art ∧ t.g.settled.2 = p.g.settled.2 ∧
        (code = .success ↔ t.g.init_ = true) ∧ (t.g.init_ = true → Prepared t.g) ∧
        (p.g.init_ = true → t.g.init_ = true))
      (fun t => Frame p t ∧ p.g.init_ = false) (fun _ => False) p := by
  cases hi : p.g.init_ with
  | true =>
      rw [wp, nativeInit_of_init ld p hi, Outcome.ends_done]
      exact ⟨rfl, rfl, rfl, by simp [hi], hp, fun _ => hi⟩
  | false =>
      refine wp_mono (nativeInit_stages ld p hi) ?_ ?_ fun _ h => h
      · intro code t hend
        rcases hend with ⟨h1, h2, h3, h4, h5⟩
        have hiff : code = .success ↔ t.g.init_ = true := by
          refine ⟨fun h => (h4 h).1, fun h => ?_⟩
          by_contra hc
          rw [h5 hc, hi] at h
          exact absurd h (by simp)
        exact ⟨h1, h2, h3, hiff, fun h => (h4 (hiff.mpr h)).2, by simp⟩
      · exact fun t h => ⟨h, rfl⟩

/-- A SIGSEGV in the guarded init comes back to its `sigsetjmp`, and lowers the flag. -/
theorem wp_nativeInitProtected (hs : Sound dev s) (he : Entered dev k s p)
    (hexc : p.g.hasExceptionHandle_ = true) :
    wp φ (nativeInitProtected ld)
      (fun code t => Sound dev t ∧ (code = .success ↔ t.g.init_ = true) ∧
        (s.g.init_ = true → t.g.init_ = true) ∧ t.sig = (handleSignal k s.sig).2 ∧
        t.art = s.art)
      (fun _ => False) (fun _ => False) p := by
  have hflag : p.sig.iWantHandleSignalFlag = false := he.flag hs
  simp only [nativeInitProtected, wp_bind, wp_setHandleSignalFlag, wp_guarded, wp_pure,
    wp_logLine]
  have hspec := wp_nativeInit (φ := φ) ld (p := p.setSig (p.sig.setFlag true))
    (by simpa using he.prepared)
  simp only [Process.sig_setSig, Process.art_setSig, Process.g_setSig] at hspec
  refine wp_mono hspec ?_ ?_ fun _ h => h
  · intro code t hend
    rcases hend with ⟨h1, h2, h3, h4, h5, h6⟩
    have hsig : (t.setSig (t.sig.setFlag false)).sig = p.sig := by
      rw [Process.sig_setSig, h1, Signals.setFlag_setFlag, Signals.setFlag_self hflag]
    refine ⟨he.sound hflag hsig (by simpa using h3) (by simpa using h5), by simpa using h4,
      fun h => by simpa using h6 (he.init_.trans h), hsig.trans he.sig, ?_⟩
    simpa [h2] using he.art
  · intro t hend
    rcases hend with ⟨⟨h1, h2, h3⟩, h4⟩
    simp only [Process.sig_setSig, Process.art_setSig, Process.g_setSig] at h1 h2 h3
    have hjump : deliver t.sig = .jump p.sig := by
      rw [h1, deliver_setFlag (he.handler hexc), Signals.setFlag_self hflag]
    have hdown : p.sig.setFlag false = p.sig := Signals.setFlag_self hflag
    simp only [hjump, Process.sig_setSig, Process.sig_setLog, hdown]
    have hinit : t.g.init_ = false := (congrArg Prod.fst h3).trans h4
    refine ⟨he.sound hflag (by simp) ?_ ?_, ?_, ?_, by simpa using he.sig, ?_⟩
    · simpa using congrArg Prod.snd h3
    · simp [hinit]
    · simp [hinit]
    · simp [← he.init_, h4]
    · simpa [h2] using he.art

/-- A native init that returns keeps the invariants, leaves ART alone and changes the
signal state by its call of `HandleSignal` only. -/
theorem wp_init (hs : Sound dev s) (args : InitArgs) :
    wp φ (init ld dev args k)
      (fun code t => Sound dev t ∧ (code = .success ↔ t.g.init_ = true) ∧
        (s.g.init_ = true → t.g.init_ = true) ∧ t.sig = (handleSignal k s.sig).2 ∧
        t.art = s.art)
      (fun _ => True) (fun _ => False) s := by
  simp only [init, wp_bind, wp_globals, wp_ite]
  refine wp_mono (wp_prepareInit ld hs args) ?_ (fun _ h => h.elim) fun _ h => h
  intro _ p he
  refine ⟨fun hm => ?_, fun _ => ?_⟩
  · obtain ⟨hexc, -⟩ := by simpa using hm
    exact wp_total (wp_nativeInitProtected ld hs he hexc) fun _ _ h => h
  · refine wp_mono (wp_nativeInit ld he.prepared) ?_ (fun _ _ => trivial) fun _ h => h
    intro code t hend
    rcases hend with ⟨h1, h2, h3, h4, h5, h6⟩
    exact ⟨he.sound (he.flag hs) h1 h3 h5, h4, fun h => h6 (he.init_.trans h), h1.trans he.sig,
      h2.trans he.art⟩

end

end Patrons
