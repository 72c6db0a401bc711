import Patrons.Verification.Init.Reach

/-! # The JNI function `shrinkRegionSpace` on an initialised process -/

namespace Patrons

open Prog

def Globals.isProtected (g : Globals) : Bool := g.hasExceptionHandle_ && !g.debuggable

section
variable (s : Process) (sig : Signals) (r : LogRing) (w : JInt)

@[simp] theorem fields_setSig : (s.setSig sig).fields = s.fields := by
  simp [Process.fields]

@[simp] theorem fields_setLog : (s.setLog r).fields = s.fields := by
  simp [Process.fields]

theorem resized_setSig (lib : ArtLib) :
    resized lib (s.setSig sig) w = (resized lib s w).setSig sig := by
  unfold resized
  simp only [fields_setSig, Process.log_setSig, Process.g_setSig, Process.art_setSig]
  split <;> cases s <;> rfl

@[simp] theorem g_resized (lib : ArtLib) : (resized lib s w).g = s.g := by
  unfold resized
  split <;> simp

@[simp] theorem sig_resized (lib : ArtLib) : (resized lib s w).sig = s.sig := by
  unfold resized
  split <;> simp

end

variable {lib : ArtLib} {dev : Device} {φ : Site → Bool} {s : Process}

/-- On an initialised process the guards of the JNI function let the call through. -/
theorem run_shrinkRegionSpace (hi : s.g.init_ = true) (hp : Prepared s.g) (n : JInt) :
    (shrinkRegionSpace lib n).run φ s =
      if s.g.isProtected then (shrinkProtected lib n).run φ s
      else (resizeRegionSpace lib (n * MB)).run φ s := by
  obtain ⟨⟨h1, h2⟩, ⟨h3, -⟩, h4, -⟩ := hp
  have hv : (decide (s.g.apiLevel < 26) || decide (31 < s.g.apiLevel)) = false := by
    simp only [Bool.or_eq_false_iff, decide_eq_false_iff_not]
    omega
  have hk : (s.g.clampGrowthLimit != .null && s.g.regionSpace_ != 0) = true := by
    rw [Bool.and_eq_true, bne_iff_ne, bne_iff_ne]
    exact ⟨h4, h3⟩
  have hm : (s.g.hasExceptionHandle_ && !s.g.debuggable) = s.g.isProtected := rfl
  simp only [shrinkRegionSpace, isAndroidVersionMatch, globals, run_bind, run_map, run_get,
    Outcome.bind_done, hv, Bool.false_eq_true, if_false, run_pure, Bool.not_true, hi, hk, if_true,
    hm, run_ite]

/-- A guarded resize returns `true` whatever `ResizeRegionSpace` answered, and `false`
after a SIGSEGV. -/
theorem wp_shrinkProtected (hl : Layout s.g) (n : JInt) :
    wp φ (shrinkProtected lib n)
      (fun r t => t.sig = s.sig.setFlag false ∧
        ((r = true ∧ (faultsUnlocked φ s (n * MB) = false ∧ faultsLocked φ s (n * MB) = false ∧
            waits φ s (n * MB) = false) ∧
          t = (resized lib s (n * MB)).setSig (s.sig.setFlag false)) ∨
        (r = false ∧ t.g = s.g ∧
          ((faultsUnlocked φ s (n * MB) = true ∧ t.art.mem = s.art.mem ∧
              t.art.locked = s.art.locked) ∨
            (faultsLocked φ s (n * MB) = true ∧
              t.art.locked (s.g.regionSpace_ + offsetRegionLock) = true)))))
      (fun _ => (faultsUnlocked φ s (n * MB) = true ∨ faultsLocked φ s (n * MB) = true) ∧
        s.sig.sigsegv ≠ .customSignalHandler)
      (fun _ => waits φ s (n * MB) = true) s := by
  simp only [shrinkProtected, wp_bind, wp_setHandleSignalFlag, wp_guarded, wp_pure, wp_logLine]
  have hspec := wp_resizeRegionSpace lib (φ := φ) (s := s.setSig (s.sig.setFlag true))
    (by simpa using hl) (n * MB)
  simp only [faultsUnlocked, faultsLocked, waits, Process.g_setSig, Process.art_setSig,
    fields_setSig, resized_setSig] at hspec ⊢
  refine wp_mono hspec ?_ ?_ fun _ h => h
  · intro r t hend
    rcases hend with ⟨h, -, rfl⟩
    refine ⟨by simp, .inl ⟨trivial, h, ?_⟩⟩
    simp only [Process.sig_setSig, Signals.setFlag_setFlag]
    cases resized lib s (n * MB)
    rfl
  · intro t ht
    have hsig : t.sig = s.sig.setFlag true := by
      rcases ht with ⟨-, cs, r, rfl⟩ | ⟨-, a, r, rfl, -⟩ <;> simp
    cases hh : s.sig.sigsegv with
    | foreign handler =>
        have hd : deliver t.sig = .foreign handler := by
          rw [hsig, deliver, Signals.sigsegv_setFlag, hh]
        rw [hd]
        refine ⟨?_, by simp⟩
        rcases ht with ⟨h, -⟩ | ⟨h, -⟩
        · exact .inl h
        · exact .inr h
    | customSignalHandler =>
        rw [hsig, deliver_setFlag hh]
        refine ⟨by simp, .inr ⟨trivial, ?_⟩⟩
        rcases ht with ⟨h, cs, r, rfl⟩ | ⟨h, a, r, rfl, ha⟩
        · exact ⟨by simp, .inl ⟨h, by simp, by simp⟩⟩
        · exact ⟨by simp, .inr ⟨h, by simpa using ha⟩⟩

/-- Between calls, a shrink that returns leaves the globals and the signal state. -/
theorem shrinkRegionSpace_keeps (hs : Sound dev s) (n : JInt) :
    wp φ (shrinkRegionSpace lib n) (fun _ t => t.g = s.g ∧ t.sig = s.sig)
      (fun _ => True) (fun _ => True) s := by
  cases hi : s.g.init_ with
  | false =>
      simp only [shrinkRegionSpace, isAndroidVersionMatch, wp_bind, wp_globals, wp_ite, wp_logLine,
        wp_pure, hi]
      simp
  | true =>
      have hp := hs.prepared hi
      have hl := layout_of_located (hs.device hi) hp.2.1
      unfold wp
      rw [run_shrinkRegionSpace hi hp]
      split
      · refine wp_mono (wp_shrinkProtected hl n) ?_ (fun _ _ => trivial) fun _ _ => trivial
        intro r t hend
        rcases hend with ⟨hsig, h⟩
        refine ⟨?_, hsig.trans (Signals.setFlag_self hs.flag)⟩
        rcases h with ⟨-, -, rfl⟩ | ⟨-, h, -⟩
        · simp
        · exact h
      · refine wp_mono (wp_resizeRegionSpace lib hl _) ?_ (fun _ _ => trivial) fun _ _ => trivial
        intro r t hend
        rcases hend with ⟨-, -, rfl⟩
        simp

/-! ## Every reachable state -/

theorem sound_loaded (mem : Mem) (handler : ℕ) : Sound dev (Process.loaded mem handler) :=
  ⟨rfl, by simp [Process.loaded], by simp [Process.loaded], by simp [Process.loaded]⟩

theorem Sound.congr {t : Process} (hs : Sound dev s) (hg : t.g = s.g) (hsig : t.sig = s.sig) :
    Sound dev t := by
  refine ⟨?_, ?_, ?_, ?_⟩
  · rw [hsig]
    exact hs.flag
  · rw [hg, hsig]
    exact hs.handler
  · rw [hg]
    exact hs.device
  · rw [hg]
    exact hs.prepared

theorem after_eq_some {α : Type} {x : Native α} {t : Process} :
    x.after φ s = some t ↔ ∃ a, x.run φ s = .done a t := by
  unfold Native.after
  cases x.run φ s <;> simp

theorem getCurrentRegionSpaceSize_keeps (s : Process) :
    wp φ getCurrentRegionSpaceSize (fun _ t => t.g = s.g ∧ t.sig = s.sig) (fun _ => True)
      (fun _ => True) s := by
  simp [getCurrentRegionSpaceSize]

theorem sound_step {e : Event} {t : Process} (hs : Sound dev s)
    (h : (process lib dev).step s e = some t) :
    Sound dev t ∧ (s.g.init_ = true → t.g.init_ = true) := by
  cases e with
  | init ld args k φ =>
      obtain ⟨code, hr⟩ := after_eq_some.mp h
      obtain ⟨h1, -, h2, -⟩ := wp_done (wp_init ld hs args) hr
      exact ⟨h1, h2⟩
  | shrinkRegionSpace n φ =>
      obtain ⟨r, hr⟩ := after_eq_some.mp h
      obtain ⟨h1, h2⟩ := wp_done (shrinkRegionSpace_keeps hs n) hr
      exact ⟨hs.congr h1 h2, fun hi => by rw [h1, hi]⟩
  | getCurrentRegionSpaceSize φ =>
      obtain ⟨r, hr⟩ := after_eq_some.mp h
      obtain ⟨h1, h2⟩ := wp_done (getCurrentRegionSpaceSize_keeps s) hr
      exact ⟨hs.congr h1 h2, fun hi => by rw [h1, hi]⟩
  | dumpLogs clean =>
      obtain rfl : s.setLog _ = t := Option.some.inj h
      exact ⟨hs.congr (by simp) (by simp), by simp⟩
  | art mem =>
      obtain rfl : s.setArt _ = t := Option.some.inj h
      exact ⟨hs.congr (by simp) (by simp), by simp⟩

theorem sound_run {es : List Event} {t : Process} (hs : Sound dev s)
    (h : (process lib dev).exec es s = some t) :
    Sound dev t ∧ (s.g.init_ = true → t.g.init_ = true) := by
  refine Machine.exec_invariant
    (I := fun u => Sound dev u ∧ (s.g.init_ = true → u.g.init_ = true)) ?_ ⟨hs, id⟩ h
  intro u e v hend hstep
  rcases hend with ⟨hu, hi⟩
  obtain ⟨hv, hiv⟩ := sound_step hu hstep
  exact ⟨hv, fun h => hiv (hi h)⟩

theorem AfterInit.sound (h : AfterInit lib dev s) : Sound dev s ∧ s.g.init_ = true := by
  obtain ⟨mem, handler, before, s₀, ld, args, k, φ, s₁, after, h₀, hr, h₁⟩ := h
  have hs₀ := (sound_run (sound_loaded mem handler) h₀).1
  obtain ⟨hs, hcode, -⟩ := wp_done (wp_init ld hs₀ args) hr
  obtain ⟨ht, hi⟩ := sound_run hs h₁
  exact ⟨ht, hi (hcode.mp rfl)⟩

theorem AfterInit.layout (h : AfterInit lib dev s) : Layout s.g :=
  layout_of_located (h.sound.1.device h.sound.2) (h.sound.1.prepared h.sound.2).2.1

/-! ## A process on a concrete device

The region space lies at `0x4000` and starts at `0x12c00000`; the offsets of Android 8.1
and of Android P both lead to it. -/

namespace Phone

def device (apiLevel : ℤ) : Device := ⟨fun _ => "", apiLevel⟩

/-- A `libart` in which every symbol is found, or all but `SetHeapSize`. -/
def linker (hasSetHeapSize : Bool) : Linker where
  xhook := fun _ _ => { loaderDlopen := some 0x10, loaderDlsym := some 0x14 }
  dlopen := fun _ _ _ => 0x20
  dlsym := fun _ _ symbol _ =>
    if symbol = "_ZN3art7Runtime9instance_E" then 0x1000
    else if !hasSetHeapSize &&
      symbol = "_ZN3art2gc10accounting11SpaceBitmapILj4096EE11SetHeapSizeEj" then 0
    else 0x5000
  zlibVersion := 0x18

/-- `ClampGrowthLimit` is not called below Android P. -/
def art : ArtLib where
  clampGrowthLimit _ _ mem := mem
  threadCurrent mem := mem
  setHeapSize _ _ mem := mem
  setSize _ _ mem := mem
  exclusiveLock mutex locked := Function.update locked mutex true
  exclusiveUnlock mutex locked := Function.update locked mutex false
  threadCurrent_keeps _ := rfl
  setHeapSize_keeps _ _ _ := rfl
  setSize_keeps _ _ _ := rfl
  exclusiveLock_takes _ _ := rfl
  exclusiveUnlock_releases _ _ := rfl

/-- A region space of 512 MB in 2048 regions, `nonFree` of them in use. -/
def mem (nonFree : SizeT) : Mem := fun p =>
  match p.toNat with
  | 0x1000 => 0x2000
  | 0x20f4 => 0x3000
  | 0x2128 => 0x3000
  | 0x31e4 => 0x4000
  | 0x31c4 => 0x4000
  | 0x4014 => 0x12c00000
  | 0x4018 => 0x32c00000
  | 0x401c => 0x32c00000
  | 0x4064 => 2048
  | 0x406c => 2048
  | 0x4078 => nonFree
  | _ => 0

def noFault : Site → Bool := fun _ => false

def start (apiLevel : ℤ) (debuggable hasSetHeapSize : Bool) (nonFree : SizeT) :
    Outcome Process Code :=
  (init (linker hasSetHeapSize) (device apiLevel) ⟨true, debuggable, false⟩ {}).run noFault
    (Process.loaded (mem nonFree) 0)

def process (apiLevel : ℤ) (debuggable hasSetHeapSize : Bool) (nonFree : SizeT) : Process :=
  match start apiLevel debuggable hasSetHeapSize nonFree with
  | .done _ s => s
  | .fault s => s
  | .hang s => s

theorem afterInit {lib : ArtLib} {apiLevel : ℤ} {debuggable hasSetHeapSize : Bool}
    {nonFree : SizeT}
    (h : (start apiLevel debuggable hasSetHeapSize nonFree).result?.map Prod.fst =
      some .success) :
    AfterInit lib (device apiLevel)
      (process apiLevel debuggable hasSetHeapSize nonFree) := by
  refine ⟨mem nonFree, 0, [], _, linker hasSetHeapSize, ⟨true, debuggable, false⟩, {}, noFault,
    process apiLevel debuggable hasSetHeapSize nonFree, [], rfl, ?_, rfl⟩
  obtain ⟨_, s, hs, rfl⟩ := Outcome.exists_done h
  rw [process, hs]
  exact hs

/-- Android 8.1, where the library clamps with its own `ClampGrowthLimit__`. -/
abbrev android81 : Process := process 27 false true 400

/-- Android P, where it clamps with ART's. -/
abbrev androidP : Process := process 28 false true 400

end Phone
end Patrons
