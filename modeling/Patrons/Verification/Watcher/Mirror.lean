import Patrons.Verification.Region.Contract
import Patrons.Verification.Watcher.Tick

/-! # The mirror of the native size

`currentRegionSpaces` is meant to be the size of the region space in MB. A tick lowers it
before it knows what the native library does, and a public shrink does not touch it. -/

namespace Patrons

open Prog

/-! ## What the native library answers -/

/-- The answer of the native `shrinkRegionSpace` where no SIGSEGV is raised. -/
def answerOf (s : Process) (n : JInt) : NativeCall where
  applied := s.fields.accepts (n * MB)
  result := s.g.isProtected || s.fields.accepts (n * MB)

theorem shrinkRegionSpace_answers {lib : ArtLib} {dev : Device} {φ : Site → Bool}
    {s t : Process} {r : Bool} {n : Int32} (hs : AfterInit lib dev s)
    (hlib : lib.SetsCapacity s.g) (hno : NoSegv lib φ s (n.toBitVec * MB))
    (hr : (shrinkRegionSpace lib n.toBitVec).run φ s = .done r t) :
    r = (answerOf s n.toBitVec).result ∧
      t.fields.capacity = Watcher.resizeTo s.fields.capacity n (answerOf s n.toBitVec) := by
  have hprepared := hs.sound.1.prepared hs.sound.2
  have hspec : wp φ (shrinkRegionSpace lib n.toBitVec) _ _ _ s :=
    wp_shrinkRegionSpace hs.sound.2 hprepared hs.layout hs.sound.1.flag
      ((noSegv_iff hs.layout).mp hno)
  rcases wp_done hspec hr with ⟨hresult, ht⟩
  refine ⟨hresult, ?_⟩
  rw [ht, Watcher.resizeTo, answerOf]
  by_cases hw : s.fields.accepts (n.toBitVec * MB) = true
  · rw [if_pos hw]
    exact capacity_resized hs.layout hlib hprepared.2.2.1 hw
  · rw [if_neg hw]
    have hart : (resized lib s (n.toBitVec * MB)).art = s.art :=
      resized_rejected (Bool.not_eq_true _ ▸ hw)
    rw [Process.fields, hart, g_resized, Process.fields]

namespace Watcher

/-! ## The mirror -/

def Mirrors (w : Watcher) : Prop :=
  w.currentRegionSpaces = w.getCurrentRegionSpaceSize / bytesOfMB

instance (w : Watcher) : Decidable w.Mirrors := inferInstanceAs (Decidable (_ = _))

/-- While a timer is live the mirror is right. -/
def MirrorKept (_ : Watcher) (_ : WatcherEvent) (t : Watcher) : Prop := t.timers ≠ [] → t.Mirrors

instance (w : Watcher) (e : WatcherEvent) (t : Watcher) : Decidable (MirrorKept w e t) :=
  inferInstanceAs (Decidable (_ → _))

def nextSize (w : Watcher) : Int64 := w.currentRegionSpaces - w.config.shrinkStep.toInt64

/-- While `config.auto` is set, a public shrink leaves the size in MB, and a tick whose
request is answered by `true` asked for a size below 4096 MB and got it. -/
def InStep (w : Watcher) (e : WatcherEvent) (_ : Watcher) : Prop :=
  w.config.auto = true →
    match e with
    | .tick vss call => w.asks vss = true → call.result = true →
        call.applied = true ∧ 0 ≤ w.nextSize.toInt ∧ w.nextSize.toInt < 4096
    | .shrinkRegionSpace n call => w.hasInit = true →
        (resizeTo w.capacity n call).toNat / 2 ^ 20 = w.capacity.toNat / 2 ^ 20
    | .inBackground | .toForeground => True

instance (w : Watcher) (e : WatcherEvent) (t : Watcher) : Decidable (InStep w e t) :=
  match e with
  | .tick _ _ => inferInstanceAs (Decidable (_ → _ → _ → _))
  | .shrinkRegionSpace _ _ => inferInstanceAs (Decidable (_ → _ → _))
  | .inBackground => inferInstanceAs (Decidable (_ → True))
  | .toForeground => inferInstanceAs (Decidable (_ → True))

variable {w t : Watcher} {vss : Int64} {call : NativeCall}

theorem mirrors_iff :
    w.Mirrors ↔ w.currentRegionSpaces.toInt = ((w.capacity.toNat / 2 ^ 20 : ℕ) : ℤ) := by
  have hsize : w.getCurrentRegionSpaceSize.toInt = w.capacity.toNat := by
    have hlt := w.capacity.isLt
    rw [getCurrentRegionSpaceSize, Int64.toInt_ofBitVec, BitVec.toInt_eq_toNat_of_lt]
    · rw [BitVec.toNat_setWidth, Nat.mod_eq_of_lt (by omega)]
    · rw [BitVec.toNat_setWidth, Nat.mod_eq_of_lt (by omega)]
      omega
  have hdiv : (w.getCurrentRegionSpaceSize / bytesOfMB).toInt =
      ((w.capacity.toNat / 2 ^ 20 : ℕ) : ℤ) := by
    rw [Int64.toInt_div_of_ne_right _ _ (by decide), hsize]
    rfl
  rw [Mirrors, ← Int64.toInt_inj, hdiv]

/-- A request below 4096 MB that is applied makes the next size the native one. -/
theorem mirrors_shrunk (h₀ : 0 ≤ w.nextSize.toInt) (h₁ : w.nextSize.toInt < 4096)
    (happlied : call.applied = true) : (w.shrunk call).Mirrors := by
  have hcur : (w.shrunk call).currentRegionSpaces.toInt = w.nextSize.toInt := rfl
  have hint : w.nextSize.toInt32.toInt = w.nextSize.toInt := by
    rw [Int64.toInt_toInt32]
    apply Int.bmod_eq_of_le
    · omega
    · omega
  have hcap : (w.shrunk call).capacity = w.nextSize.toInt32.toBitVec * MB := by
    simp only [shrunk, resizeTo, happlied, if_true, nextSize]
  have hbytes := toNat_mul_MB w.nextSize.toInt32.toBitVec
  have hbits : w.nextSize.toInt32.toBitVec.toInt = w.nextSize.toInt32.toInt := rfl
  rw [hbits, hint, Int.emod_eq_of_lt (by omega) (by omega)] at hbytes
  rw [mirrors_iff, hcur, hcap]
  omega

/-! ## Steps -/

/-- While `config.auto` is set the mirror is right, and afterwards there is no timer. -/
structure Mirrored (w : Watcher) : Prop where
  watched : w.Watched
  mirrors : w.config.auto = true → w.Mirrors

theorem Mirrored.congr (h : Mirrored w) (ht : Unmoved w t) : Mirrored t := by
  rcases sizes_eq_iff.mp ht.sizes with ⟨hcur, hcap, -⟩
  refine ⟨ht.watched, ?_⟩
  intro hauto
  have hmirrors := h.mirrors (ht.auto hauto)
  rw [mirrors_iff] at hmirrors ⊢
  rw [hcur, hcap]
  exact hmirrors

theorem mirrored_step {e : WatcherEvent} (h : Mirrored w) (ht : watcher.step w e = some t)
    (hin : InStep w e t) : Mirrored t := by
  rw [← Option.some.inj ht]
  cases e with
  | tick vss call =>
      rcases tickEnd_after h.watched with hunmoved | hasks
      · exact h.congr hunmoved
      · rcases hasks with ⟨hasks, hunmoved, hstopped⟩
        refine ⟨hunmoved.watched, ?_⟩
        intro hauto
        have hresult : call.result = true := by
          by_contra hfailed
          have hoff := hstopped (Bool.not_eq_true _ ▸ hfailed)
          exact absurd (hoff.symm.trans hauto) (by simp)
        rcases hin (hunmoved.auto hauto) hasks hresult with ⟨happlied, h₀, h₁⟩
        have hshrunk : Mirrored (w.shrunk call) :=
          ⟨h.watched, fun _ => mirrors_shrunk h₀ h₁ happlied⟩
        exact (hshrunk.congr hunmoved).mirrors hauto
  | inBackground => exact h.congr (unmoved_lifecycle h.watched (.inl rfl))
  | toForeground => exact h.congr (unmoved_lifecycle h.watched (.inr rfl))
  | shrinkRegionSpace n call =>
      rw [after_shrinkRegionSpace]
      split
      · rename_i hinit
        refine ⟨h.watched, ?_⟩
        intro hauto
        have hmirrors := h.mirrors hauto
        rw [mirrors_iff] at hmirrors ⊢
        dsimp only
        rw [hin hauto hinit]
        exact hmirrors
      · exact h

/-- The mirror does not drift in a run whose public shrinks leave the size in MB and whose
requests are applied when they are answered by `true`. -/
theorem mirrorKept_of_inStep {es : List WatcherEvent} (h : w.Started)
    (hin : watcher.Each InStep es w) : watcher.Each MirrorKept es w := by
  have hready := h.ready
  have h₀ : Mirrored w := ⟨hready.watched, fun _ => hready.mirror⟩
  apply Machine.each_of_invariant _ h₀ hin
  intro w e t hw hstep hin
  have ht := mirrored_step hw hstep hin
  refine ⟨?_, ht⟩
  intro hlive
  apply ht.mirrors
  by_contra hoff
  exact hlive (ht.watched.2 (Bool.not_eq_true _ ▸ hoff))

theorem mirrorKept_onPhone :
    watcher.Each MirrorKept
      [.tick 4000000000 ⟨true, true⟩, .shrinkRegionSpace 700 ⟨false, true⟩, .inBackground,
        .toForeground, .tick 4000000000 ⟨false, false⟩, .shrinkRegionSpace 400 ⟨true, true⟩]
      (onPhone { shrinkStep := 50 }) :=
  mirrorKept_of_inStep (started_after ⟨rfl, rfl, rfl, rfl⟩ (by decide +kernel)) (by decide +kernel)

/-- A public shrink of 512 MB to 200 MB is applied, and the watcher goes on with 512 MB. In
protected mode a request below the used regions is rejected and answered by `true`, and the
tick goes on with the size that it asked for. -/
theorem mirror_drifts :
    ((onPhone {}).Started ∧ (onPhone {}).capacity = 512 * MB) ∧
      (((shrinkRegionSpace (artOf Phone.android81.g) 200).run Phone.noFault
        Phone.android81).result?.map (fun r => (r.1, r.2.fields.capacity)) =
          some (true, 200 * MB) ∧
        ¬ watcher.Each MirrorKept [.shrinkRegionSpace 200 ⟨true, true⟩] (onPhone {})) ∧
      (((shrinkRegionSpace (artOf Phone.android81.g) 387).run Phone.noFault
        (Phone.process 27 false true 1600)).result?.map (fun r => (r.1, r.2.fields.capacity)) =
          some (true, 512 * MB) ∧
        ¬ watcher.Each MirrorKept [.tick 4000000000 ⟨false, true⟩] (onPhone {})) :=
  ⟨⟨started_after ⟨rfl, rfl, rfl, rfl⟩ (by decide +kernel), by decide +kernel⟩,
    ⟨by decide +kernel, by decide +kernel⟩, by decide +kernel, by decide +kernel⟩

end Watcher
end Patrons
