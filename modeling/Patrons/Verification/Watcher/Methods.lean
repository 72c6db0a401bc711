import Patrons.Model.Watcher

/-! # What the methods of the watcher keep

The methods write the strict counter and the timers. A predicate that these writes keep
holds after each method, whether it returns or throws. -/

namespace Patrons

open Prog

namespace Watcher

/-- Kept by every write of the methods but that of `config.auto`. Timers are written only
while `config.auto` is set. -/
structure Stable (I : Watcher → Prop) : Prop where
  strict : ∀ w n, I w → I (w.setStrict n)
  cancel : ∀ w, w.config.auto = true → I w → I w.cancelTimer
  restart : ∀ w, w.config.auto = true → I w → I w.cancelTimer.newTimer
  period : ∀ w p, I w → I (w.setPeriod p)

variable {I : Watcher → Prop}

theorem Stable.keeps_inBackground (h : Stable I) : Keeps noSites I inBackground := by
  intro w hw
  simp only [inBackground, wp_bind, wp_get, wp_when, wp_modify]
  constructor
  · intro hauto
    exact h.cancel w hauto hw
  · intro _
    exact hw

theorem Stable.keeps_start (h : Stable I) (p : Int32) : Keeps noSites I (start_ p) := by
  intro w hw
  simp only [start_, schedule, wp_bind, wp_get, wp_when, wp_modify, wp_guard]
  constructor
  · intro hauto
    have hnew := h.restart w hauto hw
    exact ⟨fun _ => hnew, fun _ => h.period _ _ hnew⟩
  · intro _
    exact hw

theorem Stable.keeps_setStrict (h : Stable I) (n : Int32) :
    Keeps noSites I (Prog.modify (setStrict n)) :=
  keeps_modify fun w hw => h.strict w n hw

theorem Stable.keeps_startChecks (h : Stable I) : Keeps noSites I startChecks := by
  apply keeps_bind keeps_get
  intro w
  exact h.keeps_start _

theorem Stable.keeps_toForeground (h : Stable I) : Keeps noSites I toForeground := by
  apply keeps_bind (h.keeps_setStrict 0)
  intro _
  exact h.keeps_startChecks

theorem Stable.keeps_startStrictMode (h : Stable I) : Keeps noSites I startStrictMode := by
  apply keeps_bind (h.keeps_setStrict 1)
  intro _
  apply keeps_bind keeps_get
  intro w
  exact h.keeps_start _

/-- The test of the strict mode writes the strict counter only. -/
theorem keeps_exitsStrictMode (h : ∀ w n, I w → I (w.setStrict n)) :
    Keeps noSites I exitsStrictMode := by
  have hset : ∀ n, Keeps noSites I (Prog.modify (setStrict n)) :=
    fun n => keeps_modify fun w hw => h w n hw
  apply keeps_bind keeps_get
  intro w
  apply keeps_ite
  · apply keeps_bind (hset _)
    intro _
    apply keeps_ite
    · apply keeps_bind (hset 0)
      intro _
      exact keeps_pure true
    · exact keeps_pure false
  · exact keeps_pure false

/-! ## The sizes -/

/-- The sizes of the watcher and the configuration that decides about them. -/
def sizes (w : Watcher) : Int64 × SizeT × List Int32 × PatronsConfig :=
  (w.currentRegionSpaces, w.capacity, w.requests, { w.config with auto := true })

theorem sizes_cancelTimer (w : Watcher) : w.cancelTimer.sizes = w.sizes := by
  unfold cancelTimer
  cases w.autoCheckVssTimer <;> rfl

theorem stable_sizes (w₀ : Watcher) : Stable fun w => w.sizes = w₀.sizes := by
  constructor
  · intro w n h
    exact h
  · intro w _ h
    exact (sizes_cancelTimer w).trans h
  · intro w _ h
    exact (sizes_cancelTimer w).trans h
  · intro w p h
    exact h

/-! ## One timer -/

/-- The only timer that is not cancelled is the one that `autoCheckVssTimer` refers to. -/
def OneTimer (w : Watcher) : Prop :=
  w.timers.map TimerObject.id = w.autoCheckVssTimer.toList

theorem timers_cancelTimer {w : Watcher} (h : w.OneTimer) :
    w.cancelTimer.timers = [] ∧ w.cancelTimer.autoCheckVssTimer = none := by
  unfold OneTimer at h
  cases hk : w.autoCheckVssTimer with
  | none =>
      rw [hk] at h
      simp only [cancelTimer, hk]
      exact ⟨List.map_eq_nil_iff.mp h, trivial⟩
  | some k =>
      rw [hk] at h
      simp only [cancelTimer, hk, List.filter_eq_nil_iff, and_true]
      intro t ht
      have hmem : t.id ∈ [k] := by
        rw [← Option.toList_some, ← h]
        exact List.mem_map_of_mem ht
      simpa using hmem

theorem map_id_setPeriod (w : Watcher) (p : Int64) :
    (w.setPeriod p).timers.map TimerObject.id = w.timers.map TimerObject.id := by
  simp only [setPeriod, List.map_map]
  apply List.map_congr_left
  intro t _
  dsimp only [Function.comp]
  split <;> rfl

theorem stable_oneTimer : Stable OneTimer := by
  constructor
  · intro w n h
    exact h
  · intro w _ h
    rcases timers_cancelTimer h with ⟨h₁, h₂⟩
    rw [OneTimer, h₁, h₂]
    rfl
  · intro w _ h
    rcases timers_cancelTimer h with ⟨h₁, -⟩
    rw [OneTimer, newTimer, h₁]
    rfl
  · intro w p h
    rw [OneTimer, map_id_setPeriod]
    exact h

/-- With `config.auto` reset there is no timer. -/
def Watched (w : Watcher) : Prop := w.OneTimer ∧ (w.config.auto = false → w.timers = [])

@[simp] theorem config_cancelTimer (w : Watcher) : w.cancelTimer.config = w.config := by
  unfold cancelTimer
  cases w.autoCheckVssTimer <;> rfl

theorem stable_watched : Stable Watched := by
  constructor
  · intro w n h
    exact h
  · intro w hauto h
    refine ⟨stable_oneTimer.cancel w hauto h.1, ?_⟩
    intro _
    exact (timers_cancelTimer h.1).1
  · intro w hauto h
    refine ⟨stable_oneTimer.restart w hauto h.1, ?_⟩
    intro hoff
    have hsame : w.cancelTimer.newTimer.config = w.config := config_cancelTimer w
    rw [hsame, hauto] at hoff
    exact absurd hoff (by simp)
  · intro w p h
    refine ⟨stable_oneTimer.period w p h.1, ?_⟩
    intro hoff
    have hnone := h.2 hoff
    rw [setPeriod, hnone]
    rfl

theorem wp_stop {w : Watcher} (h : w.Watched) :
    wp noSites stop (fun _ t => t.Watched ∧ t.config.auto = false ∧ t.sizes = w.sizes)
      (fun _ => False) (fun _ => False) w := by
  simp only [stop, inBackground, autoOff, wp_bind, wp_get, wp_when, wp_modify]
  constructor
  · intro _
    rcases timers_cancelTimer h.1 with ⟨h₁, h₂⟩
    refine ⟨⟨?_, fun _ => h₁⟩, rfl, sizes_cancelTimer w⟩
    unfold OneTimer setAutoOff
    dsimp only
    rw [h₁, h₂]
    rfl
  · intro hoff
    exact ⟨⟨h.1, fun _ => h.2 hoff⟩, rfl, rfl⟩

end Watcher
end Patrons
