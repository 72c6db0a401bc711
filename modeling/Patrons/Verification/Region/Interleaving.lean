import Mathlib.Data.Fin.VecNotation
import Patrons.Model.Resizes
import Patrons.Verification.Region.Space

/-! # Resizes on several threads

The check against the current capacity is made before the region lock is taken, so a call
may clamp on the strength of a capacity that is gone. -/

namespace Patrons

open Prog

variable {lib : ArtLib} {dev : Device} {φ : Site → Bool} {p q : Process}

/-! ## The two steps of a call -/

theorem check_result {w : JInt} {r : Bool}
    (h : (resizeChecks w).run φ p = .done r q) :
    r = p.fields.accepts w ∧ q.g = p.g ∧ q.fields = p.fields := by
  rcases wp_done (wp_resizeChecks w) h with ⟨-, hr, hq⟩
  refine ⟨hr, ?_, ?_⟩
  · rw [hq, Process.g_setLog]
  · rw [hq, fields_setLog]

theorem wp_applyResize (hl : Layout p.g) (hown : p.g.clampGrowthLimit = .own) (w : JInt)
    (hused : p.fields.used < w) :
    wp φ (applyResize lib w) (fun _ t => t.g = p.g ∧ t.fields = p.fields.clamp w)
      (fun _ => True) (fun _ => True) p := by
  simp only [applyResize, wp_bind, wp_globals, wp_dumpLine]
  apply wp_mono (wp_callClampGrowthLimit lib hl w)
  · intro _ t h
    rcases h with ⟨-, ht⟩
    have hart : resizedArt lib p.g p.art w = clamped p.g p.art p.g.regionSpace_ w := by
      simp only [resizedArt, hown]
    rw [ht, hart, Process.g_setLog, Process.g_setArt, fields_setLog]
    exact ⟨rfl, fields_clamped hl _ hused⟩
  · intro _ _
    trivial
  · intro _ _
    trivial

/-! ## All interleavings -/

variable {ι : Type*} {size : ι → JInt}

def ShrinksOnly (s : Resizes ι) (_ : ι × ResizeStep) (t : Resizes ι) : Prop :=
  t.process.fields.capacity ≤ s.process.fields.capacity ∧
    t.process.fields.numRegions ≤ s.process.fields.numRegions

instance (s : Resizes ι) (l : ι × ResizeStep) (t : Resizes ι) :
    Decidable (ShrinksOnly s l t) := inferInstanceAs (Decidable (_ ∧ _))

/-- A call clamps only if no other call has clamped the space to less since its checks. -/
def NotOvertaken (s : Resizes ι) (l : ι × ResizeStep) (_ : Resizes ι) : Prop :=
  match l with
  | (_, .check _) => True
  | (i, .clamp _) => s.overtaken i = false

instance (s : Resizes ι) : ∀ (l : ι × ResizeStep) (t : Resizes ι),
    Decidable (NotOvertaken s l t)
  | (_, .check _), _ => isTrue trivial
  | (i, .clamp _), _ => inferInstanceAs (Decidable (s.overtaken i = false))

/-- While the space has only shrunk, the calls that are overtaken are those whose size lies
above its capacity. -/
structure Ordered (size : ι → JInt) (s : Resizes ι) : Prop where
  layout : Layout s.process.g
  own : s.process.g.clampGrowthLimit = .own
  regions : s.process.fields.numRegions = s.process.fields.capacity / kRegionSize
  fits : ∀ i, s.pc i = .checked → s.process.fields.used < size i
  overtaken : ∀ i, s.pc i = .checked →
    (s.overtaken i = true ↔ s.process.fields.capacity < size i)

variable [DecidableEq ι] {s t : Resizes ι} {i : ι}

theorem check_cases (h : (resizes lib size).step s (i, .check φ) = some t) :
    (t.process.g = s.process.g ∧ t.process.fields = s.process.fields) ∧
      t.pc = Function.update s.pc i
        (if s.process.fields.accepts (size i) then .checked else .returned) ∧
      t.overtaken = Function.update s.overtaken i false := by
  simp only [resizes, Option.ite_none_right_eq_some] at h
  rcases Option.map_eq_some_iff.mp h.2 with ⟨⟨r, q⟩, hr, ht⟩
  rcases check_result (Outcome.result?_eq_some.mp hr) with ⟨hacc, hg, hf⟩
  rw [← ht, ← hacc]
  exact ⟨⟨hg, hf⟩, rfl, rfl⟩

theorem clamp_cases (hs : Ordered size s)
    (h : (resizes lib size).step s (i, .clamp φ) = some t) :
    s.pc i = .checked ∧
      (t.process.g = s.process.g ∧ t.process.fields = s.process.fields.clamp (size i)) ∧
      t.pc = Function.update s.pc i .returned ∧
      t.overtaken = fun j => s.overtaken j || decide (size i < size j) := by
  simp only [resizes, Option.ite_none_right_eq_some] at h
  rcases h with ⟨hpc, h⟩
  rcases Option.map_eq_some_iff.mp h with ⟨q, hq, ht⟩
  rcases after_eq_some.mp hq with ⟨r, hr⟩
  have hspec := wp_done (wp_applyResize hs.layout hs.own _ (hs.fits i hpc)) hr
  rw [← ht]
  exact ⟨hpc, hspec, rfl, rfl⟩

theorem shrinksOnly_check (h : (resizes lib size).step s (i, .check φ) = some t) :
    ShrinksOnly s (i, .check φ) t := by
  rcases check_cases h with ⟨⟨-, hf⟩, -⟩
  unfold ShrinksOnly
  rw [hf]
  exact ⟨BitVec.le_refl _, BitVec.le_refl _⟩

/-- A clamp shrinks the space exactly when the call has not been overtaken. -/
theorem shrinksOnly_clamp (hs : Ordered size s)
    (h : (resizes lib size).step s (i, .clamp φ) = some t) :
    ShrinksOnly s (i, .clamp φ) t ↔ s.overtaken i = false := by
  rcases clamp_cases hs h with ⟨hpc, ⟨-, hf⟩, -⟩
  have hov : s.overtaken i = false ↔ size i ≤ s.process.fields.capacity := by
    rw [← Bool.not_eq_true, hs.overtaken i hpc, BitVec.not_lt]
  unfold ShrinksOnly
  rw [hov, hf, capacity_clamp, hs.regions]
  constructor
  · intro h
    exact h.1
  · intro h
    refine ⟨h, ?_⟩
    simp only [Fields.clamp, BitVec.le_def, BitVec.toNat_udiv]
    exact Nat.div_le_div_right (BitVec.le_def.mp h)

theorem ordered_check (hs : Ordered size s)
    (h : (resizes lib size).step s (i, .check φ) = some t) : Ordered size t := by
  rcases check_cases h with ⟨⟨hg, hf⟩, hpc, hov⟩
  have haccepts : t.pc i = .checked → s.process.fields.accepts (size i) = true := by
    rw [hpc, Function.update_self]
    cases s.process.fields.accepts (size i) <;> simp
  constructor
  · rw [hg]
    exact hs.layout
  · rw [hg]
    exact hs.own
  · rw [hf]
    exact hs.regions
  · intro j hj
    rw [hf]
    by_cases hji : j = i
    · subst hji
      exact (Fields.accepts_iff.mp (haccepts hj)).2.2
    · rw [hpc, Function.update_of_ne hji] at hj
      exact hs.fits j hj
  · intro j hj
    rw [hf, hov]
    by_cases hji : j = i
    · subst hji
      have hle := (Fields.accepts_iff.mp (haccepts hj)).2.1
      rw [Function.update_self]
      simp [hle]
    · rw [hpc, Function.update_of_ne hji] at hj
      rw [Function.update_of_ne hji]
      exact hs.overtaken j hj

theorem ordered_clamp (hs : Ordered size s)
    (h : (resizes lib size).step s (i, .clamp φ) = some t)
    (hshrinks : ShrinksOnly s (i, .clamp φ) t) : Ordered size t := by
  rcases clamp_cases hs h with ⟨hpci, ⟨hg, hf⟩, hpc, hov⟩
  have hle : size i ≤ s.process.fields.capacity := by
    have h := hshrinks.1
    rw [hf, capacity_clamp] at h
    exact h
  have hold : ∀ j, t.pc j = .checked → s.pc j = .checked := by
    intro j hj
    by_cases hji : j = i
    · rw [hji]
      exact hpci
    · rw [hpc, Function.update_of_ne hji] at hj
      exact hj
  constructor
  · rw [hg]
    exact hs.layout
  · rw [hg]
    exact hs.own
  · rw [hf, capacity_clamp]
    rfl
  · intro j hj
    rw [hf]
    exact hs.fits j (hold j hj)
  · intro j hj
    rw [hov, hf, capacity_clamp]
    simp only [Bool.or_eq_true, decide_eq_true_eq, hs.overtaken j (hold j hj)]
    constructor
    · intro h
      rcases h with h | h
      · rw [BitVec.lt_def] at h ⊢
        exact Nat.lt_of_le_of_lt (BitVec.le_def.mp hle) h
      · exact h
    · intro h
      exact .inr h

theorem resizeRegionSpace_run {r : Bool} (hpc : s.pc i = .called)
    (h : (resizeRegionSpace lib (size i)).run φ s.process = .done r q) :
    ∃ t, (resizes lib size).exec
        (if r then [(i, .check φ), (i, .clamp φ)] else [(i, .check φ)]) s = some t ∧
      t.process = q ∧ t.pc i = .returned := by
  rw [resizeRegionSpace_eq, run_bind] at h
  cases hc : (resizeChecks (size i)).run φ s.process with
  | done passed u =>
      rw [hc, Outcome.bind_done] at h
      cases passed with
      | false =>
          simp only [Bool.false_eq_true, if_false, run_pure, Outcome.done.injEq] at h
          rw [← h.1]
          refine ⟨_, by simp [resizes, hpc, hc]; rfl, h.2, ?_⟩
          simp
      | true =>
          simp only [if_true, run_bind] at h
          cases ha : (applyResize lib (size i)).run φ u with
          | done x v =>
              rw [ha, Outcome.bind_done, run_pure, Outcome.done.injEq] at h
              rw [← h.1]
              refine ⟨_, by simp [resizes, hpc, hc, Native.after, ha]; rfl, h.2, ?_⟩
              simp
          | fault v => simp [ha] at h
          | hang v => simp [ha] at h
  | fault u => simp [hc] at h
  | hang u => simp [hc] at h

/-- In every interleaving the space only shrinks, throughout, exactly when no call clamps
after another has clamped the space to less since its checks. -/
theorem shrinksOnly_iff (hp : AfterInit lib dev p) (hversion : p.g.apiLevel < 28)
    (hregions : p.fields.numRegions = p.fields.capacity / kRegionSize)
    (size : ι → JInt) (ls : List (ι × ResizeStep)) :
    (resizes lib size).Each ShrinksOnly ls { process := p } ↔
      (resizes lib size).Each NotOvertaken ls { process := p } := by
  have hown := (hp.sound.1.prepared hp.sound.2).2.2.2.1.mpr hversion
  have hs : Ordered size ({ process := p } : Resizes ι) :=
    ⟨hp.layout, hown, hregions, by simp, by simp⟩
  apply Machine.each_congr _ _ hs
  · intro s l t hs hstep
    rcases l with ⟨i, φ | φ⟩
    · constructor
      · intro _
        trivial
      · intro _
        exact shrinksOnly_check hstep
    · exact shrinksOnly_clamp hs hstep
  · intro s l t hs hstep hshrinks
    rcases l with ⟨i, φ | φ⟩
    · exact ordered_check hs hstep
    · exact ordered_clamp hs hstep hshrinks

theorem shrinksOnly_android81 :
    (resizes (artOf Phone.android81.g) ![400 * MB, 200 * MB]).Each ShrinksOnly
      [(0, .check Phone.noFault), (0, .clamp Phone.noFault), (1, .check Phone.noFault),
        (1, .clamp Phone.noFault)] { process := Phone.android81 } := by
  have hs : AfterInit (artOf Phone.android81.g) (Phone.device 27) Phone.android81 :=
    Phone.afterInit (by decide +kernel)
  apply (shrinksOnly_iff hs (by decide +kernel) (by decide +kernel) _ _).mpr
  decide +kernel

/-- A call for 400 MB is overtaken by one for 200 MB, and its clamp raises the limit again. -/
theorem late_clamp_grows :
    let size : Fin 2 → JInt := ![400 * MB, 200 * MB]
    let m := resizes (artOf Phone.android81.g) size
    ∃ s t, m.exec [(0, .check Phone.noFault), (1, .check Phone.noFault),
          (1, .clamp Phone.noFault)] { process := Phone.android81 } = some s ∧
      m.step s (0, .clamp Phone.noFault) = some t ∧
      s.process.fields.capacity = 200 * MB ∧ t.process.fields.capacity = 400 * MB ∧
      ¬ m.Each ShrinksOnly [(0, .check Phone.noFault), (1, .check Phone.noFault),
        (1, .clamp Phone.noFault), (0, .clamp Phone.noFault)] { process := Phone.android81 } := by
  intro size m
  have hstep : ((m.exec [(0, .check Phone.noFault), (1, .check Phone.noFault),
      (1, .clamp Phone.noFault)] { process := Phone.android81 }).bind fun s =>
        (m.step s (0, .clamp Phone.noFault)).map fun t =>
          (s.process.fields.capacity, t.process.fields.capacity)) =
      some (200 * MB, 400 * MB) := by
    decide +kernel
  rcases Option.bind_eq_some_iff.mp hstep with ⟨s, hs, hstep⟩
  rcases Option.map_eq_some_iff.mp hstep with ⟨t, ht, hcap⟩
  rcases Prod.mk.inj hcap with ⟨hcs, hct⟩
  exact ⟨s, t, hs, ht, hcs, hct, by decide +kernel⟩

end Patrons
