import Mathlib.Data.List.Pairwise
import Mathlib.Order.Interval.Set.Basic

/-! # Covering an interval

Intervals in ascending order are walked through once. Whenever the walk is in one, it goes on
at the end of it, until an end reaches the bound. -/

namespace Patrons

namespace Intervals

variable {ρ α : Type*} [LinearOrder α]

structure Ascending (interval : ρ → α × α) (rs : List ρ) : Prop where
  sorted : rs.Pairwise fun r s => (interval r).2 ≤ (interval s).1
  nonempty : ∀ r ∈ rs, (interval r).1 < (interval r).2

/-- The intervals that the walk from `lo` on is in, if it reaches `hi`. -/
def cover (interval : ρ → α × α) (hi : α) : List ρ → α → Option (List ρ)
  | [], _ => none
  | r :: rs, lo =>
    if (interval r).1 ≤ lo ∧ lo < (interval r).2 then
      if hi ≤ (interval r).2 then some [r] else (cover interval hi rs (interval r).2).map (r :: ·)
    else cover interval hi rs lo

/-- Every point of `[lo, hi)` lies in an interval. -/
def Covered (interval : ρ → α × α) (rs : List ρ) (lo hi : α) : Prop :=
  ∀ a ∈ Set.Ico lo hi, ∃ r ∈ rs, a ∈ Set.Ico (interval r).1 (interval r).2

variable {interval : ρ → α × α} {rs : List ρ} {r : ρ} {lo hi : α}

theorem Ascending.tail (h : Ascending interval (r :: rs)) : Ascending interval rs where
  sorted := h.sorted.of_cons
  nonempty s hs := h.nonempty s (List.mem_cons_of_mem r hs)

theorem Ascending.filter (h : Ascending interval rs) (p : ρ → Bool) :
    Ascending interval (rs.filter p) where
  sorted := h.sorted.filter p
  nonempty s hs := h.nonempty s (List.mem_filter.mp hs).1

/-- What comes after an interval starts at its end or later. -/
theorem Ascending.le_start (h : Ascending interval (r :: rs)) {s : ρ} (hs : s ∈ rs) :
    (interval r).2 ≤ (interval s).1 :=
  (List.pairwise_cons.mp h.sorted).1 s hs

/-- An interval that ends before the walk does nothing for it. -/
theorem covered_cons_iff_of_notMem (h : Ascending interval (r :: rs)) (hlt : lo < hi)
    (hr : lo ∉ Set.Ico (interval r).1 (interval r).2) :
    Covered interval (r :: rs) lo hi ↔ Covered interval rs lo hi := by
  constructor
  · intro hcov a ha
    -- The interval that `lo` is in comes later, so `r` has ended.
    obtain ⟨s, hs, hlo⟩ := hcov lo ⟨le_rfl, hlt⟩
    have hlater : s ∈ rs := (List.mem_cons.mp hs).resolve_left fun heq => hr (heq ▸ hlo)
    obtain ⟨t, ht, hat⟩ := hcov a ha
    rcases List.mem_cons.mp ht with rfl | ht'
    · exact absurd ((h.le_start hlater).trans (hlo.1.trans ha.1)) (not_le_of_gt hat.2)
    · exact ⟨t, ht', hat⟩
  · intro hcov a ha
    obtain ⟨s, hs, has⟩ := hcov a ha
    exact ⟨s, List.mem_cons_of_mem r hs, has⟩

/-- The walk goes on at the end of the interval that it is in. -/
theorem covered_cons_iff_of_mem (h : Ascending interval (r :: rs))
    (hr : lo ∈ Set.Ico (interval r).1 (interval r).2) :
    Covered interval (r :: rs) lo hi ↔ Covered interval rs (interval r).2 hi := by
  constructor
  · intro hcov a ha
    obtain ⟨s, hs, has⟩ := hcov a ⟨hr.2.le.trans ha.1, ha.2⟩
    rcases List.mem_cons.mp hs with rfl | hs
    · exact absurd ha.1 (not_le_of_gt has.2)
    · exact ⟨s, hs, has⟩
  · intro hcov a ha
    by_cases hend : a < (interval r).2
    · exact ⟨r, by simp, hr.1.trans ha.1, hend⟩
    · obtain ⟨s, hs, has⟩ := hcov a ⟨le_of_not_gt hend, ha.2⟩
      exact ⟨s, List.mem_cons_of_mem r hs, has⟩

/-- The walk reaches the bound exactly where the intervals cover everything up to it. -/
theorem cover_isSome_iff (h : Ascending interval rs) (hlt : lo < hi) :
    (cover interval hi rs lo).isSome ↔ Covered interval rs lo hi := by
  induction rs generalizing lo with
  | nil =>
      constructor
      · intro hsome
        simp [cover] at hsome
      · intro hcov
        obtain ⟨s, hs, -⟩ := hcov lo ⟨le_rfl, hlt⟩
        simp at hs
  | cons r rs ih =>
      rw [cover]
      by_cases hr : (interval r).1 ≤ lo ∧ lo < (interval r).2
      · rw [if_pos hr, covered_cons_iff_of_mem h hr]
        by_cases hend : hi ≤ (interval r).2
        · rw [if_pos hend]
          refine iff_of_true rfl ?_
          rintro a ⟨h₁, h₂⟩
          exact absurd (h₁.trans_lt h₂) (not_lt_of_ge hend)
        · rw [if_neg hend, Option.isSome_map]
          exact ih h.tail (lt_of_not_ge hend)
      · rw [if_neg hr, covered_cons_iff_of_notMem h hlt hr]
        exact ih h.tail hlt

theorem cover_ne_nil {us : List ρ} (hus : cover interval hi rs lo = some us) : us ≠ [] := by
  induction rs generalizing lo with
  | nil => simp [cover] at hus
  | cons r rs ih =>
      rw [cover] at hus
      split at hus
      · split at hus
        · obtain rfl := Option.some.inj hus
          simp
        · obtain ⟨ts, -, rfl⟩ := Option.map_eq_some_iff.mp hus
          simp
      · exact ih hus

/-- It has then been in the intervals that meet `[lo, hi)`, and in no others. -/
theorem mem_cover_iff (h : Ascending interval rs) (hlt : lo < hi) {us : List ρ}
    (hus : cover interval hi rs lo = some us) {s : ρ} :
    s ∈ us ↔ s ∈ rs ∧ (interval s).1 < hi ∧ lo < (interval s).2 := by
  induction rs generalizing lo us with
  | nil => simp [cover] at hus
  | cons r rs ih =>
      rw [cover] at hus
      by_cases hr : (interval r).1 ≤ lo ∧ lo < (interval r).2
      · rw [if_pos hr] at hus
        by_cases hend : hi ≤ (interval r).2
        · rw [if_pos hend] at hus
          obtain rfl := Option.some.inj hus
          rw [List.mem_singleton]
          constructor
          · rintro rfl
            exact ⟨by simp, hr.1.trans_lt hlt, hr.2⟩
          · rintro ⟨hs, hstart, -⟩
            refine (List.mem_cons.mp hs).resolve_right fun hs => ?_
            exact absurd (hend.trans (h.le_start hs)) (not_le_of_gt hstart)
        · rw [if_neg hend] at hus
          obtain ⟨ts, hts, rfl⟩ := Option.map_eq_some_iff.mp hus
          rw [List.mem_cons, List.mem_cons, ih h.tail (lt_of_not_ge hend) hts]
          constructor
          · rintro (rfl | ⟨hs, hstart, hstop⟩)
            · exact ⟨Or.inl rfl, hr.1.trans_lt hlt, hr.2⟩
            · exact ⟨Or.inr hs, hstart, hr.2.trans hstop⟩
          · rintro ⟨rfl | hs, hstart, -⟩
            · exact Or.inl rfl
            · have hlater := h.nonempty s (List.mem_cons_of_mem r hs)
              exact Or.inr ⟨hs, hstart, (h.le_start hs).trans_lt hlater⟩
      · rw [if_neg hr] at hus
        rw [ih h.tail hlt hus, List.mem_cons]
        constructor
        · rintro ⟨hs, hmeet⟩
          exact ⟨Or.inr hs, hmeet⟩
        · rintro ⟨rfl | hs, hstart, hstop⟩
          · -- `s` does not contain `lo`, so it starts later; but `lo` is covered after it.
            have hsome : (cover interval hi rs lo).isSome := by rw [hus]; rfl
            obtain ⟨t, ht, hlo⟩ := (cover_isSome_iff h.tail hlt).mp hsome lo ⟨le_rfl, hlt⟩
            have hstop' := (h.le_start ht).trans hlo.1
            exact absurd hstop (not_lt_of_ge hstop')
          · exact ⟨hs, hstart, hstop⟩

end Intervals
end Patrons
