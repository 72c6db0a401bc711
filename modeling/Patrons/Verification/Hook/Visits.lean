import Mathlib.Data.List.Induction
import Patrons.Verification.Hook.FindOnly
import Patrons.Verification.Hook.Refresh

/-! # Refreshes as lists of visits

A refresh visits slot after slot. Where slots and pointers are words of their own, a pointer
ends with the word of the last slot visited for it, and a slot with the function hooked in. -/

namespace Patrons.Xhook

open Bytes

variable {π : Type*}

structure Visit where
  elf : Elf
  newFunc : Addr
  oldFunc : Addr
  slot : Addr

def Visit.run (pages : Pages π) (vm : Vm π) (v : Visit) : Vm π :=
  v.elf.visit pages v.newFunc v.oldFunc vm v.slot

namespace Maps

variable (maps : Maps π)

/-- The visits that a hook makes in one image. -/
def visitsOf (mi : MapInfo) (hi : HookInfo) : List Visit :=
  match maps.elfOf mi, (maps.image mi.baseAddr).symidx hi.symbol with
  | some elf, some symidx =>
    ((maps.image mi.baseAddr).relocs.reach elf symidx).1.map
      fun a => ⟨elf, hi.newFunc, hi.oldFunc, a⟩
  | _, _ => []

def visits (hooks : List HookInfo) (infos : List MapInfo) : List Visit :=
  infos.flatMap fun mi => (hooks.filter (maps.matchesHook mi.pathname)).flatMap (maps.visitsOf mi)

variable {maps}

theorem xhCoreHook_eq (hpages : maps.pages.Succeed) (hooks : List HookInfo) (mi : MapInfo)
    (vm : Vm π) :
    maps.xhCoreHook hooks mi vm =
      ((hooks.filter (maps.matchesHook mi.pathname)).flatMap (maps.visitsOf mi)).foldl
        (Visit.run maps.pages) vm := by
  rw [List.foldl_flatMap, xhCoreHook]
  cases helf : maps.elfOf mi with
  | none => simp [visitsOf, helf]
  | some elf =>
      refine congrArg (fun f => List.foldl f vm _) (funext fun vm => funext fun hi => ?_)
      cases hsym : (maps.image mi.baseAddr).symidx hi.symbol with
      | none => simp [visitsOf, hookSymbol, helf, hsym]
      | some symidx =>
          simp only [visitsOf, hookSymbol, helf, hsym, hook_eq_reach hpages, List.foldl_map]
          rfl

theorem hookAll_eq_visits (hpages : maps.pages.Succeed) (hooks : List HookInfo)
    (infos : List MapInfo) (vm : Vm π) :
    maps.hookAll hooks infos vm = (maps.visits hooks infos).foldl (Visit.run maps.pages) vm := by
  rw [hookAll, visits, List.foldl_flatMap]
  exact congrArg (fun f => List.foldl f vm infos)
    (funext fun vm => funext fun mi => xhCoreHook_eq hpages hooks mi vm)

theorem of_mem_visitsOf {mi : MapInfo} {hi : HookInfo} {v : Visit}
    (hv : v ∈ maps.visitsOf mi hi) : v.newFunc = hi.newFunc ∧ v.oldFunc = hi.oldFunc := by
  unfold visitsOf at hv
  split at hv
  · obtain ⟨a, -, rfl⟩ := List.mem_map.mp hv
    exact ⟨rfl, rfl⟩
  · simp at hv

theorem of_mem_visits {hooks : List HookInfo} {infos : List MapInfo} {v : Visit}
    (hv : v ∈ maps.visits hooks infos) :
    ∃ hi ∈ hooks, v.newFunc = hi.newFunc ∧ v.oldFunc = hi.oldFunc := by
  obtain ⟨mi, -, hv⟩ := List.mem_flatMap.mp hv
  obtain ⟨hi, hhi, hv⟩ := List.mem_flatMap.mp hv
  exact ⟨hi, (List.mem_filter.mp hhi).1, of_mem_visitsOf hv⟩

end Maps

/-! ## One visit -/

/-- What a visit makes of memory where the protection of pages can be changed. -/
def Visit.effect (m : Bytes) (v : Visit) : Bytes :=
  if v.newFunc = 0 then saveOld v.oldFunc (loadWord m v.slot) m
  else if loadWord m v.slot = v.newFunc then m
  else storeWord (saveOld v.oldFunc (loadWord m v.slot) m) v.slot v.newFunc

theorem run_mem {pages : Pages π} (hpages : pages.Succeed) (v : Visit) (vm : Vm π) :
    (v.run pages vm).mem = v.effect vm.mem := by
  rw [Visit.run, Elf.visit, Visit.effect]
  split
  · rfl
  · exact replaceFunction_mem hpages _ _

theorem foldl_run_mem {pages : Pages π} (hpages : pages.Succeed) (vs : List Visit) (vm : Vm π) :
    (vs.foldl (Visit.run pages) vm).mem = vs.foldl Visit.effect vm.mem := by
  induction vs generalizing vm with
  | nil => rfl
  | cons v vs ih => rw [List.foldl_cons, List.foldl_cons, ih, run_mem hpages]

theorem Maps.hookAll_mem {maps : Maps π} (hpages : maps.pages.Succeed) (hooks : List HookInfo)
    (infos : List MapInfo) (vm : Vm π) :
    (maps.hookAll hooks infos vm).mem = (maps.visits hooks infos).foldl Visit.effect vm.mem := by
  rw [Maps.hookAll_eq_visits hpages, foldl_run_mem hpages]

variable {v : Visit} {m : Bytes} {a : Addr}

theorem load_effect_other (hold : Apart v.oldFunc a) (hslot : Apart v.slot a) :
    loadWord (v.effect m) a = loadWord m a := by
  have hsaved : ∀ w, loadWord (saveOld v.oldFunc w m) a = loadWord m a := fun w =>
    load_saveOld fun _ => hold
  rw [Visit.effect]
  split
  · exact hsaved _
  · split
    · rfl
    · rw [load_store_of_apart hslot, hsaved]

theorem load_effect_old (hne : v.oldFunc ≠ 0) (hapart : Apart v.oldFunc v.slot)
    (hfresh : v.newFunc ≠ 0 → loadWord m v.slot ≠ v.newFunc) :
    loadWord (v.effect m) v.oldFunc = loadWord m v.slot := by
  have hsaved : loadWord (saveOld v.oldFunc (loadWord m v.slot) m) v.oldFunc =
      loadWord m v.slot := by
    rw [saveOld, if_pos hne, load_store_self]
  rw [Visit.effect]
  split
  · exact hsaved
  · rename_i hnew
    rw [if_neg (hfresh hnew), load_store_of_apart hapart.symm, hsaved]

theorem load_effect_slot (hne : v.newFunc ≠ 0) : loadWord (v.effect m) v.slot = v.newFunc := by
  rw [Visit.effect, if_neg hne]
  split
  · assumption
  · rw [load_store_self]

/-! ## Runs of visits -/

/-- Slots and pointers are words of their own. -/
structure Independent (vs : List Visit) : Prop where
  slots : vs.Pairwise fun u v => Apart u.slot v.slot
  olds : ∀ u ∈ vs, u.oldFunc ≠ 0 ∧ ∀ v ∈ vs, Apart u.oldFunc v.slot

def Fresh (m : Bytes) (vs : List Visit) : Prop :=
  ∀ v ∈ vs, v.newFunc ≠ 0 → loadWord m v.slot ≠ v.newFunc

/-- The word of the last slot that is visited for the pointer `c`, or `w`. -/
def lastWord (m : Bytes) (c : Addr) (w : SizeT) (vs : List Visit) : SizeT :=
  vs.foldl (fun w v => if v.oldFunc = c then loadWord m v.slot else w) w

theorem Independent.tail {vs : List Visit} (h : Independent (v :: vs)) : Independent vs where
  slots := h.slots.of_cons
  olds u hu := ⟨(h.olds u (List.mem_cons_of_mem v hu)).1,
    fun w hw => (h.olds u (List.mem_cons_of_mem v hu)).2 w (List.mem_cons_of_mem v hw)⟩

theorem Independent.sublist {us vs : List Visit} (h : Independent vs) (hsub : us.Sublist vs) :
    Independent us where
  slots := h.slots.sublist hsub
  olds u hu := ⟨(h.olds u (hsub.subset hu)).1,
    fun w hw => (h.olds u (hsub.subset hu)).2 w (hsub.subset hw)⟩

/-- The first visit leaves the later slots alone. -/
theorem load_effect_slot_of_mem {vs : List Visit} (h : Independent (v :: vs)) {u : Visit}
    (hu : u ∈ vs) : loadWord (v.effect m) u.slot = loadWord m u.slot :=
  load_effect_other ((h.olds v (by simp)).2 u (List.mem_cons_of_mem v hu))
    ((List.pairwise_cons.mp h.slots).1 u hu)

theorem Fresh.tail {vs : List Visit} (h : Independent (v :: vs)) (hfresh : Fresh m (v :: vs)) :
    Fresh (v.effect m) vs := by
  intro u hu hne
  rw [load_effect_slot_of_mem h hu]
  exact hfresh u (List.mem_cons_of_mem v hu) hne

theorem load_visits_other {vs : List Visit}
    (h : ∀ v ∈ vs, Apart v.oldFunc a ∧ Apart v.slot a) :
    loadWord (vs.foldl Visit.effect m) a = loadWord m a := by
  induction vs generalizing m with
  | nil => rfl
  | cons v vs ih =>
      obtain ⟨hold, hslot⟩ := h v (by simp)
      rw [List.foldl_cons, ih fun u hu => h u (List.mem_cons_of_mem v hu)]
      exact load_effect_other hold hslot

theorem lastWord_congr {m m' : Bytes} {c : Addr} {vs : List Visit}
    (h : ∀ v ∈ vs, loadWord m v.slot = loadWord m' v.slot) (w : SizeT) :
    lastWord m c w vs = lastWord m' c w vs := by
  induction vs generalizing w with
  | nil => rfl
  | cons v vs ih =>
      simp only [lastWord, List.foldl_cons]
      rw [h v (by simp)]
      exact ih (fun u hu => h u (List.mem_cons_of_mem v hu)) _

theorem load_visits_old {c : Addr} {vs : List Visit} (h : Independent vs) (hfresh : Fresh m vs)
    (hc : ∀ v ∈ vs, (v.oldFunc = c ∨ Apart v.oldFunc c) ∧ Apart v.slot c) :
    loadWord (vs.foldl Visit.effect m) c = lastWord m c (loadWord m c) vs := by
  induction vs generalizing m with
  | nil => rfl
  | cons v vs ih =>
      have hfirst : loadWord (v.effect m) c =
          if v.oldFunc = c then loadWord m v.slot else loadWord m c := by
        obtain ⟨hold, hslot⟩ := hc v (by simp)
        obtain ⟨hne, hapart⟩ := h.olds v (by simp)
        split
        · rename_i heq
          rw [← heq]
          exact load_effect_old hne (hapart v (by simp)) (hfresh v (by simp))
        · rename_i hdiff
          exact load_effect_other (hold.resolve_left hdiff) hslot
      rw [List.foldl_cons, ih h.tail (hfresh.tail h)
        (fun u hu => hc u (List.mem_cons_of_mem v hu)), hfirst]
      exact lastWord_congr (fun u hu => load_effect_slot_of_mem h hu) _

theorem load_visits_slot {vs : List Visit} (h : Independent vs) {u : Visit} (hu : u ∈ vs)
    (hne : u.newFunc ≠ 0) : loadWord (vs.foldl Visit.effect m) u.slot = u.newFunc := by
  induction vs generalizing m with
  | nil => simp at hu
  | cons v vs ih =>
      rw [List.foldl_cons]
      rcases List.mem_cons.mp hu with rfl | hu
      · have hlater : ∀ w ∈ vs, Apart w.oldFunc u.slot ∧ Apart w.slot u.slot := by
          intro w hw
          exact ⟨(h.olds w (List.mem_cons_of_mem u hw)).2 u (by simp),
            ((List.pairwise_cons.mp h.slots).1 w hw).symm⟩
        rw [load_visits_other hlater]
        exact load_effect_slot hne
      · exact ih h.tail hu

/-! ## Which visits count for a pointer -/

theorem lastWord_filter (m : Bytes) (c : Addr) (w : SizeT) (vs : List Visit) :
    lastWord m c w vs = lastWord m c w (vs.filter (·.oldFunc = c)) := by
  induction vs generalizing w with
  | nil => rfl
  | cons v vs ih =>
      simp only [lastWord, List.foldl_cons]
      by_cases h : v.oldFunc = c
      · rw [List.filter_cons_of_pos (by simpa using h), List.foldl_cons]
        exact ih _
      · rw [List.filter_cons_of_neg (by simpa using h), if_neg h]
        exact ih w

/-- A pointer that some visit stores to gets the word of a slot. -/
theorem exists_lastWord {m : Bytes} {c : Addr} {vs : List Visit} {u : Visit} (hu : u ∈ vs)
    (hold : u.oldFunc = c) (w : SizeT) :
    ∃ v ∈ vs, v.oldFunc = c ∧ lastWord m c w vs = loadWord m v.slot := by
  induction vs using List.reverseRecOn with
  | nil => simp at hu
  | append_singleton vs v ih =>
      simp only [lastWord, List.foldl_append, List.foldl_cons, List.foldl_nil]
      by_cases h : v.oldFunc = c
      · exact ⟨v, by simp, h, if_pos h⟩
      · have hu' : u ∈ vs := by
          rcases List.mem_append.mp hu with hu | hu
          · exact hu
          · obtain rfl := List.mem_singleton.mp hu
            exact absurd hold h
        obtain ⟨x, hx, hxc, hword⟩ := ih hu'
        exact ⟨x, List.mem_append_left _ hx, hxc, by rw [if_neg h]; exact hword⟩

end Patrons.Xhook
