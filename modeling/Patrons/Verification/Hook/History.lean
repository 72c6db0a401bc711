import Mathlib.Data.List.Pairwise
import Patrons.Model.Symbols
import Patrons.Verification.Hook.Visits

/-! # Native init after earlier calls

The registry is closed by the first refresh, so every later refresh works on what the first
call of native init registered. -/

namespace Patrons.Xhook

open Bytes

variable {π : Type*}

/-! ## Registrations -/

namespace Cells

variable (cells : Cells)

def symbols : List HookInfo := [cells.registerDlopen, cells.registerDlsym, cells.registerStub]

def registrations (hooked : Bool) : List HookInfo :=
  cells.symbols ++ if hooked then [cells.registerFopen] else []

def pointers : List Addr :=
  [cells.loaderDlopen, cells.loaderDlsym, cells.stubMethodInArt, cells.fopen]

end Cells

variable (maps : Maps π) (cells : Cells)

/-- The libraries that a refresh hooks, in the order of the maps. -/
def libraries : List MapInfo := maps.loaded cells.symbols

/-- The slots through which the libraries matching `libart.so` import `fopen`. -/
def fopenSlots : List Addr :=
  (maps.visits [cells.registerFopen] (libraries maps cells)).map (·.slot)

/-- The linker gives every slot and every pointer a word of its own, and `fix_huawei_fopen` is
in no slot at the start. -/
structure Separate (m : Bytes) : Prop where
  pointers : cells.pointers.Pairwise Apart
  pointers_ne : ∀ c ∈ cells.pointers, c ≠ 0
  slots : (maps.visits (cells.registrations true) (libraries maps cells)).Pairwise
    fun u v => Apart u.slot v.slot
  pointers_slots : ∀ c ∈ cells.pointers,
    ∀ v ∈ maps.visits (cells.registrations true) (libraries maps cells), Apart c v.slot
  fix_ne : cells.fixHuaweiFopen ≠ 0
  fix_fresh : ∀ a ∈ fopenSlots maps cells, m.loadWord a ≠ cells.fixHuaweiFopen

variable {maps cells}

theorem baseAddr_of_mem_registrations {hooked : Bool} {hi : HookInfo}
    (h : hi ∈ cells.registrations hooked) : hi.baseAddr = 0 := by
  cases hooked <;> simp only [Cells.registrations, Cells.symbols, List.cons_append,
    List.nil_append, Bool.false_eq_true, ↓reduceIte, List.append_nil, List.mem_cons,
    List.not_mem_nil, or_false] at h
  · rcases h with rfl | rfl | rfl <;> rfl
  · rcases h with rfl | rfl | rfl | rfl <;> rfl

/-- `fopen` is looked for where the symbol of `libart` is. -/
theorem selects_registrations (hooked : Bool) (line : MapsLine) :
    maps.selects (cells.registrations hooked) line = maps.selects cells.symbols line := by
  have hsome : ∀ l : List HookInfo, (l.find? (maps.matchesHook line.pathname)).isSome =
      l.any (maps.matchesHook line.pathname) := by
    intro l
    rw [List.isSome_find?]
  cases hooked with
  | false => rfl
  | true =>
      have hsame : maps.matchesHook line.pathname cells.registerFopen =
          maps.matchesHook line.pathname cells.registerStub := rfl
      simp [Maps.selects, hsome, Cells.registrations, Cells.symbols, hsame]

theorem firsts_congr {maps' : Maps π} {hooks hooks' : List HookInfo}
    (h : ∀ line, maps.selects hooks line = maps'.selects hooks' line) (lines : List MapsLine)
    (seen : List MapInfo) : maps.firsts hooks seen lines = maps'.firsts hooks' seen lines := by
  induction lines generalizing seen with
  | nil => rfl
  | cons line lines ih =>
      rw [Maps.firsts, Maps.firsts, h line, ih, ih]

theorem loaded_registrations (hooked : Bool) :
    maps.loaded (cells.registrations hooked) = libraries maps cells :=
  firsts_congr (selects_registrations hooked) _ _

theorem Maps.loaded_withCalls (calls : RefreshCalls π) (hooks : List HookInfo) :
    (maps.withCalls calls).loaded hooks = maps.loaded hooks := by
  have hselects : ∀ line, (maps.withCalls calls).selects hooks line = maps.selects hooks line :=
    fun _ => rfl
  exact firsts_congr hselects _ _

/-! ## The visits of a refresh -/

theorem visits_symbols_sublist :
    (maps.visits cells.symbols (libraries maps cells)).Sublist
      (maps.visits (cells.registrations true) (libraries maps cells)) := by
  unfold Maps.visits
  generalize libraries maps cells = infos
  induction infos with
  | nil => exact List.Sublist.refl _
  | cons mi infos ih =>
      rw [List.flatMap_cons, List.flatMap_cons]
      refine List.Sublist.append ?_ ih
      rw [Cells.registrations, List.filter_append, List.flatMap_append]
      exact List.sublist_append_left _ _

variable (maps cells) in
theorem visits_registrations_sublist (hooked : Bool) :
    (maps.visits (cells.registrations hooked) (libraries maps cells)).Sublist
      (maps.visits (cells.registrations true) (libraries maps cells)) := by
  cases hooked with
  | false => exact visits_symbols_sublist
  | true => exact List.Sublist.refl _

theorem of_mem_visits_fopen {v : Visit}
    (h : v ∈ maps.visits [cells.registerFopen] (libraries maps cells)) :
    v.newFunc = cells.fixHuaweiFopen ∧ v.oldFunc = cells.fopen := by
  obtain ⟨hi, hhi, hnew, hold⟩ := Maps.of_mem_visits h
  obtain rfl := List.mem_singleton.mp hhi
  exact ⟨hnew, hold⟩

theorem of_mem_visits_symbols {v : Visit}
    (h : v ∈ maps.visits cells.symbols (libraries maps cells)) :
    v.newFunc = 0 ∧ v.oldFunc ∈ [cells.loaderDlopen, cells.loaderDlsym, cells.stubMethodInArt] := by
  obtain ⟨hi, hhi, hnew, hold⟩ := Maps.of_mem_visits h
  simp only [Cells.symbols, List.mem_cons, List.not_mem_nil, or_false] at hhi
  rcases hhi with rfl | rfl | rfl <;> exact ⟨hnew, by simp [hold, Cells.registerDlopen,
    Cells.registerDlsym, Cells.registerStub]⟩

theorem mem_visits_registrations_iff {v : Visit} :
    v ∈ maps.visits (cells.registrations true) (libraries maps cells) ↔
      v ∈ maps.visits cells.symbols (libraries maps cells) ∨
      v ∈ maps.visits [cells.registerFopen] (libraries maps cells) := by
  simp only [Maps.visits, Cells.registrations, List.mem_flatMap, List.filter_append,
    List.flatMap_append, List.mem_append, ↓reduceIte]
  constructor
  · rintro ⟨mi, hmi, h | h⟩
    · exact Or.inl ⟨mi, hmi, h⟩
    · exact Or.inr ⟨mi, hmi, h⟩
  · rintro (⟨mi, hmi, h⟩ | ⟨mi, hmi, h⟩)
    · exact ⟨mi, hmi, Or.inl h⟩
    · exact ⟨mi, hmi, Or.inr h⟩

theorem oldFunc_mem_pointers {v : Visit}
    (hv : v ∈ maps.visits (cells.registrations true) (libraries maps cells)) :
    v.oldFunc ∈ cells.pointers := by
  rcases mem_visits_registrations_iff.mp hv with hv | hv
  · exact List.mem_append_left [cells.fopen] (of_mem_visits_symbols hv).2
  · rw [(of_mem_visits_fopen hv).2]
    simp [Cells.pointers]

theorem Separate.independent {m : Bytes} (h : Separate maps cells m) :
    Independent (maps.visits (cells.registrations true) (libraries maps cells)) where
  slots := h.slots
  olds u hu := by
    have hptr := oldFunc_mem_pointers hu
    exact ⟨h.pointers_ne _ hptr, h.pointers_slots _ hptr⟩

theorem Separate.fresh {m : Bytes} (h : Separate maps cells m) :
    Fresh m (maps.visits (cells.registrations true) (libraries maps cells)) := by
  intro v hv hne
  rcases mem_visits_registrations_iff.mp hv with hv | hv
  · exact absurd (of_mem_visits_symbols hv).1 hne
  · rw [(of_mem_visits_fopen hv).1]
    exact h.fix_fresh _ (List.mem_map_of_mem hv)

theorem Separate.symbol_ne_fopen {m : Bytes} (h : Separate maps cells m) {c : Addr}
    (hc : c ∈ [cells.loaderDlopen, cells.loaderDlsym, cells.stubMethodInArt]) :
    c ≠ cells.fopen := by
  have hsplit : ([cells.loaderDlopen, cells.loaderDlsym, cells.stubMethodInArt] ++
      [cells.fopen]).Pairwise Apart := h.pointers
  exact ((List.pairwise_append.mp hsplit).2.2 c hc cells.fopen (by simp)).ne

/-- Each pointer is stored to by visits for it, and by no other. -/
theorem Separate.old_eq_or_apart {m : Bytes} (h : Separate maps cells m) {c : Addr}
    (hc : c ∈ cells.pointers) {v : Visit}
    (hv : v ∈ maps.visits (cells.registrations true) (libraries maps cells)) :
    v.oldFunc = c ∨ Apart v.oldFunc c := by
  have hptr := oldFunc_mem_pointers hv
  by_cases heq : v.oldFunc = c
  · exact Or.inl heq
  · exact Or.inr (h.pointers.forall hptr hc heq)

/-! ## Memory after the first refresh -/

/-- Memory after a refresh that hooks the registrations of the first call. -/
def refreshed (maps : Maps π) (cells : Cells) (hooked : Bool) (m : Bytes) : Bytes :=
  (maps.visits (cells.registrations hooked) (libraries maps cells)).foldl Visit.effect m

section Refreshed

variable {m : Bytes} (h : Separate maps cells m)

include h

theorem load_refreshed (hooked : Bool) {c : Addr} (hc : c ∈ cells.pointers) :
    (refreshed maps cells hooked m).loadWord c =
      lastWord m c (m.loadWord c)
        (maps.visits (cells.registrations hooked) (libraries maps cells)) := by
  have hsub := visits_registrations_sublist maps cells hooked
  refine load_visits_old (h.independent.sublist hsub) (fun v hv => h.fresh v (hsub.subset hv)) ?_
  intro v hv
  exact ⟨h.old_eq_or_apart hc (hsub.subset hv), (h.pointers_slots c hc v (hsub.subset hv)).symm⟩

theorem load_refreshed_symbol (hooked : Bool) {c : Addr} (hc : c ∈ cells.pointers)
    (hne : c ≠ cells.fopen) :
    (refreshed maps cells hooked m).loadWord c =
      (refreshed maps cells false m).loadWord c := by
  cases hooked with
  | false => rfl
  | true =>
      rw [load_refreshed h true hc, load_refreshed h false hc, lastWord_filter,
        lastWord_filter _ _ _ (maps.visits (cells.registrations false) _)]
      refine congrArg (lastWord m c _) ?_
      have hfopen : ∀ mi, (([cells.registerFopen].filter (maps.matchesHook mi.pathname)).flatMap
          (maps.visitsOf mi)).filter (·.oldFunc = c) = [] := by
        intro mi
        rw [List.filter_eq_nil_iff]
        intro v hv heq
        obtain ⟨hi, hhi, hv⟩ := List.mem_flatMap.mp hv
        obtain rfl := List.mem_singleton.mp (List.mem_filter.mp hhi).1
        have hold : v.oldFunc = cells.fopen := (Maps.of_mem_visitsOf hv).2
        exact hne ((of_decide_eq_true heq).symm.trans hold)
      simp only [Maps.visits, Cells.registrations, List.filter_flatMap, List.filter_append,
        List.flatMap_append, ↓reduceIte, hfopen, List.append_nil, Bool.false_eq_true]

theorem load_refreshed_fopenSlot {a : Addr} (ha : a ∈ fopenSlots maps cells) :
    (refreshed maps cells true m).loadWord a = cells.fixHuaweiFopen := by
  obtain ⟨u, hu, rfl⟩ := List.mem_map.mp ha
  obtain ⟨hnew, -⟩ := of_mem_visits_fopen hu
  have hne : u.newFunc ≠ 0 := hnew ▸ h.fix_ne
  rw [refreshed, ← hnew]
  exact load_visits_slot h.independent (mem_visits_registrations_iff.mpr (Or.inr hu)) hne

/-- Without the hook nothing is written to the slots of `fopen`. -/
theorem load_refreshed_fopenSlot_unhooked {a : Addr} (ha : a ∈ fopenSlots maps cells) :
    (refreshed maps cells false m).loadWord a = m.loadWord a := by
  obtain ⟨u, hu, rfl⟩ := List.mem_map.mp ha
  have hu' := mem_visits_registrations_iff.mpr (Or.inr hu)
  have hsymm : Std.Symm fun u v : Visit => Apart u.slot v.slot := ⟨fun _ _ => Apart.symm⟩
  refine load_visits_other ?_
  intro v hv
  have hv' := mem_visits_registrations_iff.mpr (Or.inl hv)
  refine ⟨(h.independent.olds v hv').2 u hu', h.slots.forall hv' hu' ?_⟩
  rintro rfl
  have hnew := (of_mem_visits_fopen hu).1
  rw [(of_mem_visits_symbols hv).1] at hnew
  exact h.fix_ne hnew.symm

/-- `__fopen` gets the function that one of the slots held. -/
theorem load_refreshed_fopen (hne : fopenSlots maps cells ≠ []) :
    ∃ a ∈ fopenSlots maps cells,
      (refreshed maps cells true m).loadWord cells.fopen = m.loadWord a := by
  obtain ⟨a, ha⟩ := List.exists_mem_of_ne_nil _ hne
  obtain ⟨u, hu, -⟩ := List.mem_map.mp ha
  rw [load_refreshed h true (by simp [Cells.pointers])]
  obtain ⟨v, hv, hold, hword⟩ := exists_lastWord (m := m)
    (mem_visits_registrations_iff.mpr (Or.inr hu)) (of_mem_visits_fopen hu).2
    (m.loadWord cells.fopen)
  refine ⟨v.slot, ?_, hword⟩
  rcases mem_visits_registrations_iff.mp hv with hv | hv
  · exact absurd hold (h.symbol_ne_fopen (of_mem_visits_symbols hv).2)
  · exact List.mem_map_of_mem hv

end Refreshed

/-! ## Runs of a process -/

def bugDevice (dev : Device) : Bool := isHuaweiBugDevice (initEnv dev {})

def firstFlag (history : List (HookEvent π)) : Option Bool :=
  history.findSome? fun
    | .init _ isFixHuaweiBinder _ => some isFixHuaweiBinder
    | .refreshThread _ => none

def firstCalls (history : List (HookEvent π)) : Option (FindCalls π) :=
  history.findSome? fun
    | .init _ _ calls => some calls
    | .refreshThread _ => none

def HookEvent.refreshCalls : HookEvent π → RefreshCalls π
  | .init _ _ calls => calls.toRefreshCalls
  | .refreshThread calls => calls

def RegisterCalls.Succeed (calls : RegisterCalls) : Prop :=
  calls.regcomp = true ∧ calls.malloc = true ∧ calls.strdup = true

/-- There is memory for every map info, and the protection of pages can be read and changed. -/
structure RefreshCalls.Succeed (calls : RefreshCalls π) : Prop where
  allocates : ∀ line, calls.allocates line = true
  pages : calls.pages.Succeed

theorem RefreshCalls.Succeed.allocates_withCalls {calls : RefreshCalls π} (h : calls.Succeed) :
    (maps.withCalls calls).Allocates := h.allocates

/-- Every registration succeeds, and `sigaction` takes the handler. -/
structure FindCalls.Initialise (calls : FindCalls π) : Prop where
  registers : ∀ hi, (calls.registers hi).Succeed
  handled : calls.handled = true

structure FindCalls.Succeed (calls : FindCalls π) : Prop where
  initialise : calls.Initialise
  opened : calls.opened = true
  refresh : calls.toRefreshCalls.Succeed

/-- The first call registers all it asks for and initialises `xh_core`, and refreshes that can
read the maps hook what they find. -/
structure Undisturbed (history : List (HookEvent π)) : Prop where
  first : ∀ calls, firstCalls history = some calls → calls.Initialise
  refresh : ∀ e ∈ history, e.refreshCalls.Succeed

/-- A process whose first call registered with the flag given, if there was a call. No
refresh has run yet, or the first one hooked what that call registered. -/
def ReachedBy (maps : Maps π) (cells : Cells) (dev : Device) (m : Bytes) :
    Option Bool → Hooks π → Prop
  | none, s => s.core = {} ∧ s.vm.mem = m
  | some flag, s =>
    s.core.inited ∧ s.core.initOk ∧
    s.core.hookInfo = cells.registrations (flag && bugDevice dev) ∧
    ((s.core.mapInfo = [] ∧ s.vm.mem = m) ∨
      (s.core.mapInfo = libraries maps cells ∧
        s.vm.mem = refreshed maps cells (flag && bugDevice dev) m))

variable {dev : Device} {m : Bytes} {s t : Hooks π} {flag : Bool} {calls : FindCalls π}
  {rc : RefreshCalls π}

variable (rc) in
theorem ReachedBy.registered (h : ReachedBy maps cells dev m (some flag) s) :
    (∀ hi ∈ s.core.hookInfo, hi.baseAddr = 0) ∧
      (maps.withCalls rc).loaded s.core.hookInfo = libraries maps cells := by
  rw [h.2.2.1, Maps.loaded_withCalls, loaded_registrations]
  exact ⟨fun hi hhi => baseAddr_of_mem_registrations hhi, rfl⟩

/-- A refresh of maps that can be opened ends with what the first call registered. -/
theorem ReachedBy.refreshImpl_mem (h : ReachedBy maps cells dev m (some flag) s)
    (hrc : rc.Succeed) :
    (xhCoreRefreshImpl (maps.withCalls rc) true s).vm.mem =
      refreshed maps cells (flag && bugDevice dev) m := by
  obtain ⟨hbase, hloaded⟩ := h.registered rc
  obtain ⟨-, -, hregs, hcases⟩ := h
  rcases hcases with ⟨hempty, hmem⟩ | ⟨htree, hmem⟩
  · rw [xhCoreRefreshImpl_first hrc.allocates_withCalls hbase hempty, hloaded, hregs]
    exact (Maps.hookAll_mem hrc.pages _ _ _).trans (by rw [hmem]; rfl)
  · rw [xhCoreRefreshImpl_again hrc.allocates_withCalls hbase (htree.trans hloaded.symm), hmem]

theorem ReachedBy.refreshImpl (h : ReachedBy maps cells dev m (some flag) s) (hrc : rc.Succeed)
    (opened : Bool) :
    ReachedBy maps cells dev m (some flag) (xhCoreRefreshImpl (maps.withCalls rc) opened s) := by
  cases opened with
  | false => exact h
  | true =>
      have hmem := h.refreshImpl_mem hrc
      obtain ⟨hbase, hloaded⟩ := h.registered rc
      obtain ⟨hinited, hok, hregs, hcases⟩ := h
      rcases hcases with ⟨hempty, -⟩ | ⟨htree, -⟩
      · rw [xhCoreRefreshImpl_first hrc.allocates_withCalls hbase hempty] at hmem ⊢
        exact ⟨hinited, hok, hregs, Or.inr ⟨hloaded, hmem⟩⟩
      · rw [xhCoreRefreshImpl_again hrc.allocates_withCalls hbase
          (htree.trans hloaded.symm)] at hmem ⊢
        exact ⟨hinited, hok, hregs, Or.inr ⟨htree, hmem⟩⟩

theorem ReachedBy.refresh (h : ReachedBy maps cells dev m (some flag) s) (hrc : rc.Succeed)
    (async handled opened created : Bool) :
    ReachedBy maps cells dev m (some flag)
      (xhCoreRefresh (maps.withCalls rc) async handled opened created s) := by
  obtain ⟨hinited, hok, hrest⟩ := h
  have honce : xhCoreInitOnce handled s.core = s.core := if_pos hinited
  unfold xhCoreRefresh
  simp only [honce, hok, Bool.not_true, Bool.false_eq_true, ↓reduceIte]
  cases async with
  | false => exact ReachedBy.refreshImpl ⟨hinited, hok, hrest⟩ hrc opened
  | true =>
      have hasync : ∀ core', xhCoreInitAsyncOnce created s.core = core' →
          core'.inited = s.core.inited ∧ core'.initOk = s.core.initOk ∧
          core'.hookInfo = s.core.hookInfo ∧ core'.mapInfo = s.core.mapInfo := by
        rintro _ rfl
        unfold xhCoreInitAsyncOnce
        split <;> exact ⟨rfl, rfl, rfl, rfl⟩
      obtain ⟨h₁, h₂, h₃, h₄⟩ := hasync _ rfl
      simp only [↓reduceIte]
      split
      · exact ⟨h₁.trans hinited, h₂.trans hok, by simpa only [h₃, h₄] using hrest⟩
      · exact ⟨h₁.trans hinited, h₂.trans hok, by simpa only [h₃, h₄] using hrest⟩

theorem registerAll_fresh (hcalls : calls.Initialise) (hs : s.core = {}) :
    cells.registerAll (initEnv dev {}) flag calls.registers s =
      ⟨{ hookInfo := cells.registrations (flag && bugDevice dev) }, s.vm⟩ := by
  have hregister : ∀ hi hooks, register (calls.registers hi) hi (⟨{ hookInfo := hooks }, s.vm⟩ :
      Hooks π) = ⟨{ hookInfo := hooks ++ [hi] }, s.vm⟩ := by
    intro hi hooks
    obtain ⟨hregcomp, hmalloc, hstrdup⟩ := hcalls.registers hi
    simp [register, xhCoreRegister, hregcomp, hmalloc, hstrdup]
  obtain ⟨core, vm⟩ := s
  obtain rfl : core = {} := hs
  simp only [Cells.registerAll, hregister]
  unfold bugDevice
  cases flag && isHuaweiBugDevice (initEnv dev {}) <;> rfl

variable (flag) in
/-- In an open registry a call registers for its own flag. -/
theorem reachedBy_opened (h : ReachedBy maps cells dev m none s) (hcalls : calls.Initialise) :
    ReachedBy maps cells dev m (some flag)
      ⟨xhCoreInitOnce calls.handled
        (cells.registerAll (initEnv dev {}) flag calls.registers s).core, s.vm⟩ := by
  rw [registerAll_fresh hcalls h.1, hcalls.handled]
  exact ⟨rfl, rfl, rfl, Or.inl ⟨rfl, h.2⟩⟩

/-- `xh_core_init_once` does not do its work twice. -/
theorem xhCoreRefresh_initOnce (maps : Maps π) (async handled opened created : Bool)
    (s : Hooks π) :
    xhCoreRefresh maps async handled opened created s =
      xhCoreRefresh maps async handled opened created
        ⟨xhCoreInitOnce handled s.core, s.vm⟩ := by
  have htwice : xhCoreInitOnce handled (xhCoreInitOnce handled s.core) =
      xhCoreInitOnce handled s.core := by
    unfold xhCoreInitOnce
    split <;> (try split) <;> simp_all
  unfold xhCoreRefresh
  simp only [htwice]

/-- In a closed registry nothing is registered. -/
theorem ReachedBy.registerAll (h : ReachedBy maps cells dev m (some flag) s) (g : Globals)
    (fix : Bool) (registers : HookInfo → RegisterCalls) :
    cells.registerAll g fix registers s = s := by
  have hclosed : ∀ calls hi, register calls hi s = s := by
    intro calls hi
    simp [register, xhCoreRegister, h.1]
  simp [Cells.registerAll, hclosed]

theorem ReachedBy.step {flag : Option Bool} {e : HookEvent π}
    (h : ReachedBy maps cells dev m flag s) (hrc : e.refreshCalls.Succeed)
    (hfirst : flag = none → ∀ calls, firstCalls [e] = some calls → calls.Initialise)
    (ht : (hooks maps cells dev).step s e = some t) :
    ReachedBy maps cells dev m (flag.or (firstFlag [e])) t := by
  cases e with
  | init sync fix calls =>
      obtain rfl := Option.some.inj ht
      cases flag with
      | none =>
          have hcalls := hfirst rfl calls rfl
          rw [findSymbol, xhCoreRefresh_initOnce, registerAll_fresh hcalls h.1]
          have hopened := reachedBy_opened fix h hcalls
          rw [registerAll_fresh hcalls h.1] at hopened
          exact hopened.refresh hrc _ _ _ _
      | some flag =>
          rw [findSymbol, h.registerAll]
          exact h.refresh hrc _ _ _ _
  | refreshThread rc =>
      simp only [hooks, Option.ite_none_right_eq_some, Option.some.injEq] at ht
      obtain ⟨hdo, rfl⟩ := ht
      cases flag with
      | none =>
          rw [h.1] at hdo
          exact absurd hdo (by simp)
      | some flag =>
          have hidle : ReachedBy maps cells dev m (some flag)
              { s with core := { s.core with refreshThreadDo := false } } := h
          exact hidle.refreshImpl hrc rc.opened

theorem ReachedBy.run {flag : Option Bool} {history : List (HookEvent π)}
    (h : ReachedBy maps cells dev m flag s)
    (hrefresh : ∀ e ∈ history, e.refreshCalls.Succeed)
    (hfirst : flag = none → ∀ calls, firstCalls history = some calls → calls.Initialise)
    (ht : (hooks maps cells dev).exec history s = some t) :
    ReachedBy maps cells dev m (flag.or (firstFlag history)) t := by
  induction history generalizing s flag with
  | nil =>
      obtain rfl := Option.some.inj ht
      simpa [firstFlag] using h
  | cons e history ih =>
      obtain ⟨u, hu, hrest⟩ := Option.bind_eq_some_iff.mp ht
      have hstep := h.step (hrefresh e (by simp)) (fun hnone calls hcalls =>
        hfirst hnone calls (by cases e <;> simp_all [firstCalls])) hu
      have hlast := ih hstep (fun e' he' => hrefresh e' (List.mem_cons_of_mem e he'))
        (fun hnone calls hcalls => by
          cases e with
          | init sync fix calls' => simp [firstFlag] at hnone
          | refreshThread rc => exact hfirst (by simpa [firstFlag] using hnone) calls hcalls) hrest
      have hfirst : firstFlag (e :: history) = (firstFlag [e]).or (firstFlag history) := by
        cases e <;> rfl
      rwa [hfirst, ← Option.or_assoc]

theorem reachedBy_of_exec {vm : Vm π} {history : List (HookEvent π)} (hh : Undisturbed history)
    (hs : (hooks maps cells dev).exec history (fresh vm) = some s) :
    ReachedBy maps cells dev vm.mem (firstFlag history) s := by
  have hstart : ReachedBy maps cells dev vm.mem none (fresh vm) := ⟨rfl, rfl⟩
  simpa using hstart.run hh.refresh (fun _ => hh.first) hs

/-! ## The next call -/

def next (maps : Maps π) (cells : Cells) (dev : Device) (fix : Bool) (calls : FindCalls π)
    (s : Hooks π) : Hooks π :=
  findSymbol maps cells (initEnv dev {}) true fix calls s

theorem ReachedBy.next_mem {flag : Option Bool} (h : ReachedBy maps cells dev m flag s)
    (hcalls : calls.Succeed) (fix : Bool) :
    (next maps cells dev fix calls s).vm.mem =
      refreshed maps cells (flag.getD fix && bugDevice dev) m := by
  have hsync : ∀ {flag : Bool} {s : Hooks π}, ReachedBy maps cells dev m (some flag) s →
      (xhCoreRefresh (maps.withCalls calls.toRefreshCalls) false calls.handled calls.opened
        calls.created s).vm.mem = refreshed maps cells (flag && bugDevice dev) m := by
    intro flag s h
    have honce : xhCoreInitOnce calls.handled s.core = s.core := if_pos h.1
    rw [xhCoreRefresh]
    simp only [honce, h.2.1, Bool.not_true, Bool.false_eq_true, ↓reduceIte, hcalls.opened]
    exact h.refreshImpl_mem hcalls.refresh
  cases flag with
  | none =>
      have hopened := reachedBy_opened fix h hcalls.initialise
      rw [next, findSymbol, xhCoreRefresh_initOnce]
      rw [registerAll_fresh hcalls.initialise h.1] at hopened ⊢
      exact hsync hopened
  | some flag =>
      rw [next, findSymbol, h.registerAll]
      exact hsync h

theorem next_fresh_mem (hcalls : calls.Succeed) (vm : Vm π) (fix : Bool) :
    (next maps cells dev fix calls (fresh vm)).vm.mem =
      refreshed maps cells (fix && bugDevice dev) vm.mem := by
  have hstart : ReachedBy maps cells dev vm.mem none (fresh vm) := ⟨rfl, rfl⟩
  exact hstart.next_mem hcalls fix

/-- Unless the first call closed the registry without `fopen`, a call that is to hook it does. -/
theorem ReachedBy.next_mem_of_hooked {flag : Option Bool} (h : ReachedBy maps cells dev m flag s)
    (hcalls : calls.Succeed) (hflag : flag ≠ some false) {fix : Bool}
    (hooked : fix && bugDevice dev) :
    (next maps cells dev fix calls s).vm.mem = refreshed maps cells true m := by
  obtain ⟨rfl, hbug⟩ := Bool.and_eq_true_iff.mp hooked
  have hgetD : flag.getD true = true := by
    cases flag with
    | none => rfl
    | some flag => simpa using hflag
  rw [h.next_mem hcalls, hgetD, hbug, Bool.true_and]

/-- What a call of native init leaves (`t`), next to what it leaves in a fresh process (`f`)
whose memory was `m`. -/
structure SameAsFresh (maps : Maps π) (cells : Cells) (hooked : Bool) (m : Bytes)
    (f t : Hooks π) : Prop where
  symbols : ∀ c ∈ [cells.loaderDlopen, cells.loaderDlsym, cells.stubMethodInArt],
    t.vm.mem.loadWord c = f.vm.mem.loadWord c
  slots : hooked → fopenSlots maps cells ≠ [] → ∀ a ∈ fopenSlots maps cells,
    t.vm.mem.loadWord a = cells.fixHuaweiFopen ∧ t.vm.mem.loadWord a = f.vm.mem.loadWord a
  original : hooked → fopenSlots maps cells ≠ [] →
    (∃ a ∈ fopenSlots maps cells, t.vm.mem.loadWord cells.fopen = m.loadWord a) ∧
      t.vm.mem.loadWord cells.fopen = f.vm.mem.loadWord cells.fopen

section NextCall

variable {vm : Vm π} (h : Separate maps cells vm.mem) {history : List (HookEvent π)}
  (hhistory : Undisturbed history) (hcalls : calls.Succeed)
  (hs : (hooks maps cells dev).exec history (fresh vm) = some s)

include h hhistory hcalls hs

/-- The symbols that the next call finds do not depend on the history. -/
theorem load_next (fix : Bool) {c : Addr}
    (hc : c ∈ [cells.loaderDlopen, cells.loaderDlsym, cells.stubMethodInArt]) :
    (next maps cells dev fix calls s).vm.mem.loadWord c =
      (next maps cells dev fix calls (fresh vm)).vm.mem.loadWord c := by
  have hptr : c ∈ cells.pointers := List.mem_append_left [cells.fopen] hc
  have hne := h.symbol_ne_fopen hc
  rw [(reachedBy_of_exec hhistory hs).next_mem hcalls, next_fresh_mem hcalls,
    load_refreshed_symbol h _ hptr hne, load_refreshed_symbol h (fix && bugDevice dev) hptr hne]

/-- Native init finds the same symbols as in a fresh process. -/
theorem found_next (fix : Bool) :
    found cells (next maps cells dev fix calls s) =
      found cells (next maps cells dev fix calls (fresh vm)) := by
  have hload : ∀ c ∈ [cells.loaderDlopen, cells.loaderDlsym, cells.stubMethodInArt], _ = _ :=
    fun c hc => load_next h hhistory hcalls hs fix hc
  unfold found
  rw [hload _ (by simp), hload _ (by simp), hload _ (by simp)]

/-- The linker as native init meets it after a refresh that left `s`. -/
def linkerAfter (ld : Linker) (cells : Cells) (s : Hooks π) : Linker where
  xhook _ _ := found cells s
  dlopen := ld.dlopen
  dlsym := ld.dlsym
  zlibVersion := ld.zlibVersion

/-- With the symbols that it finds, native init as a whole runs as in a fresh process. -/
theorem init_next (ld : Linker) (args : InitArgs) (k : SigCalls) :
    init (linkerAfter ld cells (next maps cells dev args.isFixHuaweiBinder calls s)) dev args k =
      init (linkerAfter ld cells (next maps cells dev args.isFixHuaweiBinder calls (fresh vm)))
        dev args k := by
  rw [linkerAfter, linkerAfter, found_next h hhistory hcalls hs]

/-- The next call does what it does in a fresh process unless `fopen` is to be hooked and the
first call closed the registry without it. -/
theorem sameAsFresh_iff (fix : Bool) :
    SameAsFresh maps cells (fix && bugDevice dev) vm.mem
        (next maps cells dev fix calls (fresh vm)) (next maps cells dev fix calls s) ↔
      ¬(fix = true ∧ bugDevice dev = true ∧ fopenSlots maps cells ≠ [] ∧
        firstFlag history = some false) := by
  have hreached : ReachedBy maps cells dev vm.mem (firstFlag history) s :=
    reachedBy_of_exec hhistory hs
  constructor
  · rintro hsame ⟨rfl, hbug, himports, hflag⟩
    rw [hflag] at hreached
    obtain ⟨a, ha⟩ := List.exists_mem_of_ne_nil _ himports
    have hhooked := (hsame.slots (by simp [hbug]) himports a ha).1
    rw [hreached.next_mem hcalls, Option.getD_some, Bool.false_and,
      load_refreshed_fopenSlot_unhooked h ha] at hhooked
    exact h.fix_fresh a ha hhooked
  · intro hcond
    have hmem : fix && bugDevice dev → fopenSlots maps cells ≠ [] →
        (next maps cells dev fix calls s).vm.mem = refreshed maps cells true vm.mem := by
      intro hooked himports
      obtain ⟨hfix, hbug⟩ := Bool.and_eq_true_iff.mp hooked
      exact hreached.next_mem_of_hooked hcalls
        (fun hflag => hcond ⟨hfix, hbug, himports, hflag⟩) hooked
    have hfresh : fix && bugDevice dev →
        (next maps cells dev fix calls (fresh vm)).vm.mem =
          refreshed maps cells true vm.mem := by
      intro hooked
      rw [next_fresh_mem hcalls, hooked]
    refine ⟨fun c hc => load_next h hhistory hcalls hs fix hc, ?_, ?_⟩
    · intro hooked himports a ha
      rw [hmem hooked himports, hfresh hooked]
      exact ⟨load_refreshed_fopenSlot h ha, rfl⟩
    · intro hooked himports
      rw [hmem hooked himports, hfresh hooked]
      exact ⟨load_refreshed_fopen h himports, rfl⟩

end NextCall

/-! ### A retry on a Huawei phone -/

/-- `libdl.so` imports the two functions of the linker, `libart.so` imports `fopen`. -/
def huaweiMaps : Maps SizeT where
  lines := [⟨0xa0000000, "r--p", 0, "/apex/com.android.runtime/lib/bionic/libdl.so"⟩,
    ⟨0xb0000000, "r--p", 0, "/apex/com.android.runtime/lib/libart.so"⟩]
  image base :=
    { headerOk := true
      elf := some { libf with baseAddr := base, biasAddr := base }
      symidx := fun symbol =>
        if symbol = "__loader_dlopen" ∨ symbol = "_ZN3art10GetCmdLineEv" then some 1
        else if symbol = "__loader_dlsym" ∨ symbol = "fopen" then some 2 else none
      relocs := ⟨[⟨0x100, 0x116⟩, ⟨0x104, 0x216⟩], [], []⟩ }
  regexec regex pathname := (regex.toList.drop 2).dropLast.isSuffixOf pathname.toList
  pages := simplePages

def huaweiCells : Cells := ⟨0x70000000, 0x70000004, 0x70000008, 0x7000000c, 0x60000000⟩

def huawei : Device where
  property key :=
    if key = "ro.product.brand" then "HUAWEI"
    else if key = "ro.product.model" then "TAS-AN00" else ""
  apiLevel := 29

def huaweiVm : Vm SizeT where
  mem := memoryOf [(0xa0000100, [1, 0, 0, 0x50, 2, 0, 0, 0x50]),
    (0xb0000100, [3, 0, 0, 0x50, 4, 0, 0, 0x50])]
  prot := 1

theorem huawei_libraries : libraries huaweiMaps huaweiCells =
    [⟨"/apex/com.android.runtime/lib/bionic/libdl.so", 0xa0000000⟩,
      ⟨"/apex/com.android.runtime/lib/libart.so", 0xb0000000⟩] := by
  decide +kernel

theorem huawei_slots :
    (huaweiMaps.visits (huaweiCells.registrations true)
      (libraries huaweiMaps huaweiCells)).map (·.slot) =
    [0xa0000100, 0xa0000104, 0xb0000100, 0xb0000104] := by
  rw [huawei_libraries]
  decide +kernel

theorem huawei_fopenSlots : fopenSlots huaweiMaps huaweiCells = [0xb0000104] := by
  rw [fopenSlots, huawei_libraries]
  decide +kernel

theorem huawei_separate : Separate huaweiMaps huaweiCells huaweiVm.mem where
  pointers := by decide
  pointers_ne := by simp [Cells.pointers, huaweiCells]
  slots := by
    rw [← List.pairwise_map, huawei_slots]
    decide
  pointers_slots := by
    have h : ∀ c ∈ huaweiCells.pointers, ∀ a ∈ (huaweiMaps.visits (huaweiCells.registrations true)
        (libraries huaweiMaps huaweiCells)).map (·.slot), Apart c a := by
      rw [huawei_slots]
      simp [Cells.pointers, huaweiCells, Apart]
    exact fun c hc v hv => h c hc v.slot (List.mem_map_of_mem hv)
  fix_ne := by decide
  fix_fresh := by
    rw [huawei_fopenSlots]
    simp only [List.mem_singleton, forall_eq]
    decide +kernel

def huaweiCalls : FindCalls SizeT where
  pages := simplePages

theorem huaweiCalls_succeed : huaweiCalls.Succeed where
  initialise := ⟨fun _ => ⟨rfl, rfl, rfl⟩, rfl⟩
  opened := rfl
  refresh := ⟨fun _ => rfl, simplePages_succeed⟩

theorem huawei_undisturbed (fix : Bool) :
    Undisturbed [HookEvent.init true fix huaweiCalls] where
  first calls h := by
    obtain rfl := Option.some.inj h
    exact huaweiCalls_succeed.initialise
  refresh e he := by
    obtain rfl := List.mem_singleton.mp he
    exact huaweiCalls_succeed.refresh

theorem sameAsFresh_iff_huawei :
    SameAsFresh huaweiMaps huaweiCells (true && bugDevice huawei) huaweiVm.mem
        (next huaweiMaps huaweiCells huawei true huaweiCalls (fresh huaweiVm))
        (next huaweiMaps huaweiCells huawei true huaweiCalls
          (findSymbol huaweiMaps huaweiCells (initEnv huawei {}) true true huaweiCalls
            (fresh huaweiVm))) ↔
      ¬(true = true ∧ bugDevice huawei = true ∧ fopenSlots huaweiMaps huaweiCells ≠ [] ∧
        firstFlag [HookEvent.init true true huaweiCalls] = some false) :=
  sameAsFresh_iff huawei_separate (huawei_undisturbed true) huaweiCalls_succeed rfl true

/-- The first call came without the fix, the second asks for it. -/
theorem retry_leaves_fopen :
    ∃ s, (hooks huaweiMaps huaweiCells huawei).exec [.init true false huaweiCalls]
        (fresh huaweiVm) = some s ∧
      bugDevice huawei = true ∧ fopenSlots huaweiMaps huaweiCells ≠ [] ∧
      ¬SameAsFresh huaweiMaps huaweiCells (true && bugDevice huawei) huaweiVm.mem
        (next huaweiMaps huaweiCells huawei true huaweiCalls (fresh huaweiVm))
        (next huaweiMaps huaweiCells huawei true huaweiCalls s) := by
  refine ⟨_, rfl, by decide +kernel, by simp [huawei_fopenSlots], ?_⟩
  intro h
  have hslot := (h.slots (by decide +kernel) (by simp [huawei_fopenSlots]) 0xb0000104
    (by simp [huawei_fopenSlots])).1
  exact absurd hslot (by decide +kernel)

end Patrons.Xhook
