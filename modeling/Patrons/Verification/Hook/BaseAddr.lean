import Mathlib.Data.List.Find
import Mathlib.Data.List.Induction
import Mathlib.Data.List.Nodup
import Mathlib.Data.List.Pairwise
import Patrons.Model.Symbols
import Patrons.Verification.Hook.FindOnly
import Patrons.Verification.Hook.Refresh

/-! # The base addresses that a refresh reports

A refresh writes the base of every line to the first registration that accepts it, before it
looks for a repeated mapping. Its tree keeps the first mapping of a pathname. -/

namespace Patrons.Xhook

open Bytes

variable {π : Type*}

/-! ## What the maps call for -/

namespace Maps

variable (maps : Maps π) (hooks : List HookInfo)

def accepts (line : MapsLine) : Bool := line.accepted && (maps.image line.baseAddr).headerOk

def firstFor (line : MapsLine) : Option HookInfo :=
  if maps.accepts line then hooks.find? (maps.matchesHook line.pathname) else none

def firstMapping (pathname : String) : Option MapsLine :=
  maps.lines.find? fun line => maps.accepts line && line.pathname == pathname

def lastFor (r : HookInfo) : Option MapsLine :=
  maps.lines.reverse.find? fun line => maps.firstFor hooks line = some r

/-- The regex of `r` accepts a mapping. -/
def Mapped (r : HookInfo) : Prop :=
  ∃ line ∈ maps.lines, maps.accepts line ∧ maps.matchesHook line.pathname r

/-- The first mapping of a pathname that the regex of `r` accepts is at `base`. -/
def RealBase (r : HookInfo) (base : Addr) : Prop :=
  ∃ pathname line, maps.firstMapping pathname = some line ∧ maps.matchesHook pathname r ∧
    line.baseAddr = base

/-- `r` gets bases, and the last is real, or it gets none and holds a real one already. -/
def EndsReal (r : HookInfo) (initial : Addr) : Prop :=
  match maps.lastFor hooks r with
  | some line => maps.RealBase r line.baseAddr
  | none => maps.RealBase r initial

end Maps

/-- The pointer of a registration holds a base that the tree keeps for its regex. -/
def Reports (maps : Maps π) (r : HookInfo) (s : Hooks π) : Prop :=
  ∃ mi ∈ s.core.mapInfo, maps.matchesHook mi.pathname r ∧
    s.vm.mem.loadWord r.baseAddr = mi.baseAddr

/-- The pointers for base addresses are words of their own, and no hook of a mapped library
writes them. -/
structure BaseCells (maps : Maps π) (hooks : List HookInfo) : Prop where
  apart : hooks.Pairwise fun r r' => r.baseAddr ≠ 0 → r'.baseAddr ≠ 0 → Apart r.baseAddr r'.baseAddr
  olds : ∀ r ∈ hooks, r.baseAddr ≠ 0 → ∀ hi ∈ hooks, hi.oldFunc ≠ 0 → Apart hi.oldFunc r.baseAddr
  slots : ∀ r ∈ hooks, r.baseAddr ≠ 0 → ∀ hi ∈ hooks, ∀ line ∈ maps.lines, ∀ elf symidx,
    maps.elfOf line.mapInfo = some elf → (maps.image line.baseAddr).symidx hi.symbol = some symidx →
      ∀ a ∈ (maps.image line.baseAddr).relocs.slots elf symidx, Apart a r.baseAddr

variable {maps : Maps π} {hooks : List HookInfo} {r : HookInfo} {lines : List MapsLine}

/-! ## The tree -/

theorem selects_of_accepts {line : MapsLine} (hr : r ∈ hooks) (h : maps.accepts line = true)
    (hmatches : maps.matchesHook line.pathname r = true) : maps.selects hooks line = true := by
  have hfind : (hooks.find? (maps.matchesHook line.pathname)).isSome = true :=
    List.find?_isSome.mpr ⟨r, hr, hmatches⟩
  simp only [Maps.accepts, Bool.and_eq_true] at h
  simp only [Maps.selects, h, hfind, Bool.and_self]

theorem accepts_of_selects {line : MapsLine} (h : maps.selects hooks line = true) :
    maps.accepts line = true := by
  simp only [Maps.selects, Bool.and_eq_true] at h
  simp only [Maps.accepts, h, Bool.and_self]

/-- The tree keeps the first line selected of a pathname. -/
theorem mem_firsts_iff {seen : List MapInfo} {mi : MapInfo} :
    mi ∈ maps.firsts hooks seen lines ↔
      seen.any (·.pathname == mi.pathname) = false ∧
        (lines.find? fun line => maps.selects hooks line && line.pathname == mi.pathname).map
          (·.mapInfo) = some mi := by
  induction lines generalizing seen with
  | nil => simp [Maps.firsts]
  | cons line lines ih =>
      rw [Maps.firsts, List.find?_cons]
      by_cases heq : line.pathname = mi.pathname
      · rw [heq, beq_self_eq_true, Bool.and_true]
        cases hsel : maps.selects hooks line with
        | false => simpa using ih
        | true =>
            cases hseen : seen.any (·.pathname == mi.pathname) with
            | true => simp [ih, hseen]
            | false =>
                have hrest : mi ∉ maps.firsts hooks (seen ++ [line.mapInfo]) lines := by
                  intro hmi
                  have hnot := Maps.pathname_of_mem_firsts hmi
                  simp [MapsLine.mapInfo, heq] at hnot
                simp [hrest, eq_comm]
      · have hnot : (maps.selects hooks line && line.pathname == mi.pathname) = false := by
          simp [heq]
        have hne : mi ≠ line.mapInfo := fun h => heq (congrArg MapInfo.pathname h).symm
        have hany : (seen ++ [line.mapInfo]).any (·.pathname == mi.pathname) =
            seen.any (·.pathname == mi.pathname) := by
          simp [MapsLine.mapInfo, heq]
        rw [hnot]
        split
        · rw [List.mem_cons, ih, hany, or_iff_right hne]
        · exact ih

/-! ## What a line writes -/

section Cell

variable (h : BaseCells maps hooks) (hr : r ∈ hooks) (hne : r.baseAddr ≠ 0)

include h hr hne

theorem eqOn_hookSymbol {line : MapsLine} {hi : HookInfo} {elf : Elf} (hline : line ∈ maps.lines)
    (hhi : hi ∈ hooks) (helf : maps.elfOf line.mapInfo = some elf) (vm : Vm π) :
    Set.EqOn (maps.hookSymbol line.mapInfo elf hi vm).mem vm.mem (word r.baseAddr) := by
  unfold Maps.hookSymbol
  split
  · exact Set.eqOn_refl _ _
  · rename_i symidx hsym
    apply Relocs.eqOn_hook
    · intro a ha
      exact (h.slots r hr hne hi hhi line hline elf symidx helf hsym a ha).disjoint
    · intro hold
      exact (h.olds r hr hne hi hhi hold).disjoint

theorem load_xhCoreHook {line : MapsLine} (hline : line ∈ maps.lines) (vm : Vm π) :
    (maps.xhCoreHook hooks line.mapInfo vm).mem.loadWord r.baseAddr =
      vm.mem.loadWord r.baseAddr := by
  apply load_congr
  rw [Maps.xhCoreHook]
  cases helf : maps.elfOf line.mapInfo with
  | none => exact Set.eqOn_refl _ _
  | some elf =>
      apply List.foldlRecOn (motive := fun t : Vm π => Set.EqOn t.mem vm.mem (word r.baseAddr))
      · exact Set.eqOn_refl _ _
      · intro t ht hi hhi
        exact (eqOn_hookSymbol h hr hne hline (List.mem_filter.mp hhi).1 helf t).trans ht

theorem load_writeBase {hi : HookInfo} (hhi : hi ∈ hooks) (base : Addr) (vm : Vm π) :
    (Maps.writeBase hi base vm).mem.loadWord r.baseAddr =
      if hi = r then base else vm.mem.loadWord r.baseAddr := by
  unfold Maps.writeBase
  by_cases heq : hi = r
  · subst heq
    rw [if_pos hne, if_pos rfl]
    exact load_store_self _ _ _
  · rw [if_neg heq]
    split
    · rename_i hbase
      have hsymm : Std.Symm fun r r' : HookInfo =>
          r.baseAddr ≠ 0 → r'.baseAddr ≠ 0 → Apart r.baseAddr r'.baseAddr :=
        ⟨fun _ _ hab h₁ h₂ => (hab h₂ h₁).symm⟩
      exact load_store_of_apart (h.apart.forall hhi hr heq hbase hne)
    · rfl

/-- One line: only the registration found for it gets its base. -/
theorem load_scanLine (halloc : maps.Allocates) {line : MapsLine} (hline : line ∈ maps.lines)
    (scan : Maps.Scan π) :
    (maps.scanLine hooks scan line).vm.mem.loadWord r.baseAddr =
      if maps.firstFor hooks line = some r then line.baseAddr
      else scan.vm.mem.loadWord r.baseAddr := by
  cases hsel : maps.selects hooks line with
  | false =>
      have hnone : maps.firstFor hooks line = none := by
        unfold Maps.firstFor
        split
        · rename_i haccepts
          refine List.find?_eq_none.mpr fun hi hhi hmatches => ?_
          rw [selects_of_accepts hhi haccepts hmatches] at hsel
          exact absurd hsel (by simp)
        · rfl
      rw [Maps.scanLine_of_not_selects hsel, hnone, if_neg (by simp)]
  | true =>
      obtain ⟨hi, hfind⟩ := Maps.exists_find_of_selects hsel
      have hfirst : maps.firstFor hooks line = some hi := by
        rw [Maps.firstFor, if_pos (accepts_of_selects hsel), hfind]
      have hwrite := load_writeBase h hr hne (List.mem_of_find?_eq_some hfind) line.baseAddr scan.vm
      have hhook : (maps.xhCoreHook hooks line.mapInfo
          (Maps.writeBase hi line.baseAddr scan.vm)).mem.loadWord r.baseAddr = _ :=
        (load_xhCoreHook h hr hne hline _).trans hwrite
      simp only [Maps.scanLine_of_find halloc hsel hfind, hfirst, Option.some.injEq]
      split <;> split
      · exact hwrite
      · simp only
        split
        · exact hhook
        · exact hwrite
      · exact hwrite
      · exact hhook

/-- The pointer holds the base of the last line that goes to `r`. -/
theorem load_foldl_scanLine (halloc : maps.Allocates) (hsub : lines ⊆ maps.lines)
    (scan : Maps.Scan π) :
    (lines.foldl (maps.scanLine hooks) scan).vm.mem.loadWord r.baseAddr =
      match lines.reverse.find? fun line => maps.firstFor hooks line = some r with
      | some line => line.baseAddr
      | none => scan.vm.mem.loadWord r.baseAddr := by
  induction lines using List.reverseRecOn with
  | nil => rfl
  | append_singleton lines line ih =>
      obtain ⟨hsub, hline⟩ := List.append_subset.mp hsub
      rw [List.foldl_append, List.foldl_cons, List.foldl_nil,
        load_scanLine h hr hne halloc (hline (by simp)), ih hsub, List.reverse_concat,
        List.find?_cons]
      by_cases hfirst : maps.firstFor hooks line = some r <;> simp [hfirst]

end Cell

/-! ## The first refresh -/

def registered (hooks : List HookInfo) (vm : Vm π) : Hooks π :=
  hooks.foldl (fun s hi => register {} hi s) (fresh vm)

/-- The process has refreshed for the first time, at once or in the refresh thread. -/
inductive FirstRefresh (maps : Maps π) (hooks : List HookInfo) (vm : Vm π) : Hooks π → Prop
  | sync (created : Bool) :
      FirstRefresh maps hooks vm (xhCoreRefresh maps false true true created (registered hooks vm))
  | async (opened : Bool) :
      FirstRefresh maps hooks vm
        (xhCoreRefreshThread maps true
          (xhCoreRefresh maps true true opened true (registered hooks vm)))

/-- Every registration whose regex accepts a mapping is told a real base. -/
def BasesReported (maps : Maps π) (hooks : List HookInfo) (s : Hooks π) : Prop :=
  ∀ r ∈ hooks, r.baseAddr ≠ 0 → maps.Mapped r → Reports maps r s

theorem foldl_register (vm : Vm π) (hooks before : List HookInfo) :
    hooks.foldl (fun s hi => register {} hi s) (⟨{ hookInfo := before }, vm⟩ : Hooks π) =
      ⟨{ hookInfo := before ++ hooks }, vm⟩ := by
  induction hooks generalizing before with
  | nil => simp
  | cons hi hooks ih =>
      have hregister : register {} hi (⟨{ hookInfo := before }, vm⟩ : Hooks π) =
          ⟨{ hookInfo := before ++ [hi] }, vm⟩ := rfl
      rw [List.foldl_cons, hregister, ih, List.append_assoc]
      rfl

theorem registered_eq (vm : Vm π) : registered hooks vm = ⟨{ hookInfo := hooks }, vm⟩ :=
  foldl_register vm hooks []

theorem FirstRefresh.eq (halloc : maps.Allocates) {vm : Vm π} {s : Hooks π}
    (hs : FirstRefresh maps hooks vm s) :
    s.core.mapInfo = maps.loaded hooks ∧
      s.vm = (maps.lines.foldl (maps.scanLine hooks) ⟨[], [], vm⟩).vm := by
  have hrefreshed : (maps.lines.foldl (maps.scanLine hooks) ⟨[], [], vm⟩).refreshed =
      maps.loaded hooks := by
    obtain ⟨vm', htree⟩ : ∃ vm', _ = _ := Maps.foldl_scanLine_refreshed halloc maps.lines [] vm
    rw [htree]
    rfl
  cases hs with
  | sync created =>
      rw [registered_eq]
      exact ⟨hrefreshed, rfl⟩
  | async opened =>
      rw [registered_eq]
      exact ⟨hrefreshed, rfl⟩

theorem of_firstMapping {pathname : String} {line : MapsLine}
    (h : maps.firstMapping pathname = some line) :
    maps.accepts line = true ∧ line.pathname = pathname := by
  unfold Maps.firstMapping at h
  simpa using List.find?_some h

theorem firstMapping_eq (hr : r ∈ hooks) {pathname : String}
    (hmatches : maps.matchesHook pathname r = true) :
    maps.firstMapping pathname =
      maps.lines.find? fun line => maps.selects hooks line && line.pathname == pathname := by
  refine List.find?_congr fun line _ => ?_
  by_cases heq : line.pathname = pathname
  · have hiff : maps.accepts line = true ↔ maps.selects hooks line = true :=
      ⟨fun haccepts => selects_of_accepts hr haccepts (heq ▸ hmatches), accepts_of_selects⟩
    rw [Bool.eq_iff_iff.mpr hiff]
  · rw [beq_false_of_ne heq, Bool.and_false, Bool.and_false]

/-- The tree keeps the real bases. -/
theorem realBase_iff (hr : r ∈ hooks) {base : Addr} :
    maps.RealBase r base ↔
      ∃ mi ∈ maps.loaded hooks, maps.matchesHook mi.pathname r ∧ base = mi.baseAddr := by
  constructor
  · rintro ⟨pathname, line, hfirst, hmatches, rfl⟩
    obtain rfl := (of_firstMapping hfirst).2
    rw [firstMapping_eq hr hmatches] at hfirst
    refine ⟨line.mapInfo, mem_firsts_iff.mpr ⟨rfl, ?_⟩, hmatches, rfl⟩
    exact Option.map_eq_some_iff.mpr ⟨line, hfirst, rfl⟩
  · rintro ⟨mi, hmi, hmatches, rfl⟩
    obtain ⟨line, hfirst, rfl⟩ := Option.map_eq_some_iff.mp (mem_firsts_iff.mp hmi).2
    exact ⟨line.pathname, line, (firstMapping_eq hr hmatches).trans hfirst, hmatches, rfl⟩

theorem reports_iff_endsReal (h : BaseCells maps hooks) (halloc : maps.Allocates) (hr : r ∈ hooks)
    (hne : r.baseAddr ≠ 0) {vm : Vm π} {s : Hooks π} (hs : FirstRefresh maps hooks vm s) :
    Reports maps r s ↔ maps.EndsReal hooks r (vm.mem.loadWord r.baseAddr) := by
  obtain ⟨htree, hvm⟩ := hs.eq halloc
  have hload := load_foldl_scanLine h hr hne halloc (List.Subset.refl maps.lines) ⟨[], [], vm⟩
  have hreal : Reports maps r s ↔ maps.RealBase r (s.vm.mem.loadWord r.baseAddr) := by
    rw [realBase_iff hr, Reports, htree]
  rw [hreal, hvm, hload, Maps.EndsReal, Maps.lastFor]
  split <;> rfl

/-- The registrations are told real bases exactly when the last line for each is one. -/
theorem basesReported_iff (h : BaseCells maps hooks) (halloc : maps.Allocates) {vm : Vm π}
    {s : Hooks π} (hs : FirstRefresh maps hooks vm s) :
    BasesReported maps hooks s ↔ ∀ r ∈ hooks, r.baseAddr ≠ 0 → maps.Mapped r →
      maps.EndsReal hooks r (vm.mem.loadWord r.baseAddr) := by
  refine forall₄_congr fun r hr hne _ => ?_
  exact reports_iff_endsReal h halloc hr hne hs

/-- One mapping of each pathname, and a line for each registration. -/
theorem basesReported_of_nodup (h : BaseCells maps hooks) (halloc : maps.Allocates) {vm : Vm π}
    {s : Hooks π} (hs : FirstRefresh maps hooks vm s)
    (hnodup : ((maps.lines.filter maps.accepts).map (·.pathname)).Nodup)
    (hfirst : ∀ r ∈ hooks, maps.Mapped r → ∃ line ∈ maps.lines, maps.firstFor hooks line = some r) :
    BasesReported maps hooks s := by
  intro r hr hne hmapped
  rw [reports_iff_endsReal h halloc hr hne hs]
  have hsome : (maps.lastFor hooks r).isSome = true := by
    obtain ⟨line, hline, hgoes⟩ := hfirst r hr hmapped
    exact List.find?_isSome.mpr ⟨line, List.mem_reverse.mpr hline, by simpa using hgoes⟩
  obtain ⟨line, hlast⟩ := Option.isSome_iff_exists.mp hsome
  have hline : line ∈ maps.lines := List.mem_reverse.mp (List.mem_of_find?_eq_some hlast)
  have hgoes : maps.firstFor hooks line = some r := by simpa using List.find?_some hlast
  obtain ⟨haccepts, hfind⟩ := Option.ite_none_right_eq_some.mp hgoes
  simp only [Maps.EndsReal, hlast]
  refine ⟨line.pathname, line, ?_, List.find?_some hfind, rfl⟩
  obtain ⟨l, hl⟩ : ∃ l, maps.firstMapping line.pathname = some l := by
    refine Option.isSome_iff_exists.mp (List.find?_isSome.mpr ⟨line, hline, ?_⟩)
    rw [haccepts, beq_self_eq_true]
    rfl
  obtain ⟨hl', hsame⟩ := of_firstMapping hl
  have hmem : l ∈ maps.lines.filter maps.accepts :=
    List.mem_filter.mpr ⟨List.mem_of_find?_eq_some hl, hl'⟩
  have hmem' : line ∈ maps.lines.filter maps.accepts := List.mem_filter.mpr ⟨hline, haccepts⟩
  rw [hl, List.inj_on_of_nodup_map hnodup hmem hmem' hsame]

/-! ### Registrations that share a library -/

/-- Each library imports `fopen`. -/
def fopenMaps (lines : List MapsLine) : Maps SizeT where
  lines := lines
  image base :=
    { headerOk := true
      elf := some { libf with baseAddr := base, biasAddr := base }
      symidx := fun symbol => if symbol = "fopen" then some 1 else none
      relocs := ⟨[⟨0x100, 0x116⟩], [], []⟩ }
  regexec regex pathname := (regex.toList.drop 2).dropLast.isSuffixOf pathname.toList
  pages := simplePages

def dlFopen : HookInfo := ⟨".*/libdl.so$", "fopen", 0x60000000, 0x70000000, 0x70000010⟩

def artFopen : HookInfo := ⟨".*/libart.so$", "fopen", 0x60000000, 0x70000004, 0x70000014⟩

def artStub : HookInfo := ⟨".*/libart.so$", "_ZN3art10GetCmdLineEv", 0, 0x70000008, 0x70000018⟩

def twoLibraries : Maps SizeT := fopenMaps [
  ⟨0xa0000000, "r--p", 0, "/system/lib/libdl.so"⟩, ⟨0xb0000000, "r--p", 0, "/system/lib/libart.so"⟩]

def libartTwice : Maps SizeT := fopenMaps [
  ⟨0xb0000000, "r--p", 0, "/system/lib/libart.so"⟩,
  ⟨0xc0000000, "r--p", 0, "/system/lib/libart.so"⟩]

theorem fopenMaps_cells {lines : List MapsLine} {hooks : List HookInfo}
    (hpointers : (hooks.map (·.baseAddr)).Pairwise Apart)
    (holds : ∀ r ∈ hooks, ∀ hi ∈ hooks, Apart hi.oldFunc r.baseAddr)
    (hslots : ∀ r ∈ hooks, ∀ base ∈ lines.map (·.baseAddr), Apart (base + 0x100) r.baseAddr) :
    BaseCells (fopenMaps lines) hooks where
  apart := (List.pairwise_map.mp hpointers).imp fun happart _ _ => happart
  olds r hr _ hi hhi _ := holds r hr hi hhi
  slots r hr _ hi _ line hline elf symidx helf hsym a ha := by
    obtain rfl := Option.some.inj helf
    obtain ⟨-, rfl⟩ : _ ∧ 1 = symidx := by simpa [fopenMaps] using hsym
    obtain rfl : a = line.baseAddr + 0x100 := List.mem_singleton.mp ha
    exact hslots r hr _ (List.mem_map_of_mem hline)

theorem twoLibraries_cells : BaseCells twoLibraries [dlFopen, artFopen] :=
  fopenMaps_cells (by decide) (by decide) (by simp [dlFopen, artFopen, Apart])

theorem libartTwice_cells : BaseCells libartTwice [artFopen, artStub] :=
  fopenMaps_cells (by decide) (by decide) (by simp [artFopen, artStub, Apart])

/-- The first registration is told the second mapping, and the other one nothing. -/
theorem libartTwice_not_reported :
    ∃ s, BaseCells libartTwice [artFopen, artStub] ∧
      FirstRefresh libartTwice [artFopen, artStub] ⟨memoryOf [], 1⟩ s ∧
      s.core.mapInfo = [⟨"/system/lib/libart.so", 0xb0000000⟩] ∧
      s.vm.mem.loadWord artFopen.baseAddr = 0xc0000000 ∧
      s.vm.mem.loadWord artStub.baseAddr = 0 ∧
      ¬BasesReported libartTwice [artFopen, artStub] s := by
  have htree : (xhCoreRefresh libartTwice false true true true
      (registered [artFopen, artStub] ⟨memoryOf [], 1⟩)).core.mapInfo =
        [⟨"/system/lib/libart.so", 0xb0000000⟩] := by
    decide +kernel
  have hload : (xhCoreRefresh libartTwice false true true true
      (registered [artFopen, artStub] ⟨memoryOf [], 1⟩)).vm.mem.loadWord artFopen.baseAddr =
        0xc0000000 := by
    decide +kernel
  refine ⟨_, libartTwice_cells, .sync true, htree, hload, by decide +kernel, ?_⟩
  intro h
  have hmapped : libartTwice.Mapped artFopen := ⟨_, List.mem_cons_self, by decide +kernel⟩
  obtain ⟨mi, hmi, -, hbase⟩ := h artFopen (by simp) (by decide) hmapped
  rw [htree, List.mem_singleton] at hmi
  rw [hload, hmi] at hbase
  exact absurd hbase (by decide)

theorem twoLibraries_reported {vm : Vm SizeT} {s : Hooks SizeT}
    (hs : FirstRefresh twoLibraries [dlFopen, artFopen] vm s) :
    BasesReported twoLibraries [dlFopen, artFopen] s := by
  have hlines : ∀ r ∈ [dlFopen, artFopen], ∃ line ∈ twoLibraries.lines,
      twoLibraries.firstFor [dlFopen, artFopen] line = some r := by
    decide +kernel
  exact basesReported_of_nodup twoLibraries_cells (fun _ => rfl) hs (by decide +kernel)
    fun r hr _ => hlines r hr

theorem endsReal_twoLibraries :
    twoLibraries.EndsReal [dlFopen, artFopen] dlFopen
        (loadWord (memoryOf []) dlFopen.baseAddr) ∧
      twoLibraries.EndsReal [dlFopen, artFopen] artFopen
        (loadWord (memoryOf []) artFopen.baseAddr) := by
  have hs : FirstRefresh twoLibraries [dlFopen, artFopen] ⟨memoryOf [], 1⟩ _ := .sync true
  have hends := (basesReported_iff twoLibraries_cells (fun _ => rfl) hs).mp
    (twoLibraries_reported hs)
  have hdl : twoLibraries.Mapped dlFopen := ⟨_, List.mem_cons_self, by decide +kernel⟩
  have hart : twoLibraries.Mapped artFopen :=
    ⟨_, List.mem_cons_of_mem _ List.mem_cons_self, by decide +kernel⟩
  exact ⟨hends dlFopen (by simp) (by decide) hdl, hends artFopen (by simp) (by decide) hart⟩

end Patrons.Xhook
