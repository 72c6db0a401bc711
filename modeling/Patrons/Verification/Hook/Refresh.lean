import Patrons.Model.Core

/-! # Refreshes of the hooks

The first refresh hooks the first mapping of each pathname that a registered regex accepts.
A later refresh of the same maps finds all of them in its tree and changes nothing. There is
memory for every map info. -/

namespace Patrons.Xhook

variable {π : Type*} (maps : Maps π) (hooks : List HookInfo)

namespace Maps

def Allocates : Prop := ∀ line, maps.allocates line = true

def selects (line : MapsLine) : Bool :=
  line.accepted && (hooks.find? (maps.matchesHook line.pathname)).isSome &&
    (maps.image line.baseAddr).headerOk

/-- The map infos of the lines selected, without the pathnames already seen. -/
def firsts (seen : List MapInfo) : List MapsLine → List MapInfo
  | [] => []
  | line :: lines =>
    if maps.selects hooks line && !seen.any (·.pathname == line.pathname) then
      line.mapInfo :: firsts (seen ++ [line.mapInfo]) lines
    else firsts seen lines

def loaded : List MapInfo := maps.firsts hooks [] maps.lines

def hookAll (infos : List MapInfo) (vm : Vm π) : Vm π :=
  infos.foldl (fun vm mi => maps.xhCoreHook hooks mi vm) vm

variable {maps hooks}

theorem pathname_of_mem_firsts {lines : List MapsLine} {seen : List MapInfo} {mi : MapInfo}
    (h : mi ∈ maps.firsts hooks seen lines) : seen.any (·.pathname == mi.pathname) = false := by
  induction lines generalizing seen with
  | nil => simp [firsts] at h
  | cons line lines ih =>
      rw [firsts] at h
      split at h
      · rename_i hline
        rcases List.mem_cons.mp h with rfl | h
        · simpa [MapsLine.mapInfo] using (Bool.and_eq_true_iff.mp hline).2
        · have hseen := ih h
          rw [List.any_append, Bool.or_eq_false_iff] at hseen
          exact hseen.1
      · exact ih h

theorem scanLine_of_not_selects {line : MapsLine} (h : maps.selects hooks line = false)
    (scan : Scan π) : maps.scanLine hooks scan line = scan := by
  unfold scanLine
  split
  · rfl
  · rename_i hnot
    have haccepted : line.accepted = true := by simpa using hnot
    cases hfind : hooks.find? (maps.matchesHook line.pathname) with
    | none => rfl
    | some hi =>
        have hheader : (maps.image line.baseAddr).headerOk = false := by
          simpa [selects, hfind, haccepted] using h
        simp [hheader]

theorem exists_find_of_selects {line : MapsLine} (h : maps.selects hooks line = true) :
    ∃ hi, hooks.find? (maps.matchesHook line.pathname) = some hi := by
  simp only [selects, Bool.and_eq_true] at h
  exact Option.isSome_iff_exists.mp h.1.2

/-- A line selected: its base is written first. -/
theorem scanLine_of_find (halloc : maps.Allocates) {line : MapsLine} {hi : HookInfo}
    (h : maps.selects hooks line = true)
    (hfind : hooks.find? (maps.matchesHook line.pathname) = some hi) (scan : Scan π) :
    maps.scanLine hooks scan line =
      match scan.old.find? (·.pathname == line.pathname) with
      | some mi =>
        let old := scan.old.eraseP (·.pathname == line.pathname)
        let vm := writeBase hi line.baseAddr scan.vm
        if scan.refreshed.any (·.pathname == line.pathname) then
          { scan with old := old, vm := vm }
        else
          { old := old
            refreshed := scan.refreshed ++ [line.mapInfo]
            vm := if mi.baseAddr ≠ line.baseAddr then maps.xhCoreHook hooks line.mapInfo vm
              else vm }
      | none =>
        let vm := writeBase hi line.baseAddr scan.vm
        if scan.refreshed.any (·.pathname == line.pathname) then { scan with vm := vm }
        else
          { scan with
            refreshed := scan.refreshed ++ [line.mapInfo]
            vm := maps.xhCoreHook hooks line.mapInfo vm } := by
  obtain ⟨⟨haccepted, -⟩, hheader⟩ : (line.accepted = true ∧
      (hooks.find? (maps.matchesHook line.pathname)).isSome = true) ∧
      (maps.image line.baseAddr).headerOk = true := by
    simpa [selects, Bool.and_eq_true] using h
  cases hold : scan.old.find? (·.pathname == line.pathname) <;>
    simp only [scanLine, haccepted, hfind, hheader, hold, halloc line, Bool.not_true,
      Bool.false_eq_true, ↓reduceIte]

/-- A line selected, for registrations that do not ask for the base address. -/
theorem scanLine_of_selects (halloc : maps.Allocates) (hbase : ∀ hi ∈ hooks, hi.baseAddr = 0)
    {line : MapsLine} (h : maps.selects hooks line = true) (scan : Scan π) :
    maps.scanLine hooks scan line =
      match scan.old.find? (·.pathname == line.pathname) with
      | some mi =>
        let old := scan.old.eraseP (·.pathname == line.pathname)
        if scan.refreshed.any (·.pathname == line.pathname) then { scan with old := old }
        else
          { old := old
            refreshed := scan.refreshed ++ [line.mapInfo]
            vm := if mi.baseAddr ≠ line.baseAddr then
                maps.xhCoreHook hooks line.mapInfo scan.vm
              else scan.vm }
      | none =>
        if scan.refreshed.any (·.pathname == line.pathname) then scan
        else
          { scan with
            refreshed := scan.refreshed ++ [line.mapInfo]
            vm := maps.xhCoreHook hooks line.mapInfo scan.vm } := by
  obtain ⟨hi, hfind⟩ := exists_find_of_selects h
  have hwrite : writeBase hi line.baseAddr scan.vm = scan.vm := by
    simp [writeBase, hbase hi (List.mem_of_find?_eq_some hfind)]
  rw [scanLine_of_find halloc h hfind, hwrite]

/-- The tree that a refresh builds from an empty one, whatever it writes. -/
theorem foldl_scanLine_refreshed (halloc : maps.Allocates) (lines : List MapsLine)
    (seen : List MapInfo) (vm : Vm π) :
    ∃ vm', lines.foldl (maps.scanLine hooks) ⟨[], seen, vm⟩ =
      ⟨[], seen ++ maps.firsts hooks seen lines, vm'⟩ := by
  induction lines generalizing seen vm with
  | nil => exact ⟨vm, by simp [firsts]⟩
  | cons line lines ih =>
      rw [List.foldl_cons, firsts]
      cases hsel : maps.selects hooks line with
      | false =>
          rw [scanLine_of_not_selects hsel]
          simpa using ih seen vm
      | true =>
          obtain ⟨hi, hfind⟩ := exists_find_of_selects hsel
          rw [scanLine_of_find halloc hsel hfind]
          cases hseen : seen.any (·.pathname == line.pathname) with
          | true => simpa [hseen] using ih seen (writeBase hi line.baseAddr vm)
          | false =>
              simpa [hseen] using ih (seen ++ [line.mapInfo])
                (maps.xhCoreHook hooks line.mapInfo (writeBase hi line.baseAddr vm))

theorem foldl_scanLine_empty (halloc : maps.Allocates) (hbase : ∀ hi ∈ hooks, hi.baseAddr = 0)
    (lines : List MapsLine) (seen : List MapInfo) (vm : Vm π) :
    lines.foldl (maps.scanLine hooks) ⟨[], seen, vm⟩ =
      ⟨[], seen ++ maps.firsts hooks seen lines,
        maps.hookAll hooks (maps.firsts hooks seen lines) vm⟩ := by
  induction lines generalizing seen vm with
  | nil => simp [firsts, hookAll]
  | cons line lines ih =>
      rw [List.foldl_cons, firsts]
      cases hsel : maps.selects hooks line with
      | false =>
          rw [scanLine_of_not_selects hsel, ih]
          simp
      | true =>
          rw [scanLine_of_selects halloc hbase hsel]
          cases hseen : seen.any (·.pathname == line.pathname) with
          | true => simp [ih]
          | false => simp [ih, hookAll]

/-- The tree holds what the rest of the maps leads to, and no line hooks again. -/
theorem foldl_scanLine_again (halloc : maps.Allocates) (hbase : ∀ hi ∈ hooks, hi.baseAddr = 0)
    (lines : List MapsLine) (seen : List MapInfo) (vm : Vm π) :
    lines.foldl (maps.scanLine hooks) ⟨maps.firsts hooks seen lines, seen, vm⟩ =
      ⟨[], seen ++ maps.firsts hooks seen lines, vm⟩ := by
  induction lines generalizing seen with
  | nil => simp [firsts]
  | cons line lines ih =>
      rw [List.foldl_cons, firsts]
      cases hsel : maps.selects hooks line with
      | false =>
          rw [scanLine_of_not_selects hsel]
          simpa using ih seen
      | true =>
          rw [scanLine_of_selects halloc hbase hsel]
          cases hseen : seen.any (·.pathname == line.pathname) with
          | true =>
              have hnone : (maps.firsts hooks seen lines).find?
                  (·.pathname == line.pathname) = none := by
                rw [List.find?_eq_none]
                intro mi hmi heq
                have hnot := pathname_of_mem_firsts hmi
                rw [beq_iff_eq] at heq
                rw [heq, hseen] at hnot
                exact absurd hnot (by simp)
              simp [hnone, ih]
          | false =>
              have hnext := ih (seen ++ [line.mapInfo])
              simp only [List.append_assoc, List.singleton_append] at hnext
              simpa [hseen, MapsLine.mapInfo] using hnext

end Maps

/-! ## Whole refreshes -/

variable {maps hooks}

theorem xhCoreRefreshImpl_first (halloc : maps.Allocates) {s : Hooks π}
    (hbase : ∀ hi ∈ s.core.hookInfo, hi.baseAddr = 0) (hempty : s.core.mapInfo = []) :
    xhCoreRefreshImpl maps true s =
      { core := { s.core with mapInfo := maps.loaded s.core.hookInfo }
        vm := maps.hookAll s.core.hookInfo (maps.loaded s.core.hookInfo) s.vm } := by
  have hscan : maps.lines.foldl (maps.scanLine s.core.hookInfo) ⟨[], [], s.vm⟩ = _ :=
    Maps.foldl_scanLine_empty halloc hbase maps.lines [] s.vm
  simp only [xhCoreRefreshImpl, hempty, hscan]
  rfl

theorem xhCoreRefreshImpl_again (halloc : maps.Allocates) {s : Hooks π}
    (hbase : ∀ hi ∈ s.core.hookInfo, hi.baseAddr = 0)
    (hloaded : s.core.mapInfo = maps.loaded s.core.hookInfo) :
    xhCoreRefreshImpl maps true s = s := by
  have hscan : maps.lines.foldl (maps.scanLine s.core.hookInfo)
      ⟨maps.firsts s.core.hookInfo [] maps.lines, [], s.vm⟩ = _ :=
    Maps.foldl_scanLine_again halloc hbase maps.lines [] s.vm
  simp only [xhCoreRefreshImpl, hloaded, Maps.loaded, hscan]
  rw [List.nil_append, ← Maps.loaded, ← hloaded]
  rfl

end Patrons.Xhook
