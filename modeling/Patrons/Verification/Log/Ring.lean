import Patrons.Model.Log

/-! # The log buffer as a ring

The writer reduces the cursor modulo 128 and the reader does not, so what `dumpLogs`
returns depends on how far the cursor has counted. -/

namespace Patrons

def lastLines (lines : List LogLine) : List LogLine := lines.drop (lines.length - 128)

def textOf (vsprintf : LogLine → String) (lines : List LogLine) : String :=
  if lines = [] then LogRing.emptyText else LogRing.dumpText vsprintf lines

/-- A call stays inside `dump_logs`, and a dump returns the last lines since the last
clean. -/
structure Faithful (vsprintf : LogLine → String) (s : LogRun) (c : LogCall) (_ : LogRun) :
    Prop where
  inside : ∀ i ∈ c.indices s.ring, i < 128
  lines : ∀ clean, c = .dumpLogs clean →
    s.ring.linesUpTo s.ring.dumpCursor.toNat = some (lastLines s.since)
  text : ∀ clean, c = .dumpLogs clean →
    (dumpLogs vsprintf clean s.ring).map Prod.fst = some (textOf vsprintf (lastLines s.since))

/-- A dump finds at most 128 lines since the last clean, or the cursor at 128 again. -/
def Readable (s : LogRun) (c : LogCall) (_ : LogRun) : Prop :=
  match c with
  | .dumpLogs _ => s.since.length ≤ 128 ∨ s.since.length % 256 = 128
  | _ => True

instance (s : LogRun) : ∀ (c : LogCall) (t : LogRun), Decidable (Readable s c t)
  | .logDump _, _ => isTrue trivial
  | .cleanLogBuffer, _ => isTrue trivial
  | .dumpLogs _, _ => inferInstanceAs (Decidable (_ ∨ _))

/-- The cursor counts the lines modulo 256, and each of the last 128 lines is in its slot. -/
structure Tracks (s : LogRun) : Prop where
  cursor : s.ring.dumpCursor.toNat = s.since.length % 256
  slots : ∀ i (h : i < s.since.length), s.since.length ≤ i + 128 →
    s.ring.slot (i % 128) = some (some (s.since.get ⟨i, h⟩))

variable {s t : LogRun} {vsprintf : LogLine → String}

/-! ## Writing -/

theorem tracks_empty (r : LogRing) (h : r.dumpCursor = 0) : Tracks ⟨r, []⟩ := by
  constructor
  · rw [h]
    rfl
  · intro i hi
    exact absurd hi (Nat.not_lt_zero i)

theorem slot_logDump (r : LogRing) (line : LogLine) {i : ℕ} (hi : i < 128) :
    (r.logDump line).slot i =
      if i = r.dumpCursor.toNat % 128 then some (some line) else r.slot i := by
  simp only [LogRing.slot, LogRing.logDump, hi, dif_pos]
  split <;> rfl

theorem tracks_logDump (h : Tracks s) (line : LogLine) :
    Tracks ⟨s.ring.logDump line, s.since ++ [line]⟩ := by
  have hcursor := h.cursor
  constructor
  · have hnext : (s.ring.logDump line).dumpCursor.toNat = (s.ring.dumpCursor.toNat + 1) % 256 :=
      BitVec.toNat_add _ _
    rw [hnext, List.length_append, List.length_singleton]
    omega
  · intro i hi hlast
    simp only [List.length_append, List.length_singleton] at hi hlast
    rw [slot_logDump _ _ (Nat.mod_lt i (by omega))]
    by_cases hnew : i = s.since.length
    · rw [if_pos (by omega)]
      simp [hnew]
    · rw [if_neg (by omega), h.slots i (by omega) (by omega)]
      simp [List.getElem_append_left (show i < s.since.length by omega)]

/-! ## Reading -/

/-- Where the slots from 0 on hold the lines from `k` on, the loop joins these lines. -/
theorem linesUpTo_eq {r : LogRing} {l : List LogLine} {k : ℕ} (n : ℕ)
    (h : ∀ i, i < n → ∃ hi : k + i < l.length, r.slot i = some (some (l.get ⟨k + i, hi⟩))) :
    r.linesUpTo n = some ((l.drop k).take n) := by
  induction n with
  | zero => simp [LogRing.linesUpTo]
  | succ n ih =>
      rcases h n (Nat.lt_succ_self n) with ⟨hlt, hslot⟩
      have hrest := ih fun i hi => h i (Nat.lt_succ_of_lt hi)
      have hlen : n < (l.drop k).length := by
        rw [List.length_drop]
        omega
      rw [LogRing.linesUpTo, hrest, hslot, List.take_succ_eq_append_getElem hlen, List.getElem_drop]
      rfl

theorem length_linesUpTo {r : LogRing} {lines : List LogLine} {n : ℕ}
    (h : r.linesUpTo n = some lines) : lines.length ≤ n := by
  induction n generalizing lines with
  | zero =>
      rw [← Option.some.inj h]
      exact Nat.le_refl 0
  | succ n ih =>
      simp only [LogRing.linesUpTo, Option.bind_eq_bind, Option.bind_eq_some_iff] at h
      rcases h with ⟨before, hbefore, line, -, hlines⟩
      rw [← Option.some.inj hlines, List.length_append]
      have hone : line.toList.length ≤ 1 := by cases line <;> simp
      have hle := ih hbefore
      omega

theorem linesUpTo_beyond (r : LogRing) {n : ℕ} (h : 128 < n) : r.linesUpTo n = none := by
  induction n with
  | zero => exact absurd h (by omega)
  | succ n ih =>
      rw [LogRing.linesUpTo]
      by_cases hn : 128 < n
      · rw [ih hn]
        rfl
      · have hslot : r.slot n = none := dif_neg (by omega)
        cases r.linesUpTo n with
        | none => rfl
        | some lines =>
            rw [hslot]
            rfl

theorem linesUpTo_of_readable (h : Tracks s)
    (hr : s.since.length ≤ 128 ∨ s.since.length % 256 = 128) :
    s.ring.linesUpTo s.ring.dumpCursor.toNat = some (lastLines s.since) := by
  have hcursor := h.cursor
  have hlines := linesUpTo_eq (r := s.ring) (l := s.since) (k := s.since.length - 128)
    s.ring.dumpCursor.toNat
  rw [hlines]
  · rw [lastLines, List.take_of_length_le]
    rw [List.length_drop]
    omega
  · intro i hi
    have hlt : s.since.length - 128 + i < s.since.length := by omega
    refine ⟨hlt, ?_⟩
    have hslot := h.slots _ hlt (by omega)
    rwa [show (s.since.length - 128 + i) % 128 = i by omega] at hslot

theorem readable_of_linesUpTo (h : Tracks s)
    (hlines : s.ring.linesUpTo s.ring.dumpCursor.toNat = some (lastLines s.since)) :
    s.since.length ≤ 128 ∨ s.since.length % 256 = 128 := by
  have hcursor := h.cursor
  have hle := length_linesUpTo hlines
  rw [lastLines, List.length_drop] at hle
  by_contra hcon
  have hbeyond : 128 < s.ring.dumpCursor.toNat := by omega
  rw [linesUpTo_beyond _ hbeyond] at hlines
  exact absurd hlines (by simp)

/-! ## A call -/

theorem lastLines_eq_nil {lines : List LogLine} : lastLines lines = [] ↔ lines = [] := by
  rw [lastLines, List.drop_eq_nil_iff]
  constructor
  · intro h
    apply List.eq_nil_of_length_eq_zero
    omega
  · intro h
    rw [h]
    simp

theorem text_of_lines (h : Tracks s) (clean : Bool)
    (hlines : s.ring.linesUpTo s.ring.dumpCursor.toNat = some (lastLines s.since)) :
    (dumpLogs vsprintf clean s.ring).map Prod.fst = some (textOf vsprintf (lastLines s.since)) := by
  have hcursor := h.cursor
  unfold dumpLogs textOf
  by_cases hnone : s.ring.dumpCursor = 0
  · have hnil : lastLines s.since = [] := by
      rw [hnone] at hlines
      exact (Option.some.inj hlines).symm
    rw [if_pos hnone, if_pos hnil]
    rfl
  · have hsome : lastLines s.since ≠ [] := by
      intro hnil
      apply hnone
      apply BitVec.eq_of_toNat_eq
      rw [hcursor, lastLines_eq_nil.mp hnil]
      rfl
    rw [if_neg hnone, if_neg hsome, hlines]
    rfl

/-- A call is faithful exactly when a dump finds the lines where it looks for them. -/
theorem faithful_iff_readable (h : Tracks s) (c : LogCall) :
    Faithful vsprintf s c t ↔ Readable s c t := by
  constructor
  · intro hf
    cases c with
    | logDump line => trivial
    | cleanLogBuffer => trivial
    | dumpLogs clean => exact readable_of_linesUpTo h (hf.lines clean rfl)
  · intro hr
    cases c with
    | logDump line =>
        refine ⟨?_, fun _ hc => by simp at hc, fun _ hc => by simp at hc⟩
        intro i hi
        rw [List.mem_singleton.mp hi]
        exact Nat.mod_lt _ (by omega)
    | cleanLogBuffer =>
        refine ⟨?_, fun _ hc => by simp at hc, fun _ hc => by simp at hc⟩
        intro i hi
        have hlt := List.mem_range.mp hi
        omega
    | dumpLogs clean =>
        have hlines := linesUpTo_of_readable h hr
        refine ⟨?_, fun _ _ => hlines, fun _ _ => text_of_lines h _ hlines⟩
        intro i hi
        have hle : ¬ 128 < s.ring.dumpCursor.toNat := by
          intro hbeyond
          rw [linesUpTo_beyond _ hbeyond] at hlines
          exact absurd hlines (by simp)
        rcases List.mem_append.mp hi with hi | hi
        · have hlt := List.mem_range.mp hi
          omega
        · split at hi
          · have hlt := List.mem_range.mp hi
            omega
          · simp at hi

theorem afterDump_of_dumpLogs {r r' : LogRing} {clean : Bool} {text : String}
    (h : dumpLogs vsprintf clean r = some (text, r')) : r' = r.afterDump clean := by
  unfold dumpLogs at h
  unfold LogRing.afterDump
  by_cases hnone : r.dumpCursor = 0
  · rw [if_pos hnone] at h
    rw [if_neg (by simp [hnone])]
    exact (congrArg Prod.snd (Option.some.inj h)).symm
  · rw [if_neg hnone] at h
    simp only [Option.bind_eq_bind, Option.bind_eq_some_iff] at h
    rcases h with ⟨lines, -, hr⟩
    have hr' : r' = if clean = true then r.cleanLogBuffer else r :=
      (congrArg Prod.snd (Option.some.inj hr)).symm
    rw [hr']
    cases clean with
    | false => simp
    | true => simp only [if_true, and_true, if_pos hnone]

theorem tracks_step {c : LogCall} (h : Tracks s) (hr : Readable s c t)
    (hstep : logCalls.step s c = some t) : Tracks t := by
  cases c with
  | logDump line =>
      rw [← Option.some.inj hstep]
      exact tracks_logDump h line
  | cleanLogBuffer =>
      rw [← Option.some.inj hstep]
      exact tracks_empty _ rfl
  | dumpLogs clean =>
      have hcursor := h.cursor
      rw [← Option.some.inj hstep]
      cases clean with
      | false =>
          rw [LogRing.afterDump, if_neg (by simp)]
          exact h
      | true =>
          apply tracks_empty
          rw [LogRing.afterDump]
          split
          · rfl
          · rename_i hkept
            simpa using hkept

/-! ## Runs -/

theorem each_faithful_iff (h : Tracks s) (cs : List LogCall) :
    logCalls.Each (Faithful vsprintf) cs s ↔ logCalls.Each Readable cs s := by
  apply Machine.each_congr _ _ h
  · intro s c t hs _
    exact faithful_iff_readable hs c
  · intro s c t hs hstep hf
    exact tracks_step hs ((faithful_iff_readable hs c).mp hf) hstep

/-- In every sequence of calls the log is a ring of the last 128 lines exactly when every
dump finds at most 128 lines since the last clean, or 128 more than a multiple of 256. -/
theorem faithful_iff (vsprintf : LogLine → String) (cs : List LogCall) :
    logCalls.Each (Faithful vsprintf) cs {} ↔ logCalls.Each Readable cs {} :=
  each_faithful_iff (tracks_empty {} rfl) cs

def fill (n : ℕ) : List LogCall := List.replicate n (.logDump ⟨"register signal handler", []⟩)

/-- After 129 lines a dump reads `dump_logs[128]`, and after 256 lines it says that the
buffer is empty. -/
theorem overrun_reads_beyond :
    (∃ s, logCalls.exec (fill 129) {} = some s ∧ dumpLogs LogLine.format false s.ring = none ∧
        ¬ logCalls.Each (Faithful LogLine.format) (fill 129 ++ [.dumpLogs false]) {}) ∧
      ∃ s, logCalls.exec (fill 256) {} = some s ∧
        dumpLogs LogLine.format false s.ring = some (LogRing.emptyText, s.ring) ∧
        ¬ logCalls.Each (Faithful LogLine.format) (fill 256 ++ [.dumpLogs false]) {} := by
  have hempty : Tracks {} := tracks_empty {} rfl
  constructor
  · have hcursor : (logCalls.exec (fill 129) {}).map (fun s => s.ring.dumpCursor) = some 129 := by
      decide +kernel
    rcases Option.map_eq_some_iff.mp hcursor with ⟨s, hs, hc⟩
    refine ⟨s, hs, ?_, ?_⟩
    · rw [dumpLogs, hc, if_neg (by decide), linesUpTo_beyond _ (by decide)]
      rfl
    · rw [each_faithful_iff hempty]
      decide +kernel
  · have hcursor : (logCalls.exec (fill 256) {}).map (fun s => s.ring.dumpCursor) = some 0 := by
      decide +kernel
    rcases Option.map_eq_some_iff.mp hcursor with ⟨s, hs, hc⟩
    refine ⟨s, hs, ?_, ?_⟩
    · rw [dumpLogs, if_pos hc]
    · rw [each_faithful_iff hempty]
      decide +kernel

end Patrons
