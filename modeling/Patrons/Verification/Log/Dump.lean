import Patrons.Verification.Log.Memory
import Patrons.Verification.Log.Ring

/-! # The text that `dumpLogs` builds

It allocates 256 bytes for a slot, and a line of 255 bytes takes 259 of them in the text. -/

namespace Patrons

def lineBytes (line : CString) : List UInt8 := line.bytes ++ utf8 "↵\n"

def dumpBytes (lines : List CString) : List UInt8 :=
  utf8 "\nPatrons Core Dump: " ++ utf8 "1.1.0" ++ utf8 "↵\n" ++ lines.flatMap lineBytes ++ utf8 "\n"

/-! ## Concatenation -/

theorem strcat_strcat (a b : List UInt8) (tmp : TmpBuffer) :
    (strcat a tmp).bind (strcat b) = strcat (a ++ b) tmp := by
  by_cases h : tmp.text.length + a.length + 1 ≤ tmp.size
  · have ha : strcat a tmp = some { tmp with text := tmp.text ++ a } := if_pos h
    rw [ha, Option.bind_some]
    simp only [strcat, List.length_append, List.append_assoc, Nat.add_assoc]
  · have hab : strcat (a ++ b) tmp = none := by
      rw [strcat, if_neg]
      rw [List.length_append]
      omega
    rw [hab, strcat, if_neg h, Option.bind_none]

theorem strcatLine_eq (tmp : TmpBuffer) (line : CString) :
    strcatLine tmp line = strcat (lineBytes line) tmp :=
  strcat_strcat line.bytes (utf8 "↵\n") tmp

/-- The loop appends its lines to what has been concatenated before it. -/
theorem strcat_foldlM (a : List UInt8) (lines : List CString) (tmp : TmpBuffer) :
    (strcat a tmp).bind (fun tmp => lines.foldlM strcatLine tmp) =
      strcat (a ++ lines.flatMap lineBytes) tmp := by
  induction lines generalizing a with
  | nil => simp
  | cons line lines ih =>
      have hround : ∀ t : TmpBuffer, (line :: lines).foldlM strcatLine t =
          (strcat (lineBytes line) t).bind fun t => lines.foldlM strcatLine t := by
        intro t
        rw [List.foldlM_cons, strcatLine_eq]
        rfl
      simp only [hround]
      rw [← Option.bind_assoc, strcat_strcat, ih, List.flatMap_cons, List.append_assoc]

/-- The concatenations stay inside `tmp` exactly when the whole text does. -/
theorem dumpTmp_eq (current_cursor : ℕ) (lines : List CString) :
    dumpTmp current_cursor lines =
      if (dumpBytes lines).length + 1 ≤ current_cursor * 256 then
        some ⟨current_cursor * 256, dumpBytes lines⟩
      else none := by
  have hchain : dumpTmp current_cursor lines =
      strcat (dumpBytes lines) ⟨current_cursor * 256, []⟩ := by
    simp only [dumpTmp, Option.bind_eq_bind]
    rw [dumpBytes, ← strcat_strcat, ← strcat_foldlM, ← strcat_strcat, ← strcat_strcat]
    simp only [Option.bind_assoc]
  rw [hchain, strcat]
  simp

theorem length_dumpBytes (lines : List CString) :
    (dumpBytes lines).length + 1 = (lines.map fun line => line.bytes.length + 4).sum + 31 := by
  have hline : ∀ line, (lineBytes line).length = line.bytes.length + 4 := by
    intro line
    have hsep : (utf8 "↵\n").length = 4 := by decide
    rw [lineBytes, List.length_append, hsep]
  have hhead : (utf8 "\nPatrons Core Dump: " ++ utf8 "1.1.0" ++ utf8 "↵\n").length = 29 := by decide
  have htail : (utf8 "\n").length = 1 := by decide
  have hlines : (lines.flatMap lineBytes).length =
      (lines.map fun line => line.bytes.length + 4).sum := by
    rw [List.length_flatMap]
    exact congrArg List.sum (List.map_congr_left fun line _ => hline line)
  rw [dumpBytes, List.length_append, List.length_append, hhead, htail, hlines]
  omega

namespace LogMemory

theorem length_linesUpTo_le (slots : Fin 128 → Option CString) (n : ℕ) :
    (linesUpTo slots n).length ≤ n := by
  calc
    (linesUpTo slots n).length ≤ ((List.finRange 128).take n).length := List.length_filterMap_le _ _
    _ ≤ n := List.length_take_le _ _

/-- The allocation takes the text and its NUL exactly when the lines in the slots, with 4 more
bytes for each and 31 for what is around them, have at most 256 bytes a slot. -/
theorem dump_suffices_iff (slots : Fin 128 → Option CString) (current_cursor : ℕ) :
    ((dumpBytes (linesUpTo slots current_cursor)).length + 1 ≤ current_cursor * 256 ∧
        dumpTmp current_cursor (linesUpTo slots current_cursor) =
          some ⟨current_cursor * 256, dumpBytes (linesUpTo slots current_cursor)⟩) ↔
      ((linesUpTo slots current_cursor).map fun line => line.bytes.length + 4).sum + 31 ≤
        current_cursor * 256 := by
  rw [← length_dumpBytes]
  constructor
  · exact And.left
  · intro h
    exact ⟨h, by rw [dumpTmp_eq, if_pos h]⟩

/-- A line of 255 bytes, as long as the buffer of `__log_dump` can hold. -/
def fullLine : CString where
  bytes := List.replicate 255 0x61
  noNul h := absurd (List.eq_of_mem_replicate h) (by decide)

theorem length_fullLine : fullLine.bytes.length = 255 := List.length_replicate

theorem fullLine_overflows :
    fullLine.bytes.length ≤ 255 ∧
      linesUpTo (fun i => if i = 0 then some fullLine else none) 1 = [fullLine] ∧
      (dumpBytes [fullLine]).length + 1 = 290 ∧
      ¬(dumpBytes [fullLine]).length + 1 ≤ 1 * 256 ∧ dumpTmp 1 [fullLine] = none := by
  have hlength : (dumpBytes [fullLine]).length + 1 = 290 := by
    rw [length_dumpBytes, List.map_singleton, List.sum_singleton, length_fullLine]
  refine ⟨Nat.le_of_eq length_fullLine, rfl, hlength, by omega, ?_⟩
  rw [dumpTmp_eq, if_neg (by omega)]

theorem dumpTmp_of_short {slots : Fin 128 → Option CString} {current_cursor : ℕ}
    (hcursor : 0 < current_cursor)
    (hshort : ∀ line ∈ linesUpTo slots current_cursor, line.bytes.length ≤ 221) :
    dumpTmp current_cursor (linesUpTo slots current_cursor) =
      some ⟨current_cursor * 256, dumpBytes (linesUpTo slots current_cursor)⟩ := by
  have hsum : ∀ lines : List CString, (∀ line ∈ lines, line.bytes.length ≤ 221) →
      (lines.map fun line => line.bytes.length + 4).sum ≤ lines.length * 225 := by
    intro lines hlines
    induction lines with
    | nil => exact Nat.zero_le _
    | cons line lines ih =>
        have hfirst := hlines line (by simp)
        have hrest := ih fun l hl => hlines l (List.mem_cons_of_mem line hl)
        rw [List.map_cons, List.sum_cons, List.length_cons]
        omega
  have hle := hsum _ hshort
  have hcount := length_linesUpTo_le slots current_cursor
  have hbytes := length_dumpBytes (linesUpTo slots current_cursor)
  rw [dumpTmp_eq, if_pos]
  omega

/-- With a line of 255 bytes in every slot the text never fits. -/
theorem dumpTmp_of_full {current_cursor : ℕ} (hcursor : current_cursor ≤ 128) :
    dumpTmp current_cursor (linesUpTo (fun _ => some fullLine) current_cursor) = none := by
  have hlines : linesUpTo (fun _ => some fullLine) current_cursor =
      List.replicate current_cursor fullLine := by
    have hmap : (fun _ : Fin 128 => some fullLine) = some ∘ fun _ => fullLine := rfl
    rw [linesUpTo, hmap, List.filterMap_eq_map, List.map_const', List.length_take,
      List.length_finRange, Nat.min_eq_left hcursor]
  have hbytes := length_dumpBytes (List.replicate current_cursor fullLine)
  rw [List.map_replicate, length_fullLine, List.sum_replicate_nat] at hbytes
  rw [hlines, dumpTmp_eq, if_neg]
  omega

end LogMemory

/-! ## The memory behind the ring -/

namespace LogMemory

/-- The slots refer to the lines of a ring. -/
structure Represents (vsprintf : LogLine → CString) (s : LogMemory) (r : LogRing) : Prop where
  valid : Valid s
  cursor : s.dumpCursor = r.dumpCursor
  lines : ∀ i, s.line i = (r.dumpLogs i).map vsprintf

variable {vsprintf : LogLine → CString} {s t : LogMemory} {r : LogRing} {p : Addr}

theorem represents_empty : Represents vsprintf {} {} where
  valid := valid_empty
  cursor := rfl
  lines _ := rfl

theorem Represents.logDump (h : Represents vsprintf s r) (hp : p ≠ 0) (hfresh : s.live p = none)
    (line : LogLine) : Represents vsprintf (s.logDump p (vsprintf line)) (r.logDump line) where
  valid := valid_logDump h.valid hp hfresh
  cursor := by
    rw [dumpCursor_logDump, h.cursor]
    rfl
  lines i := by
    have hring : (r.logDump line).dumpLogs i =
        if i.val = r.dumpCursor.toNat % 128 then some line else r.dumpLogs i := rfl
    have hslot : i = s.slot ↔ i.val = r.dumpCursor.toNat % 128 := by
      have hval : s.slot.val = s.dumpCursor.toNat % 128 := rfl
      rw [Fin.ext_iff, hval, h.cursor]
    rw [LogMemory.line, dumpLogs_logDump, hring]
    by_cases hi : i = s.slot
    · rw [if_pos (hslot.mp hi), hi, Function.update_self, if_neg hp,
        live_logDump h.valid hp hfresh, if_pos rfl]
      rfl
    · rw [if_neg fun heq => hi (hslot.mpr heq), Function.update_of_ne hi, ← h.lines i,
        LogMemory.line]
      split
      · rfl
      · rename_i hne
        exact live_logDump_of_ne h.valid hp hfresh hi hne

theorem Represents.cleanLogBuffer (h : Represents vsprintf s r) :
    Represents vsprintf s.cleanLogBuffer r.cleanLogBuffer where
  valid := valid_cleanLogBuffer h.valid
  cursor := rfl
  lines i := by
    have hring : r.cleanLogBuffer.dumpLogs i = if i.val < 32 then none else r.dumpLogs i := rfl
    rw [LogMemory.line, dumpLogs_cleanLogBuffer, hring]
    by_cases hi : i.val < 32
    · have hfirst : 4 * i.val < 128 := by omega
      rw [if_pos hi, if_pos hfirst, if_pos rfl]
      rfl
    · have hlast : ¬4 * i.val < 128 := by omega
      rw [if_neg hi, if_neg hlast]
      exact h.lines i

theorem Represents.afterDump (h : Represents vsprintf s r) (clean : Bool) :
    Represents vsprintf (s.afterDump clean) (r.afterDump clean) := by
  unfold LogMemory.afterDump LogRing.afterDump
  rw [h.cursor]
  split
  · exact h.cleanLogBuffer
  · exact h

end LogMemory

def MemoryCall.ringCall : MemoryCall → LogCall
  | logDump _ line => .logDump line
  | cleanLogBuffer => .cleanLogBuffer
  | dumpLogs cleanAfterDump => .dumpLogs cleanAfterDump

namespace LogMemory

variable {vsprintf : LogLine → CString} {s t : LogMemory} {r : LogRing} {p : Addr}

/-- The memory of the log refines the ring of lines. -/
theorem simulates_logCalls (vsprintf : LogLine → CString) :
    (logMemory vsprintf).Simulates logCalls MemoryCall.ringCall
      fun s run => Represents vsprintf s run.ring := by
  intro s run c t h hstep
  cases c with
  | logDump p line =>
      simp only [logMemory, Option.ite_none_right_eq_some, Option.some.injEq,
        Option.isNone_iff_eq_none] at hstep
      obtain ⟨⟨hp, hfresh⟩, rfl⟩ := hstep
      exact ⟨_, rfl, h.logDump hp hfresh line⟩
  | cleanLogBuffer =>
      obtain rfl := Option.some.inj hstep
      exact ⟨_, rfl, h.cleanLogBuffer⟩
  | dumpLogs clean =>
      obtain rfl := Option.some.inj hstep
      exact ⟨_, rfl, h.afterDump clean⟩

theorem represents_of_run {cs : List MemoryCall} (h : (logMemory vsprintf).exec cs {} = some s) :
    ∃ run, logCalls.exec (cs.map MemoryCall.ringCall) {} = some run ∧
      Represents vsprintf s run.ring :=
  (simulates_logCalls vsprintf).exec represents_empty h

/-! ## A dump -/

theorem linesUpTo_succ (slots : Fin 128 → Option CString) {n : ℕ} (h : n < 128) :
    linesUpTo slots (n + 1) = linesUpTo slots n ++ (slots ⟨n, h⟩).toList := by
  have hlength : n < (List.finRange 128).length := by rwa [List.length_finRange]
  have hlast : ∀ i : Fin 128, [i].filterMap slots = (slots i).toList := by
    intro i
    cases hi : slots i <;> simp [hi]
  rw [linesUpTo, List.take_succ_eq_append_getElem hlength, List.filterMap_append, hlast,
    List.getElem_finRange]
  rfl

theorem Represents.linesUpTo (h : Represents vsprintf s r) {n : ℕ} (hn : n ≤ 128) :
    ∃ ls, r.linesUpTo n = some ls ∧ linesUpTo s.line n = ls.map vsprintf := by
  induction n with
  | zero => exact ⟨[], rfl, rfl⟩
  | succ n ih =>
      obtain ⟨ls, hls, hlines⟩ := ih (by omega)
      have hslot : r.slot n = some (r.dumpLogs ⟨n, hn⟩) := dif_pos hn
      refine ⟨ls ++ (r.dumpLogs ⟨n, hn⟩).toList, ?_, ?_⟩
      · rw [LogRing.linesUpTo, hls, hslot]
        rfl
      · rw [linesUpTo_succ s.line hn, hlines, h.lines, List.map_append]
        cases r.dumpLogs ⟨n, hn⟩ <;> rfl

theorem utf8_append (a b : String) : utf8 (a ++ b) = utf8 a ++ utf8 b := by
  simp [utf8]

variable {text : LogLine → String}

theorem utf8_joinLines (htext : ∀ line, (vsprintf line).bytes = utf8 (text line))
    (ls : List LogLine) :
    utf8 (LogRing.joinLines text ls) = (ls.map vsprintf).flatMap lineBytes := by
  induction ls with
  | nil => rfl
  | cons line ls ih =>
      have hsplit := utf8_append (text line ++ "↵\n") (LogRing.joinLines text ls)
      rw [utf8_append (text line), ih, ← htext] at hsplit
      exact hsplit

theorem utf8_dumpText (htext : ∀ line, (vsprintf line).bytes = utf8 (text line))
    (ls : List LogLine) : utf8 (LogRing.dumpText text ls) = dumpBytes (ls.map vsprintf) := by
  have hparts : LogRing.dumpText text ls =
      "\nPatrons Core Dump: " ++ "1.1.0" ++ "↵\n" ++ LogRing.joinLines text ls ++ "\n" := rfl
  rw [hparts, dumpBytes, ← utf8_joinLines htext ls]
  simp only [utf8_append]

/-- A dump that stays inside its memory returns the text of the ring. -/
theorem Represents.dump (h : Represents vsprintf s r)
    (htext : ∀ line, (vsprintf line).bytes = utf8 (text line)) {clean : Bool} {bytes : List UInt8}
    (hdump : s.dump clean = some (bytes, t)) :
    ∃ str, Patrons.dumpLogs text clean r = some (str, r.afterDump clean) ∧ bytes = utf8 str ∧
      Represents vsprintf t (r.afterDump clean) := by
  unfold LogMemory.dump at hdump
  rw [h.cursor] at hdump
  split at hdump
  · rename_i hzero
    obtain ⟨rfl, rfl⟩ := Prod.mk.inj (Option.some.inj hdump)
    have hkept : r.afterDump clean = r := if_neg (by simp [hzero])
    rw [hkept]
    exact ⟨LogRing.emptyText, if_pos hzero, rfl, h⟩
  · rename_i hnonzero
    split at hdump
    · exact absurd hdump (by simp)
    · rename_i hinside
      obtain ⟨tmp, htmp, hresult⟩ := Option.map_eq_some_iff.mp hdump
      obtain ⟨rfl, rfl⟩ := Prod.mk.inj hresult
      obtain ⟨ls, hls, hlines⟩ := h.linesUpTo (Nat.not_lt.mp hinside)
      rw [hlines, dumpTmp_eq, Option.ite_none_right_eq_some] at htmp
      obtain rfl := Option.some.inj htmp.2
      refine ⟨LogRing.dumpText text ls, ?_, (utf8_dumpText htext ls).symm, h.afterDump clean⟩
      have hafter : r.afterDump clean = if clean then r.cleanLogBuffer else r := by
        cases clean with
        | false => exact if_neg (by simp)
        | true => exact if_pos ⟨hnonzero, rfl⟩
      rw [Patrons.dumpLogs, if_neg hnonzero, hls, hafter]
      rfl

end LogMemory
end Patrons
