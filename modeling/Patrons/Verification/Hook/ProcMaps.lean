import Patrons.Model.ProcMaps
import Patrons.Verification.Hook.BaseAddr

/-! # What a refresh reads

The kernel writes one line for each mapping. A refresh gets back the mappings that it looks at
further, whatever its buffers held before. -/

namespace Patrons.Xhook

open Scan

/-- A mapping of the process, as the kernel prints it. -/
structure Vma where
  start : Addr
  stop : Addr
  read : Bool
  write : Bool
  exec : Bool
  shared : Bool
  offset : ℕ
  major : ℕ
  minor : ℕ
  inode : ℕ
  name : List Char

namespace Vma

variable (v : Vma)

def perms : List Char :=
  [if v.read then 'r' else '-', if v.write then 'w' else '-', if v.exec then 'x' else '-',
    if v.shared then 's' else 'p']

/-- The line of the mapping, with `pad` blanks before the name. -/
def text (pad : ℕ) : List Char :=
  numeral 16 8 v.start.toNat ++ '-' :: (numeral 16 8 v.stop.toNat ++ ' ' :: (v.perms ++
    ' ' :: (numeral 16 8 v.offset ++ ' ' :: (numeral 16 2 v.major ++ ':' ::
      (numeral 16 2 v.minor ++ ' ' :: (numeral 10 1 v.inode ++
        (List.replicate pad ' ' ++ v.name)))))))

/-- What the kernel prints: 64-bit numbers, and a name in one line that starts with no blank. -/
structure Printable (pad : ℕ) : Prop where
  offset : v.offset < 2 ^ 64
  major : v.major < 2 ^ 64
  minor : v.minor < 2 ^ 64
  inode : v.inode < 2 ^ 64
  name : '\n' ∉ v.name ∧ nul ∉ v.name
  blank : ∀ c ∈ v.name.head?, isSpace c = false
  padded : 0 < pad
  length : (v.text pad).length + 1 ≤ 511

def mapsLine : MapsLine :=
  ⟨v.start, String.ofList v.perms, BitVec.ofNat 32 v.offset, String.ofList v.name⟩

end Vma

/-! ## Scanning a line -/

section Scanning

variable {len : ℕ} {fmt : List Directive} {rest : List Char}

theorem scan_num {base : ℕ} (hbase : 2 ≤ base ∧ base ≤ 16) (width : ℕ) {n : ℕ} (hn : n < 2 ^ 64)
    (h : Stops base rest) :
    scan len (.num base :: fmt) (numeral base width n ++ rest) = .num n :: scan len fmt rest := by
  rw [scan, number_numeral hbase width hn h]

theorem scan_skipNum {base : ℕ} (hbase : 2 ≤ base ∧ base ≤ 16) (width : ℕ) {n : ℕ}
    (hn : n < 2 ^ 64) (h : Stops base rest) :
    scan len (.skipNum base :: fmt) (numeral base width n ++ rest) = scan len fmt rest := by
  rw [scan, number_numeral hbase width hn h]

theorem scan_lit (c : Char) : scan len (.lit c :: fmt) (c :: rest) = scan len fmt rest := by
  rw [scan, if_pos rfl]

theorem scan_word {w : List Char} (hw : w ≠ []) (hspace : ∀ c ∈ w, isSpace c = false) :
    scan len (.word w.length :: fmt) (w ++ rest) = .word w :: scan len fmt rest := by
  rw [scan, word_append hw hspace]

theorem scan_space (h : ∀ c ∈ rest.head?, isSpace c = false) :
    scan len (.space :: fmt) (' ' :: rest) = scan len fmt rest := by
  rw [scan, List.dropWhile_cons_of_pos rfl]
  cases rest with
  | nil => rfl
  | cons c cs => rw [List.dropWhile_cons_of_neg (by simp [h c rfl])]

theorem stops_cons {base : ℕ} {c : Char} (hc : hexVal c = none) (hx : c ≠ 'x' ∧ c ≠ 'X') :
    Stops base (c :: rest) := by
  intro d hd
  obtain rfl : c = d := by simpa using hd
  exact ⟨by rw [digitVal, hc]; rfl, hx⟩

theorem head_numeral {base : ℕ} (hbase : 2 ≤ base ∧ base ≤ 16) (width n : ℕ) :
    ∀ c ∈ (numeral base width n ++ rest).head?, isSpace c = false := by
  intro c hc
  have hne : numeral base width n ≠ [] := by simp [numeral, Nat.toDigits_ne_nil]
  have hdigit : ∀ c ∈ numeral base width n, hexVal c ≠ none := by
    intro c hc hnone
    exact digitVal_of_mem_numeral hbase hc (by rw [digitVal, hnone]; rfl)
  generalize numeral base width n = ds at hc hne hdigit
  cases ds with
  | nil => exact absurd rfl hne
  | cons d ds =>
      obtain rfl : d = c := by simpa using hc
      exact (of_hexVal (hdigit d (by simp))).1

end Scanning

namespace Vma

variable {v : Vma} {pad : ℕ}

theorem perms_plain : ∀ c ∈ v.perms, isSpace c = false ∧ c ≠ nul ∧ c ≠ '\n' := by
  simp only [perms, List.mem_cons, List.not_mem_nil, or_false]
  rintro c (rfl | rfl | rfl | rfl) <;> split <;> decide

theorem scan_text (h : v.Printable pad) (len : ℕ) :
    scan len mapsFormat (v.text pad ++ ['\n']) =
      [.num v.start.toNat, .word v.perms, .num v.offset,
        .count (len - (pad + v.name.length + 1))] := by
  have hhex : 2 ≤ 16 ∧ 16 ≤ 16 := by decide
  have hdec : 2 ≤ 10 ∧ 10 ≤ 16 := by decide
  have hstart : v.start.toNat < 2 ^ 64 := by omega
  have hstop : v.stop.toNat < 2 ^ 64 := by omega
  have hdash : ∀ base rest, Stops base ('-' :: rest) := fun base rest =>
    stops_cons (by decide) (by decide)
  have hblank : ∀ base rest, Stops base (' ' :: rest) := fun base rest =>
    stops_cons (by decide) (by decide)
  have hcolon : ∀ base rest, Stops base (':' :: rest) := fun base rest =>
    stops_cons (by decide) (by decide)
  have hperms : ∀ rest, ∀ c ∈ (v.perms ++ rest).head?, isSpace c = false := by
    intro rest c hc
    exact (perms_plain c (List.mem_of_mem_head? (by simpa [perms] using hc))).1
  obtain ⟨n, rfl⟩ : ∃ n, pad = n + 1 := ⟨pad - 1, by have := h.padded; omega⟩
  simp only [text, mapsFormat, List.append_assoc, List.cons_append, List.replicate_succ]
  rw [scan_num hhex 8 hstart (hdash _ _), scan_lit, scan_skipNum hhex 8 hstop (hblank _ _),
    scan_space (hperms _), show 4 = v.perms.length from rfl,
    scan_word (by simp [perms]) fun c hc => (perms_plain c hc).1,
    scan_space (head_numeral hhex _ _), scan_num hhex 8 h.offset (hblank _ _),
    scan_space (head_numeral hhex _ _), scan_skipNum hhex 2 h.major (hcolon _ _), scan_lit,
    scan_skipNum hhex 2 h.minor (hblank _ _), scan_space (head_numeral hdec _ _),
    scan_skipNum hdec 1 h.inode (hblank _ _), scan, scan]
  congr 5
  simp
  omega

end Vma

/-! ## Buffers -/

theorem cString_append {s : List Char} (h : nul ∉ s) (rest : List Char) :
    cString (s ++ nul :: rest) = s := by
  have hplain : ∀ c ∈ s, (c != nul) = true := by
    intro c hc
    rw [bne_iff_ne]
    rintro rfl
    exact h hc
  rw [cString, List.takeWhile_append_of_pos hplain, List.takeWhile_cons_of_neg (by simp),
    List.append_nil]

theorem skipBlanks_append {front blanks rest : List Char} {n : ℕ} (hn : blanks.length ≤ n)
    (hblanks : ∀ c ∈ blanks, isSpace c = true) (hrest : ∀ c ∈ rest.head?, isSpace c = false)
    (hne : rest ≠ []) :
    skipBlanks (front ++ blanks ++ rest) n front.length = front.length + blanks.length := by
  induction blanks generalizing front n with
  | nil =>
      cases n with
      | zero => rfl
      | succ n =>
          cases rest with
          | nil => exact absurd rfl hne
          | cons c cs =>
              have hc : isSpace c = false := hrest c rfl
              simp [skipBlanks, hc]
  | cons c cs ih =>
      obtain ⟨k, rfl⟩ : ∃ k, n = k + 1 := ⟨n - 1, by simp at hn; omega⟩
      have hc : isSpace c = true := hblanks c (by simp)
      have hget : (front ++ c :: cs ++ rest).getD front.length nul = c := by simp
      have hnext := @ih (front ++ [c]) k (by simpa using hn)
        fun d hd => hblanks d (List.mem_cons_of_mem c hd)
      rw [skipBlanks, hget, if_pos hc]
      simp only [List.append_assoc, List.cons_append, List.nil_append, List.length_append,
        List.length_singleton] at hnext ⊢
      rw [hnext, List.length_cons]
      omega

theorem readPathname_anonymous {base : Addr} {perm : List Char} {offset : SizeT} {vars : MapsVars}
    {front tail : List Char} {pad : ℕ}
    (hline : vars.line = front ++ (List.replicate pad ' ' ++ '\n' :: nul :: tail))
    (hpos : vars.pathnamePos = front.length) (hlength : front.length + pad + 1 ≤ 511) :
    (readPathname base perm offset vars).1 = none := by
  have hblanks : ∀ c ∈ List.replicate pad ' ' ++ ['\n'], isSpace c = true := by
    intro c hc
    rcases List.mem_append.mp hc with hc | hc
    · rw [List.eq_of_mem_replicate hc]
      decide
    · rw [List.mem_singleton.mp hc]
      decide
  have hline' : vars.line = front ++ (List.replicate pad ' ' ++ ['\n']) ++ nul :: tail := by
    rw [hline]
    simp
  have hskip : skipBlanks vars.line (511 - front.length) front.length =
      front.length + (pad + 1) := by
    rw [hline', skipBlanks_append (by simp; omega) hblanks (by simp; decide) (by simp)]
    simp
  have hname : cString (vars.line.drop (front.length + (pad + 1))) = [] := by
    rw [hline', List.append_assoc, List.drop_append, List.drop_append]
    simp [cString]
  simp only [readPathname, hpos, hskip]
  split
  · rfl
  · simp [hname]

theorem readPathname_named {base : Addr} {perm : List Char} {offset : SizeT} {vars : MapsVars}
    {front name tail : List Char} {pad : ℕ}
    (hline : vars.line = front ++ (List.replicate pad ' ' ++ (name ++ '\n' :: nul :: tail)))
    (hpos : vars.pathnamePos = front.length) (hname : name ≠ [])
    (hblank : ∀ c ∈ name.head?, isSpace c = false) (hnul : nul ∉ name)
    (hlength : front.length + pad + name.length + 1 ≤ 511) :
    (readPathname base perm offset vars).1 =
      if name.head? = some '[' then none
      else some ⟨base, String.ofList (perm.take 4), offset, String.ofList name⟩ := by
  have hpositive : 0 < name.length := List.length_pos_of_ne_nil hname
  have hskip : skipBlanks vars.line (511 - front.length) front.length = front.length + pad := by
    rw [hline, ← List.append_assoc, skipBlanks_append (by simp; omega)]
    · simp
    · intro c hc
      rw [List.eq_of_mem_replicate hc]
      decide
    · intro c hc
      rw [List.head?_append_of_ne_nil _ hname] at hc
      exact hblank c hc
    · simp
  have hcstr : cString (vars.line.drop (front.length + pad)) = name ++ ['\n'] := by
    have hdrop : vars.line.drop (front.length + pad) = (name ++ ['\n']) ++ nul :: tail := by
      rw [hline, List.drop_append, List.drop_append]
      simp
    rw [hdrop, cString_append]
    simp only [List.mem_append, List.mem_singleton, not_or]
    exact ⟨hnul, by decide⟩
  have hmore : ¬511 ≤ front.length + pad := by omega
  simp only [readPathname, hpos, hskip, if_neg hmore, hcstr, List.getLast?_concat, beq_self_eq_true,
    ↓reduceIte, List.dropLast_concat, hname, false_or]
  split <;> rfl

/-! ## Lines and files -/

namespace Vma

variable {v : Vma} {pad : ℕ}

def front (v : Vma) : List Char :=
  numeral 16 8 v.start.toNat ++ '-' :: (numeral 16 8 v.stop.toNat ++ ' ' :: (v.perms ++
    ' ' :: (numeral 16 8 v.offset ++ ' ' :: (numeral 16 2 v.major ++ ':' ::
      (numeral 16 2 v.minor ++ ' ' :: numeral 10 1 v.inode)))))

theorem text_eq : v.text pad = v.front ++ (List.replicate pad ' ' ++ v.name) := by
  simp [text, front]

/-- A numeral, a separator and the permissions have no NUL and no newline. -/
theorem front_plain : ∀ c ∈ v.front, c ≠ nul ∧ c ≠ '\n' := by
  have hnum : ∀ base, 2 ≤ base ∧ base ≤ 16 → ∀ width n, ∀ c ∈ numeral base width n,
      c ≠ nul ∧ c ≠ '\n' := by
    intro base hbase width n c hc
    have hdigit := digitVal_of_mem_numeral hbase hc
    constructor <;> rintro rfl <;> exact hdigit rfl
  have hhex := hnum 16 (by decide)
  have hdec := hnum 10 (by decide)
  have hperms : ∀ c ∈ v.perms, c ≠ nul ∧ c ≠ '\n' := fun c hc => (perms_plain c hc).2
  simp only [front, List.forall_mem_append, List.forall_mem_cons]
  refine ⟨hhex _ _, by decide, hhex _ _, by decide, hperms, by decide, hhex _ _, by decide,
    hhex _ _, by decide, hhex _ _, by decide, hdec _ _⟩

theorem text_plain (h : v.Printable pad) : nul ∉ v.text pad ∧ '\n' ∉ v.text pad := by
  have hblanks : ∀ c ∈ List.replicate pad ' ', c ≠ nul ∧ c ≠ '\n' := by
    intro c hc
    rw [List.eq_of_mem_replicate hc]
    decide
  rw [text_eq]
  simp only [List.mem_append, not_or]
  exact ⟨⟨fun hc => (front_plain _ hc).1 rfl, fun hc => (hblanks _ hc).1 rfl, h.name.2⟩,
    fun hc => (front_plain _ hc).2 rfl, fun hc => (hblanks _ hc).2 rfl, h.name.1⟩

/-- Whatever the buffers hold, the line gives the mapping if a refresh looks at it further. -/
theorem readLine_text (h : v.Printable pad) (vars : MapsVars) :
    (readLine (v.text pad ++ ['\n']) vars).1 =
      if v.mapsLine.accepted then some v.mapsLine else none := by
  have hnul : nul ∉ v.text pad ++ ['\n'] := by
    simp only [List.mem_append, List.mem_singleton, not_or]
    exact ⟨(text_plain h).1, by decide⟩
  have hcstr : cString (overwrite vars.line (v.text pad ++ ['\n'])) = v.text pad ++ ['\n'] :=
    cString_append hnul _
  have hbase : BitVec.ofNat 32 v.start.toNat = v.start := by simp
  have hpos : (v.text pad ++ ['\n']).length - (pad + v.name.length + 1) = v.front.length := by
    simp [text_eq]
    omega
  have hlength : v.front.length + pad + v.name.length + 1 ≤ 511 := by
    have hline := h.length
    rw [text_eq] at hline
    simp only [List.length_append, List.length_replicate] at hline
    omega
  have hbuffer : overwrite vars.line (v.text pad ++ ['\n']) = v.front ++ (List.replicate pad ' ' ++
      (v.name ++ '\n' :: nul :: vars.line.drop ((v.text pad ++ ['\n']).length + 1))) := by
    rw [overwrite, text_eq]
    simp
  have hperm : overwrite vars.perm v.perms = v.perms ++ nul :: vars.perm.drop 5 := rfl
  have haccepted : v.mapsLine.accepted = true ↔ v.read = true ∧ v.shared = false ∧
      BitVec.ofNat 32 v.offset = 0 ∧ v.name ≠ [] ∧ v.name.head? ≠ some '[' := by
    simp only [MapsLine.accepted, mapsLine, String.toList_ofList, perms]
    cases v.read <;> cases v.shared <;> simp [and_assoc]
  simp only [readLine, hcstr, scan_text h, hpos, hbase, hperm]
  cases hread : v.read with
  | false => simp [haccepted, hread, perms]
  | true =>
      cases hshared : v.shared with
      | true => simp [haccepted, hshared, perms]
      | false =>
          by_cases hoffset : BitVec.ofNat 32 v.offset = 0
          · rw [if_neg (by simp [perms, hread, hshared]), if_neg (not_not_intro hoffset)]
            by_cases hname : v.name = []
            · rw [if_neg fun hacc => (haccepted.mp hacc).2.2.2.1 hname]
              have hline := hbuffer
              rw [hname, List.nil_append] at hline
              exact readPathname_anonymous hline rfl (by omega)
            · refine (readPathname_named hbuffer rfl hname h.blank h.name.2 hlength).trans ?_
              · have hiff : v.mapsLine.accepted = true ↔ ¬v.name.head? = some '[' := by
                  rw [haccepted]
                  exact ⟨fun hacc => hacc.2.2.2.2,
                    fun hhead => ⟨hread, hshared, hoffset, hname, hhead⟩⟩
                have htake : (v.perms ++ nul :: vars.perm.drop 5).take 4 = v.perms := rfl
                rw [htake]
                by_cases hhead : v.name.head? = some '['
                · rw [if_pos hhead, if_neg fun hacc => hiff.mp hacc hhead]
                · rw [if_neg hhead, if_pos (hiff.mpr hhead)]
                  rfl
          · rw [if_neg (by simp [perms, hread, hshared]), if_pos hoffset,
              if_neg fun hacc => hoffset (haccepted.mp hacc).2.2.1]

end Vma

theorem pieces_text (pad : Vma → ℕ) {vmas : List Vma} (h : ∀ v ∈ vmas, v.Printable (pad v)) :
    pieces 511 (Text.unlines (vmas.map fun v => v.text (pad v))) =
      vmas.map fun v => v.text (pad v) ++ ['\n'] := by
  rw [pieces_lines, List.map_map]
  · rfl
  · intro l hl
    obtain ⟨v, hv, rfl⟩ := List.mem_map.mp hl
    exact ⟨(Vma.text_plain (h v hv)).2, (h v hv).length⟩

/-- Reading the file of the kernel gives back the mappings that a refresh looks at further, from
any contents of the buffers. -/
theorem readMaps_text (pad : Vma → ℕ) {vmas : List Vma}
    (h : ∀ v ∈ vmas, v.Printable (pad v)) (vars : MapsVars) :
    readMaps (Text.unlines (vmas.map fun v => v.text (pad v))) vars =
      (vmas.map Vma.mapsLine).filter MapsLine.accepted := by
  rw [readMaps, pieces_text pad h]
  induction vmas generalizing vars with
  | nil => rfl
  | cons v vmas ih =>
      rw [List.map_cons, readPieces, Vma.readLine_text (h v (by simp)),
        ih (fun u hu => h u (List.mem_cons_of_mem v hu)), List.map_cons, List.filter_cons]
      split <;> rfl

theorem foldl_scanLine_accepted {π : Type*} (maps : Maps π) (hooks : List HookInfo)
    (lines : List MapsLine) (scan : Maps.Scan π) :
    (lines.filter MapsLine.accepted).foldl (maps.scanLine hooks) scan =
      lines.foldl (maps.scanLine hooks) scan := by
  induction lines generalizing scan with
  | nil => rfl
  | cons line lines ih =>
      by_cases h : line.accepted = true
      · rw [List.filter_cons_of_pos h]
        exact ih _
      · have hskip : maps.scanLine hooks scan line = scan := by
          rw [Maps.scanLine, if_pos (by simpa using h)]
        rw [List.filter_cons_of_neg h, List.foldl_cons, hskip]
        exact ih scan

/-- A refresh that reads the file of the kernel is a refresh over the mappings of the process,
from any contents of the buffers. -/
theorem refresh_text {π : Type*} (maps : Maps π) (pad : Vma → ℕ) {vmas : List Vma}
    (h : ∀ v ∈ vmas, v.Printable (pad v)) (vars : MapsVars) (s : Hooks π) :
    xhCoreRefreshText maps (some (Text.unlines (vmas.map fun v => v.text (pad v)))) vars s =
      xhCoreRefreshImpl { maps with lines := vmas.map Vma.mapsLine } true s := by
  simp only [xhCoreRefreshText, xhCoreRefreshImpl, Bool.not_true, Bool.false_eq_true, ↓reduceIte]
  rw [readMaps_text pad h vars, foldl_scanLine_accepted]
  rfl

/-- A library with its data segment, and a stack. -/
def printedMaps : List Vma := [
  ⟨0xb6f00000, 0xb6f10000, true, false, true, false, 0, 0xfd, 0, 1283,
    "/system/lib/libart.so".toList⟩,
  ⟨0xb6f10000, 0xb6f12000, true, true, false, false, 0x10000, 0xfd, 0, 1283,
    "/system/lib/libart.so".toList⟩,
  ⟨0xbe800000, 0xbe821000, true, true, false, false, 0, 0, 0, 0, "[stack]".toList⟩]

theorem printedMaps_printable : ∀ v ∈ printedMaps, v.Printable 10 := by
  have hlength : ∀ v ∈ printedMaps, (v.text 10).length + 1 ≤ 511 := by
    simp [printedMaps, Vma.text, numeral, Vma.perms, Nat.toDigits, Nat.toDigitsCore]
  have hnumbers : ∀ v ∈ printedMaps,
      v.offset < 2 ^ 64 ∧ v.major < 2 ^ 64 ∧ v.minor < 2 ^ 64 ∧ v.inode < 2 ^ 64 := by
    simp [printedMaps]
  have hname : ∀ v ∈ printedMaps, ('\n' ∉ v.name ∧ nul ∉ v.name) ∧
      ∀ c ∈ v.name.head?, isSpace c = false := by
    simp [printedMaps, nul, isSpace]
  intro v hv
  obtain ⟨hoffset, hmajor, hminor, hinode⟩ := hnumbers v hv
  obtain ⟨hplain, hblank⟩ := hname v hv
  exact ⟨hoffset, hmajor, hminor, hinode, hplain, hblank, by decide, hlength v hv⟩

/-- The buffers are those of a line before. -/
theorem refresh_text_printedMaps :
    xhCoreRefreshText (fopenMaps []) (some (Text.unlines (printedMaps.map fun v => v.text 10)))
      ⟨"stale".toList, "rwxp".toList, 7⟩ ⟨{ hookInfo := [dlFopen, artFopen] }, ⟨memoryOf [], 1⟩⟩ =
    xhCoreRefreshImpl (fopenMaps (printedMaps.map Vma.mapsLine)) true
      ⟨{ hookInfo := [dlFopen, artFopen] }, ⟨memoryOf [], 1⟩⟩ :=
  refresh_text (fopenMaps []) (fun _ => 10) printedMaps_printable _ _

end Patrons.Xhook
