import Patrons.Model.Status

/-! # What `readVssSize` reads

The first line that mentions `vmsize` decides the answer, and the name of the process comes
ahead of the `VmSize` line. -/

namespace Patrons

open Prog Text

namespace Watcher

variable {locale : Locale}

/-! ## The digits of a line -/

theorem isDigit_of_mem_digitsOf {content : List Char} {c : Char} (h : c ∈ digitsOf content) :
    c.isDigit = true :=
  (List.mem_filter.mp h).2

theorem digitsOf_toLowerCase (content : List Char) :
    digitsOf (locale.toLowerCase content) = digitsOf content :=
  locale.digits content

theorem not_le_space {c : Char} (h : c.isDigit = true) : ¬c ≤ ' ' := by
  simp only [Char.isDigit, ge_iff_le, Bool.and_eq_true, decide_eq_true_eq] at h
  intro hle
  exact absurd (UInt32.le_trans h.1 hle) (by decide)

theorem trim_digits {ds : List Char} (h : ∀ c ∈ ds, c.isDigit = true) : trim ds = ds := by
  have hkeep : ∀ l : List Char, (∀ c ∈ l, c.isDigit = true) → l.dropWhile (· ≤ ' ') = l := by
    intro l hl
    cases l with
    | nil => rfl
    | cons c l =>
        have hc : ¬c ≤ ' ' := not_le_space (hl c (by simp))
        rw [List.dropWhile_cons_of_neg (by simpa using hc)]
  rw [trim, hkeep ds h, hkeep ds.reverse fun c hc => h c (List.mem_reverse.mp hc),
    List.reverse_reverse]

/-- On digits only `parseInt` is the value of the numeral, where there is one in range. -/
theorem parseInt_digits {ds : List Char} (h : ∀ c ∈ ds, c.isDigit = true) :
    parseInt ds =
      if ds ≠ [] ∧ Nat.ofDigitChars 10 ds 0 < 2 ^ 31 then
        some (Int32.ofInt (Nat.ofDigitChars 10 ds 0))
      else none := by
  have hall : ds.all Char.isDigit = true := List.all_eq_true.mpr h
  have hsign : ∀ c : Char, c.isDigit = false → (ds.head? == some c) = false := by
    intro c hc
    cases ds with
    | nil => rfl
    | cons d ds =>
        have hd := h d (by simp)
        rw [beq_eq_false_iff_ne]
        rintro heq
        obtain rfl : d = c := by simpa using heq
        rw [hd] at hc
        exact absurd hc (by simp)
  rw [parseInt, hsign '-' (by decide), hsign '+' (by decide)]
  simp only [Bool.or_self, Bool.false_eq_true, if_false, hall, not_true_eq_false, or_false]
  by_cases hnil : ds = []
  · simp [hnil]
  · rw [if_neg hnil]
    by_cases hlt : Nat.ofDigitChars 10 ds 0 < 2 ^ 31
    · rw [if_pos (by omega), if_pos ⟨hnil, hlt⟩]
    · rw [if_neg (by omega), if_neg fun h => hlt h.2]

/-! ## The line that decides -/

def firstMention (locale : Locale) (text : List Char) : Option (List Char) :=
  (lines text).find? (mentions locale)

theorem vssOfLines_eq (ls : List (List Char)) :
    vssOfLines locale ls =
      match ls.find? (mentions locale) with
      | none => some (-1)
      | some content => (parseInt (digitsOf content)).map (·.toInt64 * bytesOfKB) := by
  induction ls with
  | nil => rfl
  | cons content ls ih =>
      rw [vssOfLines, List.find?_cons]
      cases mentions locale content with
      | false => exact ih
      | true =>
          rw [digitsOf_toLowerCase, trim_digits fun c hc => isDigit_of_mem_digitsOf hc]
          rfl

theorem toInt_mul_bytesOfKB {n : ℕ} (h : n < 2 ^ 31) :
    ((Int32.ofInt n).toInt64 * bytesOfKB).toInt = n * 1024 := by
  have hn : (Int32.ofInt n).toInt = n := by
    have hsize : Int32.size = 2 ^ 32 := rfl
    rw [Int32.toInt_ofInt, hsize]
    exact Int.bmod_eq_of_le (by omega) (by omega)
  have hk : bytesOfKB.toInt = 1024 := by decide
  rw [Int64.toInt_mul, Int32.toInt_toInt64, hn, hk]
  exact Int.bmod_eq_of_le (by omega) (by omega)

theorem readVssSize_eq (locale : Locale) (text : List Char) :
    (readVssSize locale (some text)).toInt =
      match firstMention locale text with
      | none => -1
      | some content =>
        if digitsOf content ≠ [] ∧ Nat.ofDigitChars 10 (digitsOf content) 0 < 2 ^ 31 then
          (Nat.ofDigitChars 10 (digitsOf content) 0 : ℤ) * 1024
        else -1 := by
  rw [readVssSize, Option.bind_some, vssOfLines_eq, firstMention]
  cases (lines text).find? (mentions locale) with
  | none => decide
  | some content =>
      simp only
      rw [parseInt_digits fun c hc => isDigit_of_mem_digitsOf hc]
      split
      · rename_i h
        exact toInt_mul_bytesOfKB h.2
      · decide

/-! ## The line of the kernel -/

theorem toNat_of_isDigit {c : Char} (h : c.isDigit = true) : 48 ≤ c.toNat ∧ c.toNat ≤ 57 := by
  simpa [Char.isDigit, UInt32.le_iff_toNat_le] using h

theorem mem_vmSizeLine {spaces n : ℕ} {c : Char} (h : c ∈ Status.vmSizeLine spaces n) :
    c ∈ "VmSize:\t kB".toList ∨ c.isDigit = true := by
  simp only [Status.vmSizeLine, Status.fieldLine, Status.kiloBytes, List.mem_append, List.mem_cons,
    List.mem_replicate] at h
  have hkey : "VmSize".toList ⊆ "VmSize:\t kB".toList := by decide
  have hunit : " kB".toList ⊆ "VmSize:\t kB".toList := by decide
  rcases h with h | rfl | rfl | (⟨-, rfl⟩ | h) | h
  · exact .inl (hkey h)
  · exact .inl (by decide)
  · exact .inl (by decide)
  · exact .inl (by decide)
  · exact .inr (Nat.isDigit_of_mem_toDigits (by decide) (by decide) h)
  · exact .inl (hunit h)

theorem vmSizeLine_ascii {spaces n : ℕ} :
    ∀ c ∈ Status.vmSizeLine spaces n, c.toNat < 128 ∧ c ≠ 'I' ∧ c ≠ '\n' ∧ c ≠ '\r' := by
  have htext : ∀ c ∈ "VmSize:\t kB".toList,
      c.toNat < 128 ∧ c ≠ 'I' ∧ c ≠ '\n' ∧ c ≠ '\r' := by simp
  intro c hc
  rcases mem_vmSizeLine hc with hc | hc
  · exact htext c hc
  · have hrange := toNat_of_isDigit hc
    refine ⟨by omega, ?_, ?_, ?_⟩ <;> rintro rfl <;> exact absurd hc (by decide)

theorem mentions_vmSizeLine (spaces n : ℕ) :
    mentions locale (Status.vmSizeLine spaces n) = true := by
  have hlower := locale.ascii (Status.vmSizeLine spaces n) fun c hc =>
    ⟨(vmSizeLine_ascii c hc).1, (vmSizeLine_ascii c hc).2.1⟩
  have hline : Status.vmSizeLine spaces n =
      "VmSize".toList ++ ':' :: '\t' :: Status.kiloBytes spaces n := rfl
  have hkey : "VmSize".toList.map Char.toLower = "vmsize".toList := by decide
  have hinfix : "vmsize".toList <:+: (Status.vmSizeLine spaces n).map Char.toLower := by
    rw [hline, List.map_append, hkey]
    exact List.infix_append_left
  exact decide_eq_true (hlower ▸ hinfix)

theorem digitsOf_vmSizeLine (spaces n : ℕ) :
    digitsOf (Status.vmSizeLine spaces n) = Nat.toDigits 10 n := by
  have hdigits : (Nat.toDigits 10 n).filter Char.isDigit = Nat.toDigits 10 n :=
    List.filter_eq_self.mpr fun c hc => Nat.isDigit_of_mem_toDigits (by decide) (by decide) hc
  have hspaces : (List.replicate spaces ' ').filter Char.isDigit = [] := by
    rw [List.filter_eq_nil_iff]
    intro c hc
    rw [List.eq_of_mem_replicate hc]
    decide
  have hkey : "VmSize".toList.filter Char.isDigit = [] := by decide
  have hunit : " kB".toList.filter Char.isDigit = [] := by decide
  have hcolon : ∀ l : List Char, (':' :: '\t' :: l).filter Char.isDigit = l.filter Char.isDigit :=
    fun l => rfl
  rw [digitsOf, Status.vmSizeLine, Status.fieldLine, Status.kiloBytes, List.filter_append, hkey,
    hcolon, List.filter_append, List.filter_append, hspaces, hdigits, hunit, List.append_nil]
  rfl

theorem lines_text (s : Status) :
    lines s.text = lines s.head ++ Status.vmSizeLine s.spaces s.vmSize ::
      lines (unlines (Status.fieldLines s.after)) := by
  have hsplit : s.text = s.head ++ (Status.vmSizeLine s.spaces s.vmSize ++
      '\n' :: unlines (Status.fieldLines s.after)) := by
    simp [Status.text, Status.head, unlines]
  rw [hsplit, Status.head, lines_unlines_append, lines_line]
  · exact fun h => (vmSizeLine_ascii _ h).2.2.1 rfl
  · exact fun h => (vmSizeLine_ascii _ h).2.2.2 rfl

/-- The `VmSize` line decides unless a line ahead of it mentions `vmsize`. -/
theorem firstMention_text (locale : Locale) (s : Status) :
    firstMention locale s.text =
      (firstMention locale s.head).or (some (Status.vmSizeLine s.spaces s.vmSize)) := by
  rw [firstMention, lines_text, List.find?_append, List.find?_cons, mentions_vmSizeLine]
  rfl

theorem readVssSize_vmSize_iff (locale : Locale) (s : Status) :
    (readVssSize locale (some s.text)).toInt = s.vmSize * 1024 ↔
      ∀ content, firstMention locale s.head = some content →
        Spells (digitsOf content) s.vmSize := by
  have hlt := s.vmSize_lt
  rw [readVssSize_eq, firstMention_text]
  cases firstMention locale s.head with
  | none =>
      obtain ⟨hne, hvalue⟩ := spells_toDigits s.vmSize
      simp only [Option.none_or, digitsOf_vmSizeLine, hvalue, hne, ne_eq, not_false_eq_true, hlt,
        true_and, if_true, reduceCtorEq, IsEmpty.forall_iff, implies_true]
  | some content =>
      simp only [Option.some_or, Option.some.injEq, forall_eq']
      constructor
      · intro h
        split at h
        · rename_i hdigits
          exact ⟨hdigits.1, Int.ofNat_inj.mp (Int.eq_of_mul_eq_mul_right (by decide) h)⟩
        · omega
      · rintro ⟨hne, hvalue⟩
        rw [hvalue, if_pos ⟨hne, hlt⟩]

theorem readVssSize_missing_iff (locale : Locale) (text : List Char) :
    readVssSize locale (some text) = -1 ↔
      ∀ content, firstMention locale text = some content →
        ∀ n < 2 ^ 31, ¬Spells (digitsOf content) n := by
  have hminus : (-1 : Int64).toInt = -1 := by decide
  rw [← Int64.toInt_inj, hminus, readVssSize_eq]
  cases firstMention locale text with
  | none => simp
  | some content =>
      simp only [Option.some.injEq, forall_eq']
      constructor
      · rintro h n hn ⟨hne, hvalue⟩
        rw [if_pos ⟨hne, hvalue ▸ hn⟩] at h
        omega
      · intro h
        rw [if_neg]
        rintro ⟨hne, hn⟩
        exact h _ hn ⟨hne, rfl⟩

/-- The status is read right exactly when no line ahead of `VmSize` mentions `vmsize`, or the
digits of the first one that does are the same number; a text without that line is answered
with `-1` exactly when no line mentions `vmsize`, or the digits of the first one that does are
no `int`. -/
theorem readVssSize_iff (locale : Locale) :
    (∀ s : Status, (readVssSize locale (some s.text)).toInt = s.vmSize * 1024 ↔
      ∀ content, firstMention locale s.head = some content →
        Spells (digitsOf content) s.vmSize) ∧
    ∀ text : List Char, readVssSize locale (some text) = -1 ↔
      ∀ content, firstMention locale text = some content →
        ∀ n < 2 ^ 31, ¬Spells (digitsOf content) n :=
  ⟨readVssSize_vmSize_iff locale, readVssSize_missing_iff locale⟩

/-- A name that mentions `vmsize` without digits makes an automatic init fail. -/
theorem startWatching_of_mention {s : Status} {content : List Char} {r : InitReads} {w : Watcher}
    (hmention : firstMention locale s.head = some content) (hdigits : digitsOf content = [])
    (hread : r.vssSize = readVssSize locale (some s.text)) (hauto : w.config.auto = true)
    (hrange : 0 < w.readRegionSpaces.currentRegionSpaces ∧
      w.readRegionSpaces.currentRegionSpaces ≤ 1024)
    (hlimit : w.config.lowerLimit.toInt64 ≤ w.readRegionSpaces.currentRegionSpaces) :
    (startWatching r).run noSites w = .done 1001 w.readRegionSpaces := by
  have hfailed : r.vssSize = -1 := by
    rw [hread, readVssSize_missing_iff, firstMention_text, hmention]
    intro c hc n _ hspells
    obtain rfl : content = c := Option.some.inj hc
    exact hspells.1 hdigits
  have hneg : r.vssSize < 0 := by
    rw [hfailed]
    decide
  have hsize : ¬(w.readRegionSpaces.currentRegionSpaces ≤ 0 ||
      1024 < w.readRegionSpaces.currentRegionSpaces) = true := by
    simp only [Int64.lt_iff_toInt_lt, Int64.le_iff_toInt_le] at hrange
    simp only [Bool.or_eq_true, decide_eq_true_eq, not_or, Int64.le_iff_toInt_le,
      Int64.lt_iff_toInt_lt]
    exact ⟨Int.not_le.mpr hrange.1, Int.not_lt.mpr hrange.2⟩
  have hfloor : ¬w.readRegionSpaces.currentRegionSpaces <
      w.readRegionSpaces.config.lowerLimit.toInt64 := by
    rw [Int64.lt_iff_toInt_lt, Int.not_lt, ← Int64.le_iff_toInt_le]
    exact hlimit
  have hchecks : w.readRegionSpaces.config.auto = true := hauto
  simp only [startWatching, run_bind, run_modify, run_get, Outcome.bind_done, run_ite, run_pure]
  rw [if_neg hsize, if_neg hfloor, if_pos hchecks, if_pos hneg]

/-! ### A process with `vmsize` in its name -/

theorem isDigit_toLower (c : Char) : c.toLower.isDigit = c.isDigit := by
  unfold Char.toLower
  split
  · rename_i h
    rw [Bool.eq_iff_iff]
    simp only [Char.isDigit, ge_iff_le, UInt32.le_iff_toNat_le, UInt32.toNat_add, Char.reduceVal,
      UInt32.reduceSub, UInt32.reduceToNat, Bool.and_eq_true, decide_eq_true_eq] at h ⊢
    omega
  · rfl

theorem toLower_of_isDigit {c : Char} (h : c.isDigit = true) : c.toLower = c := by
  have hrange := toNat_of_isDigit h
  unfold Char.toLower
  split
  · rename_i hc
    simp only [ge_iff_le, UInt32.le_iff_toNat_le, Char.reduceVal, UInt32.reduceToNat] at hc
    have hval : c.val.toNat = c.toNat := rfl
    omega
  · rfl

def rootLocale : Locale where
  toLowerCase s := s.map Char.toLower
  ascii _ _ := rfl
  digits s := by
    rw [List.filter_map]
    have hsame : Char.isDigit ∘ Char.toLower = Char.isDigit := funext isDigit_toLower
    have hkeep : ∀ c ∈ s.filter Char.isDigit, c.toLower = id c := fun c hc =>
      toLower_of_isDigit (List.mem_filter.mp hc).2
    rw [hsame, List.map_congr_left hkeep, List.map_id]

/-- A process named `com.vmsize`, with 3 GB of address space. -/
def vmsizeProcess : Status where
  name := "com.vmsize".toList
  before := [⟨"Umask".toList, "0077".toList, by decide, by decide, by decide⟩]
  spaces := 1
  vmSize := 3145728
  after := [⟨"VmLck".toList, "       0 kB".toList, by decide, by decide, by decide⟩]
  name_newline := by decide
  vmSize_lt := by decide

/-- The name decides what is read, with and without a `VmSize` line. -/
theorem readVssSize_of_name :
    (readVssSize rootLocale (some vmsizeProcess.text)).toInt ≠ vmsizeProcess.vmSize * 1024 ∧
      readVssSize rootLocale (some vmsizeProcess.text) = -1 ∧
      (∀ content ∈ lines "Name:\tvmsize4\n".toList, ¬"VmSize:".toList <+: content) ∧
      readVssSize rootLocale (some "Name:\tvmsize4\n".toList) = 4096 := by
  decide +kernel

end Watcher
end Patrons
