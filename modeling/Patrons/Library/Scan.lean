import Mathlib.Algebra.Order.Ring.Nat
import Mathlib.Data.List.TakeWhile
import Patrons.Library.Text

/-! # Formatted reading of text

`fgets` cuts a text into pieces of bounded length, and `scanf` reads numbers and words from a
piece. A directive that does not match ends the reading, and what was read before stays. -/

namespace Patrons

namespace Scan

def isSpace (c : Char) : Bool := c.toNat == 32 || (9 ≤ c.toNat && c.toNat ≤ 13)

/-- The pieces that `fgets` reads into a buffer of `n + 1` characters; `piece` has been read. -/
def piecesFrom (n : ℕ) (piece : List Char) : List Char → List (List Char)
  | [] => if piece = [] then [] else [piece]
  | c :: cs =>
    if c = '\n' ∨ n ≤ piece.length + 1 then (piece ++ [c]) :: piecesFrom n [] cs
    else piecesFrom n (piece ++ [c]) cs

def pieces (n : ℕ) (text : List Char) : List (List Char) := piecesFrom n [] text

/-! ## Numerals -/

def hexVal (c : Char) : Option ℕ :=
  if 48 ≤ c.toNat ∧ c.toNat ≤ 57 then some (c.toNat - 48)
  else if 97 ≤ c.toNat ∧ c.toNat ≤ 102 then some (c.toNat - 87)
  else if 65 ≤ c.toNat ∧ c.toNat ≤ 70 then some (c.toNat - 55)
  else none

def digitVal (base : ℕ) (c : Char) : Option ℕ := (hexVal c).filter (· < base)

/-- The digits at the start of a text: their value after `v`, and the rest. -/
def digits (base : ℕ) (v : ℕ) : List Char → ℕ × List Char
  | [] => (v, [])
  | c :: cs =>
    match digitVal base c with
    | some d => digits base (base * v + d) cs
    | none => (v, c :: cs)

def sign : List Char → Bool × List Char
  | '-' :: cs => (true, cs)
  | '+' :: cs => (false, cs)
  | cs => (false, cs)

/-- Skips `0x` in front of a digit. -/
def skipPrefix : List Char → List Char
  | '0' :: x :: c :: cs =>
    if (x = 'x' ∨ x = 'X') ∧ (hexVal c).isSome then c :: cs else '0' :: x :: c :: cs
  | cs => cs

/-- `strtoumax`, for digits of the value `v`. -/
def umax (negative : Bool) (v : ℕ) : ℕ :=
  if 2 ^ 64 ≤ v then 2 ^ 64 - 1 else if negative then (2 ^ 64 - v) % 2 ^ 64 else v

def number (base : ℕ) (text : List Char) : Option (ℕ × List Char) :=
  let (negative, cs) := sign (text.dropWhile isSpace)
  let cs := if base = 16 then skipPrefix cs else cs
  match cs with
  | [] => none
  | c :: _ =>
    if (digitVal base c).isNone then none
    else
      let (v, rest) := digits base 0 cs
      some (umax negative v, rest)

def word (width : ℕ) (text : List Char) : Option (List Char × List Char) :=
  let cs := text.dropWhile isSpace
  let w := (cs.take width).takeWhile (!isSpace ·)
  if w = [] then none else some (w, cs.drop w.length)

/-! ## Formats -/

inductive Directive where
  | num (base : ℕ)
  | skipNum (base : ℕ)
  | word (width : ℕ)
  | lit (c : Char)
  | space
  | count

/-- What a directive stores. -/
inductive Value where
  | num (n : ℕ)
  | word (w : List Char)
  | count (n : ℕ)
  deriving DecidableEq

/-- `sscanf` on a text of which `text` is left; `len` is its length at the start. -/
def scan (len : ℕ) : List Directive → List Char → List Value
  | [], _ => []
  | .num base :: fmt, text =>
    match number base text with
    | some (n, rest) => .num n :: scan len fmt rest
    | none => []
  | .skipNum base :: fmt, text =>
    match number base text with
    | some (_, rest) => scan len fmt rest
    | none => []
  | .word width :: fmt, text =>
    match word width text with
    | some (w, rest) => .word w :: scan len fmt rest
    | none => []
  | .lit c :: fmt, text =>
    match text with
    | c' :: rest => if c' = c then scan len fmt rest else []
    | [] => []
  | .space :: fmt, text => scan len fmt (text.dropWhile isSpace)
  | .count :: fmt, text => .count (len - text.length) :: scan len fmt text

/-! ## Reading a line -/

theorem piecesFrom_line {n : ℕ} {piece line : List Char} (hline : '\n' ∉ line)
    (hn : piece.length + line.length + 1 ≤ n) (text : List Char) :
    piecesFrom n piece (line ++ '\n' :: text) = (piece ++ line ++ ['\n']) :: pieces n text := by
  induction line generalizing piece with
  | nil => simp [piecesFrom, pieces]
  | cons c cs ih =>
      rw [List.mem_cons, not_or] at hline
      rw [List.length_cons] at hn
      have hmore : ¬(c = '\n' ∨ n ≤ piece.length + 1) := by
        rintro (hc | hlen)
        · exact hline.1 hc.symm
        · omega
      rw [List.cons_append, piecesFrom, if_neg hmore, ih hline.2 (by simp; omega)]
      simp

theorem pieces_lines {n : ℕ} {ls : List (List Char)}
    (h : ∀ l ∈ ls, '\n' ∉ l ∧ l.length + 1 ≤ n) :
    pieces n (Text.unlines ls) = ls.map (· ++ ['\n']) := by
  induction ls with
  | nil => rfl
  | cons l ls ih =>
      obtain ⟨hl, hlen⟩ := h l (by simp)
      have hcons : Text.unlines (l :: ls) = l ++ '\n' :: Text.unlines ls := by
        simp [Text.unlines]
      rw [hcons, pieces, piecesFrom_line hl (by simpa using hlen),
        ih fun l' hl' => h l' (List.mem_cons_of_mem l hl')]
      rfl

/-! ## Reading a numeral back -/

/-- The numeral with at least `width` digits. -/
def numeral (base width n : ℕ) : List Char :=
  List.replicate (width - (Nat.toDigits base n).length) '0' ++ Nat.toDigits base n

/-- No numeral goes on here. -/
def Stops (base : ℕ) (rest : List Char) : Prop :=
  ∀ c ∈ rest.head?, digitVal base c = none ∧ c ≠ 'x' ∧ c ≠ 'X'

theorem hexVal_digitChar : ∀ d < 16, hexVal (Nat.digitChar d) = some d := by
  decide

theorem digitVal_digitChar {base d : ℕ} (hbase : base ≤ 16) (hd : d < base) :
    digitVal base (Nat.digitChar d) = some d := by
  rw [digitVal, hexVal_digitChar d (by omega), Option.filter_some, if_pos (by simpa using hd)]

theorem digitVal_zero {base : ℕ} (hbase : 2 ≤ base ∧ base ≤ 16) : digitVal base '0' = some 0 :=
  digitVal_digitChar (d := 0) hbase.2 (by omega)

/-- Digits are neither spaces nor signs nor part of a prefix. -/
theorem of_hexVal {c : Char} (h : hexVal c ≠ none) :
    isSpace c = false ∧ c ≠ '-' ∧ c ≠ '+' ∧ c ≠ 'x' ∧ c ≠ 'X' := by
  have hnot : ∀ d : Char, hexVal d = none → c ≠ d := by
    rintro d hd rfl
    exact h hd
  refine ⟨?_, hnot _ (by decide), hnot _ (by decide), hnot _ (by decide), hnot _ (by decide)⟩
  have hrange : 48 ≤ c.toNat := by
    by_contra hlt
    apply h
    rw [hexVal, if_neg (by omega), if_neg (by omega), if_neg (by omega)]
  rw [isSpace, Bool.or_eq_false_iff, Bool.and_eq_false_iff, beq_eq_false_iff_ne,
    decide_eq_false_iff_not, decide_eq_false_iff_not]
  omega

theorem digitVal_of_mem_numeral {base width n : ℕ} (hbase : 2 ≤ base ∧ base ≤ 16) {c : Char}
    (hc : c ∈ numeral base width n) : digitVal base c ≠ none := by
  have hdigits : ∀ n, ∀ c ∈ Nat.toDigits base n, digitVal base c ≠ none := by
    intro n
    induction n using Nat.strongRecOn with
    | ind n ih =>
        intro c hc
        by_cases hn : n < base
        · rw [Nat.toDigits_of_lt_base hn, List.mem_singleton] at hc
          rw [hc, digitVal_digitChar hbase.2 hn]
          simp
        · rw [Nat.toDigits_of_base_le (by omega) (by omega), List.mem_append] at hc
          rcases hc with hc | hc
          · exact ih (n / base) (Nat.div_lt_self (by omega) (by omega)) c hc
          · rw [List.mem_singleton.mp hc, digitVal_digitChar hbase.2 (Nat.mod_lt n (by omega))]
            simp
  rcases List.mem_append.mp hc with hc | hc
  · obtain rfl := List.eq_of_mem_replicate hc
    simp [digitVal_zero hbase]
  · exact hdigits n c hc

theorem digits_of_stops {base v : ℕ} {rest : List Char} (h : Stops base rest) :
    digits base v rest = (v, rest) := by
  cases rest with
  | nil => rfl
  | cons c cs => rw [digits, (h c rfl).1]

theorem digits_toDigits {base : ℕ} (hbase : 2 ≤ base ∧ base ≤ 16) (n : ℕ) (rest : List Char) :
    digits base 0 (Nat.toDigits base n ++ rest) = digits base n rest := by
  induction n using Nat.strongRecOn generalizing rest with
  | ind n ih =>
      by_cases hn : n < base
      · rw [Nat.toDigits_of_lt_base hn, List.singleton_append, digits,
          digitVal_digitChar hbase.2 hn]
        simp
      · rw [Nat.toDigits_of_base_le (by omega) (by omega), List.append_assoc,
          ih (n / base) (Nat.div_lt_self (by omega) (by omega)), List.singleton_append, digits,
          digitVal_digitChar hbase.2 (Nat.mod_lt n (by omega))]
        simp only
        rw [Nat.div_add_mod]

theorem digits_numeral {base : ℕ} (hbase : 2 ≤ base ∧ base ≤ 16) (width n : ℕ)
    {rest : List Char} (h : Stops base rest) :
    digits base 0 (numeral base width n ++ rest) = (n, rest) := by
  have hzeros : ∀ k cs, digits base 0 (List.replicate k '0' ++ cs) = digits base 0 cs := by
    intro k cs
    induction k with
    | zero => rfl
    | succ k ih =>
        rw [List.replicate_succ, List.cons_append, digits, digitVal_zero hbase]
        exact ih
  rw [numeral, List.append_assoc, hzeros, digits_toDigits hbase, digits_of_stops h]

/-- No `x` comes second, so there is no prefix to skip. -/
theorem skipPrefix_of {cs : List Char} (h : ∀ x ∈ cs[1]?, x ≠ 'x' ∧ x ≠ 'X') :
    skipPrefix cs = cs := by
  unfold skipPrefix
  split
  · rename_i x c cs
    obtain ⟨h₁, h₂⟩ := h x (by simp)
    rw [if_neg (by simp [h₁, h₂])]
  · rfl

/-- A numeral is read back. -/
theorem number_numeral {base : ℕ} (hbase : 2 ≤ base ∧ base ≤ 16) (width : ℕ) {n : ℕ}
    (hn : n < 2 ^ 64) {rest : List Char} (h : Stops base rest) :
    number base (numeral base width n ++ rest) = some (n, rest) := by
  have hdigit : ∀ c ∈ numeral base width n, digitVal base c ≠ none := fun c hc =>
    digitVal_of_mem_numeral hbase hc
  have hdigits := digits_numeral hbase width n h
  have hne : numeral base width n ≠ [] := by
    simp [numeral, Nat.toDigits_ne_nil]
  generalize numeral base width n = ds at hdigit hdigits hne
  cases ds with
  | nil => exact absurd rfl hne
  | cons d ds =>
      have hplain : ∀ c ∈ d :: ds, hexVal c ≠ none := by
        intro c hc hnone
        exact hdigit c hc (by rw [digitVal, hnone]; rfl)
      obtain ⟨hspace, hminus, hplus, -, -⟩ := of_hexVal (hplain d (by simp))
      have hsign : sign ((d :: ds ++ rest).dropWhile isSpace) = (false, d :: ds ++ rest) := by
        rw [List.cons_append, List.dropWhile_cons_of_neg (by simp [hspace])]
        unfold sign
        split
        · simp_all
        · simp_all
        · rfl
      have hskipped : skipPrefix (d :: ds ++ rest) = d :: ds ++ rest := by
        apply skipPrefix_of
        cases ds with
        | nil =>
            cases rest with
            | nil => simp
            | cons c cs => simpa using (h c rfl).2
        | cons c cs =>
            obtain ⟨-, -, -, hx, hX⟩ := of_hexVal (hplain c (by simp))
            simp [hx, hX]
      have hvalue : umax false n = n := by
        rw [umax, if_neg (by omega)]
        rfl
      have hhead : (digitVal base d).isNone = false := by
        simpa [Option.isNone_eq_false_iff, Option.isSome_iff_ne_none] using hdigit d (by simp)
      rw [number, hsign]
      simp only [hskipped, ite_self]
      rw [List.cons_append] at hdigits ⊢
      simp only [hhead, hdigits, hvalue]
      rfl

/-! ## Reading a word back -/

theorem word_append {w rest : List Char} (hw : w ≠ []) (hspace : ∀ c ∈ w, isSpace c = false) :
    word w.length (w ++ rest) = some (w, rest) := by
  have hdrop : (w ++ rest).dropWhile isSpace = w ++ rest := by
    cases w with
    | nil => exact absurd rfl hw
    | cons c cs => exact List.dropWhile_cons_of_neg (by simp [hspace c (by simp)])
  have htake : w.takeWhile (!isSpace ·) = w :=
    List.takeWhile_eq_self_iff.mpr fun c hc => by simp [hspace c hc]
  rw [word, hdrop, List.take_left]
  simp only [htake, if_neg hw, List.drop_left]

end Scan
end Patrons
