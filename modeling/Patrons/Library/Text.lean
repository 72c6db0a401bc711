import Mathlib.Data.List.Basic

/-! # Lines and numerals of a text

A line ends with a line feed, a carriage return, or both in this order; what follows the last
of them is a line when it is not empty. -/

namespace Patrons

namespace Text

/-- The lines of a text, of which `line` has been read. After a carriage return a line feed is
skipped. -/
def linesFrom (line : List Char) (skipLF : Bool) : List Char → List (List Char)
  | [] => if line = [] then [] else [line]
  | c :: cs =>
    if c = '\n' then
      if skipLF then linesFrom line false cs else line :: linesFrom [] false cs
    else if c = '\r' then line :: linesFrom [] true cs
    else linesFrom (line ++ [c]) false cs

def lines (text : List Char) : List (List Char) := linesFrom [] false text

def unlines (ls : List (List Char)) : List Char := ls.flatMap (· ++ ['\n'])

@[simp] theorem lines_nil : lines [] = [] := rfl

theorem linesFrom_append_newline {line : List Char} {skipLF : Bool}
    (h : skipLF = true → line = []) (cs text : List Char) :
    linesFrom line skipLF (cs ++ '\n' :: text) =
      linesFrom line skipLF (cs ++ ['\n']) ++ lines text := by
  induction cs generalizing line skipLF with
  | nil =>
      cases skipLF with
      | false => rfl
      | true =>
          rw [h rfl]
          rfl
  | cons c cs ih =>
      simp only [List.cons_append, linesFrom]
      split
      · split
        · exact ih (by simp)
        · rw [ih (by simp), List.cons_append]
      · split
        · rw [ih (by simp), List.cons_append]
        · exact ih (by simp)

theorem lines_append_newline (cs text : List Char) :
    lines (cs ++ '\n' :: text) = lines (cs ++ ['\n']) ++ lines text :=
  linesFrom_append_newline (by simp) cs text

theorem lines_unlines_append (ls : List (List Char)) (text : List Char) :
    lines (unlines ls ++ text) = lines (unlines ls) ++ lines text := by
  induction ls with
  | nil => rfl
  | cons l ls ih =>
      have hcons : ∀ t, unlines (l :: ls) ++ t = l ++ '\n' :: (unlines ls ++ t) := by
        intro t
        simp [unlines]
      have hnil : unlines (l :: ls) = l ++ '\n' :: unlines ls := by simpa using hcons []
      rw [hcons, hnil, lines_append_newline, ih, lines_append_newline l (unlines ls),
        List.append_assoc]

/-- A line without terminators inside is read as it is. -/
theorem linesFrom_line {line cs : List Char} (hlf : '\n' ∉ cs) (hcr : '\r' ∉ cs)
    (text : List Char) :
    linesFrom line false (cs ++ '\n' :: text) = (line ++ cs) :: lines text := by
  induction cs generalizing line with
  | nil => simp [linesFrom, lines]
  | cons c cs ih =>
      simp only [List.mem_cons, not_or] at hlf hcr
      rw [List.cons_append, linesFrom, if_neg (Ne.symm hlf.1), if_neg (Ne.symm hcr.1),
        ih hlf.2 hcr.2]
      simp

theorem lines_line {cs : List Char} (hlf : '\n' ∉ cs) (hcr : '\r' ∉ cs) (text : List Char) :
    lines (cs ++ '\n' :: text) = cs :: lines text :=
  linesFrom_line hlf hcr text

/-! ## Numerals -/

/-- The digits `ds` are a decimal numeral of `n`. -/
def Spells (ds : List Char) (n : ℕ) : Prop := ds ≠ [] ∧ Nat.ofDigitChars 10 ds 0 = n

instance (ds : List Char) (n : ℕ) : Decidable (Spells ds n) := inferInstanceAs (Decidable (_ ∧ _))

theorem spells_toDigits (n : ℕ) : Spells (Nat.toDigits 10 n) n :=
  ⟨Nat.toDigits_ne_nil, Nat.ofDigitChars_ten_toDigits⟩

theorem Spells.unique {ds : List Char} {m n : ℕ} (hm : Spells ds m) (hn : Spells ds n) : m = n :=
  hm.2.symm.trans hn.2

end Text
end Patrons
