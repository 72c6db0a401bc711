import Mathlib.Data.List.Infix
import Patrons.Library.Text
import Patrons.Model.Watcher

/-! # Reading the status of the process

`readVssSize` looks for the `VmSize` line of `/proc/<pid>/status`. -/

namespace Patrons

/-- What `String.toLowerCase` does in the default locale. Every locale has the usual lower case
for ASCII text without an `I`, and none touches a decimal digit. -/
structure Locale where
  toLowerCase : List Char → List Char
  ascii : ∀ s : List Char, (∀ c ∈ s, c.toNat < 128 ∧ c ≠ 'I') → toLowerCase s = s.map Char.toLower
  digits : ∀ s, (toLowerCase s).filter Char.isDigit = s.filter Char.isDigit

namespace Watcher

def bytesOfKB : Int64 := 1024

/-- `numPattern.matcher(content).replaceAll("")`, where `numPattern` is `[^0-9]`. -/
def digitsOf (content : List Char) : List Char := content.filter Char.isDigit

def trim (s : List Char) : List Char :=
  ((s.dropWhile (· ≤ ' ')).reverse.dropWhile (· ≤ ' ')).reverse

/-- `Integer.parseInt` of ASCII text; `none` is a `NumberFormatException`. -/
def parseInt (s : List Char) : Option Int32 :=
  let negative := s.head? == some '-'
  let ds := if negative || s.head? == some '+' then s.tail else s
  if ds = [] ∨ ¬ ds.all Char.isDigit then none
  else
    let n : ℤ := Nat.ofDigitChars 10 ds 0
    let n := if negative then -n else n
    if -2 ^ 31 ≤ n ∧ n < 2 ^ 31 then some (Int32.ofInt n) else none

/-- `content.contains("vmsize")` after `content = content.toLowerCase()`. -/
def mentions (locale : Locale) (content : List Char) : Bool :=
  decide ("vmsize".toList <:+: locale.toLowerCase content)

/-- The loop of `readVssSize`; `none` is an exception. -/
def vssOfLines (locale : Locale) : List (List Char) → Option Int64
  | [] => some (-1)
  | content :: rest =>
    if mentions locale content then
      (parseInt (trim (digitsOf (locale.toLowerCase content)))).map (·.toInt64 * bytesOfKB)
    else vssOfLines locale rest

/-- `readVssSize` of the text of the status file, which is `none` where it cannot be read. -/
def readVssSize (locale : Locale) (status : Option (List Char)) : Int64 :=
  (status.bind fun text => vssOfLines locale (Text.lines text)).getD (-1)

end Watcher

/-! ## The format of the kernel -/

/-- A line `Key:<tab>value` with a key other than `VmSize`. -/
structure StatusField where
  key : List Char
  value : List Char
  key_ne : key ≠ "VmSize".toList
  key_colon : ':' ∉ key
  newline : '\n' ∉ key ++ value

/-- A status text: `Name` comes first, and one field is `VmSize`. -/
structure Status where
  name : List Char
  before : List StatusField
  spaces : ℕ
  vmSize : ℕ
  after : List StatusField
  name_newline : '\n' ∉ name
  vmSize_lt : vmSize < 2 ^ 31

namespace Status

def fieldLine (key value : List Char) : List Char := key ++ ':' :: '\t' :: value

def kiloBytes (spaces n : ℕ) : List Char :=
  List.replicate spaces ' ' ++ Nat.toDigits 10 n ++ " kB".toList

def vmSizeLine (spaces n : ℕ) : List Char := fieldLine "VmSize".toList (kiloBytes spaces n)

def fieldLines (fields : List StatusField) : List (List Char) :=
  fields.map fun f => fieldLine f.key f.value

variable (s : Status)

def headLines : List (List Char) := fieldLine "Name".toList s.name :: fieldLines s.before

def head : List Char := Text.unlines s.headLines

def text : List Char :=
  Text.unlines (s.headLines ++ [vmSizeLine s.spaces s.vmSize] ++ fieldLines s.after)

end Status

end Patrons
