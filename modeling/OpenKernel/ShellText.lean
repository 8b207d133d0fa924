import Mathlib.Data.List.DropRight
import OpenKernel.MachineWords
import OpenKernel.VfsTree

/-!
# Words and numbers in a command line

The text functions that the shell takes from the standard library: `trim`,
`split_whitespace`, the cut at the first space, and decimal numbers.  Text is
trimmed and split at the characters with the Unicode property `White_Space`; a
number is read with an optional sign and fails when it does not fit its type.
-/

namespace OpenKernel
namespace Shell

open Vfs

section Words

/-- The non-empty parts between the characters that satisfy `p`. -/
def partsBy {α : Type} (p : α → Bool) (s : List α) : List (List α) :=
  (s.splitOnP p).filter (fun part => !part.isEmpty)

variable {α : Type} {p : α → Bool}

theorem partsBy_cons
    {x : α} (hx : p x = true) (s : List α) :
    partsBy p (x :: s) = partsBy p s := by
  rw [partsBy, List.splitOnP_cons_eq_if_modifyHead, if_pos hx]
  rfl

theorem partsBy_concat
    {x : α} (hx : p x = true) (s : List α) :
    partsBy p (s ++ [x]) = partsBy p s := by
  rw [partsBy, List.splitOnP_append_cons _ _ hx, List.filter_append, List.splitOnP_nil]
  exact List.append_nil _

theorem partsBy_dropWhile
    (s : List α) :
    partsBy p (s.dropWhile p) = partsBy p s := by
  induction s with
  | nil => rfl
  | cons x s ih =>
      rw [List.dropWhile_cons]
      split
      · rename_i hx
        rw [ih, partsBy_cons hx]
      · rfl

theorem partsBy_rdropWhile
    (s : List α) :
    partsBy p (s.rdropWhile p) = partsBy p s := by
  induction s using List.reverseRecOn with
  | nil => rfl
  | append_singleton s x ih =>
      by_cases hx : p x = true
      · rw [List.rdropWhile_concat_pos _ _ _ hx, ih, partsBy_concat hx]
      · rw [List.rdropWhile_concat_neg _ _ _ hx]

/-- `char::is_whitespace`. -/
def isWhitespace (ch : Char) : Bool :=
  let n := ch.toNat
  (0x9 ≤ n && n ≤ 0xD) || n == 0x20 || n == 0x85 || n == 0xA0 || n == 0x1680 ||
    (0x2000 ≤ n && n ≤ 0x200A) || n == 0x2028 || n == 0x2029 || n == 0x202F || n == 0x205F ||
    n == 0x3000

/-- `str::trim`. -/
def trim (s : Str) : Str :=
  (s.dropWhile isWhitespace).rdropWhile isWhitespace

/-- `str::split_whitespace`. -/
def splitWhitespace (s : Str) : List Str :=
  partsBy isWhitespace s

/-- Blanks at the ends of a text do not change its words. -/
theorem splitWhitespace_trim
    (s : Str) :
    splitWhitespace (trim s) = splitWhitespace s := by
  rw [splitWhitespace, trim, partsBy_rdropWhile, partsBy_dropWhile]
  rfl

/-- `match s.find(' ')`: the text before the first space and the trimmed text after it. -/
def splitFirstSpace (s : Str) : Str × Str :=
  match s.idxOf? ' ' with
  | some idx => (s.take idx, trim (s.drop (idx + 1)))
  | none => (s, [])

/-- A word in front of a space is split off. -/
theorem splitFirstSpace_append
    {word : Str} (rest : Str)
    (h : ' ' ∉ word) :
    splitFirstSpace (word ++ ' ' :: rest) = (word, trim rest) := by
  have hword : word.findIdx? (· == ' ') = none := List.idxOf?_eq_none_iff.2 h
  have hidx : (word ++ ' ' :: rest).idxOf? ' ' = some word.length := by
    rw [List.idxOf?, List.findIdx?_append, hword]
    simp [List.findIdx?_cons]
  have hdrop : (word ++ ' ' :: rest).drop (word.length + 1) = rest := by
    rw [List.drop_length_add_append]
    rfl
  rw [splitFirstSpace, hidx]
  simp only [List.take_left, hdrop]

end Words

section Numbers

/-- `format!("{}", n)` of an unsigned number. -/
def natText (n : Nat) : Str :=
  Nat.toDigits 10 n

/-- `format!("{}", v)` of a signed number. -/
def intText (v : Int) : Str :=
  if v < 0 then '-' :: natText v.natAbs else natText v.natAbs

/-- A non-empty run of ASCII digits. -/
def digitsValue (s : Str) : Option Nat :=
  if s ≠ [] ∧ s.all Char.isDigit then
    some (Nat.ofDigitChars 10 s 0)
  else
    none

/-- `s.parse::<i64>()`, without the kind of the error. -/
def parseI64 (s : Str) : Option Int :=
  let value : Option Int :=
    match s with
    | '+' :: digits => (digitsValue digits).map Int.ofNat
    | '-' :: digits => (digitsValue digits).map (fun n => -Int.ofNat n)
    | digits => (digitsValue digits).map Int.ofNat
  value.filter (fun v => I64.Fits v)

/-- `s.parse::<usize>()`, without the kind of the error. -/
def parseUsize (s : Str) : Option Nat :=
  let value : Option Nat :=
    match s with
    | '+' :: digits => digitsValue digits
    | digits => digitsValue digits
  value.filter (fun n => n < 2 ^ 64)

theorem fits_of_parseI64
    {s : Str} {v : Int}
    (h : parseI64 s = some v) :
    I64.Fits v := by
  have hfilter := (Option.filter_eq_some_iff.1 h).2
  simpa using hfilter

/-- A number is printed with a digit or a minus sign first. -/
theorem head_intText
    (v : Int) :
    ∃ ch rest, intText v = ch :: rest ∧ (ch = '-' ∨ ch.isDigit = true) := by
  rw [intText]
  split
  · exact ⟨'-', _, rfl, Or.inl rfl⟩
  · rcases hdigits : natText v.natAbs with _ | ⟨ch, rest⟩
    · exact absurd hdigits Nat.toDigits_ne_nil
    · have hmem : ch ∈ Nat.toDigits 10 v.natAbs := by
        rw [natText] at hdigits
        simp [hdigits]
      exact ⟨ch, rest, rfl, Or.inr (Nat.isDigit_of_mem_toDigits (by decide) (by decide) hmem)⟩

end Numbers

end Shell
end OpenKernel
