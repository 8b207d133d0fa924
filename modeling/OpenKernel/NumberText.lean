import OpenKernel.ShellText

/-!
# Numbers that are printed and read back

Every number that the shell prints is read back by the functions that read its
arguments: `natText` by `parse::<usize>` and `intText` by `parse::<i64>`.  A
number is one word, so it also survives the splitting of a line into words.
-/

namespace OpenKernel
namespace Shell

open Vfs

section Decimal

theorem natText_ne_nil
    (n : Nat) :
    natText n ≠ [] :=
  Nat.toDigits_ne_nil

theorem isDigit_of_mem_natText
    {n : Nat} {ch : Char}
    (h : ch ∈ natText n) :
    ch.isDigit = true :=
  Nat.isDigit_of_mem_toDigits (by omega) (by omega) h

theorem digitsValue_natText
    (n : Nat) :
    digitsValue (natText n) = some n := by
  have hdigits : (natText n).all Char.isDigit = true :=
    List.all_eq_true.2 fun _ hch => isDigit_of_mem_natText hch
  rw [digitsValue, if_pos ⟨natText_ne_nil n, hdigits⟩]
  exact congrArg some Nat.ofDigitChars_ten_toDigits

/-- A digit is no sign. -/
theorem ne_sign_of_isDigit
    {ch : Char}
    (h : ch.isDigit = true) :
    ch ≠ '+' ∧ ch ≠ '-' := by
  constructor
  · rintro rfl
    cases h
  · rintro rfl
    cases h

/-- The first character of a printed number, which is not a sign. -/
theorem natText_eq_cons
    (n : Nat) :
    ∃ ch rest, natText n = ch :: rest ∧ ch ≠ '+' ∧ ch ≠ '-' := by
  rcases htext : natText n with _ | ⟨ch, rest⟩
  · exact absurd htext (natText_ne_nil n)
  · have hdigit : ch.isDigit = true := isDigit_of_mem_natText (by rw [htext]; exact List.mem_cons_self)
    exact ⟨ch, rest, rfl, ne_sign_of_isDigit hdigit⟩

/-- Without a sign the whole text is digits. -/
theorem parseUsize_natText
    {n : Nat}
    (h : n < 2 ^ 64) :
    parseUsize (natText n) = some n := by
  have hvalue := digitsValue_natText n
  obtain ⟨ch, rest, htext, hplus, -⟩ := natText_eq_cons n
  rw [htext] at hvalue ⊢
  unfold parseUsize
  split
  · rename_i heq
    exact absurd (List.cons.inj heq).1 hplus
  · rw [hvalue]
    exact Option.filter_eq_some_iff.2 ⟨rfl, decide_eq_true h⟩

theorem parseI64_natText
    {n : Nat}
    (h : I64.Fits n) :
    parseI64 (natText n) = some (n : Int) := by
  have hvalue := digitsValue_natText n
  obtain ⟨ch, rest, htext, hplus, hminus⟩ := natText_eq_cons n
  rw [htext] at hvalue ⊢
  unfold parseI64
  split
  · rename_i heq
    exact absurd (List.cons.inj heq).1 hplus
  · rename_i heq
    exact absurd (List.cons.inj heq).1 hminus
  · rw [hvalue]
    exact Option.filter_eq_some_iff.2 ⟨rfl, decide_eq_true h⟩

/-- Every `i64` is read back from its text. -/
theorem parseI64_intText
    {v : Int}
    (h : I64.Fits v) :
    parseI64 (intText v) = some v := by
  unfold intText
  split
  · rename_i hneg
    have hvalue : -Int.ofNat v.natAbs = v := by
      rw [Int.ofNat_eq_natCast]
      omega
    show Option.filter _ ((digitsValue (natText v.natAbs)).map fun n => -Int.ofNat n) = some v
    rw [digitsValue_natText, Option.map_some, hvalue]
    exact Option.filter_eq_some_iff.2 ⟨rfl, decide_eq_true h⟩
  · rename_i hneg
    have hvalue : (v.natAbs : Int) = v := by omega
    rw [parseI64_natText (by rwa [hvalue]), hvalue]

end Decimal

section Words

/-- A word of a line: not empty, and without white space. -/
def IsWord (s : Str) : Prop :=
  s ≠ [] ∧ ∀ ch ∈ s, isWhitespace ch = false

/-- A digit is no white space. -/
theorem isWhitespace_of_isDigit
    {ch : Char}
    (h : ch.isDigit = true) :
    isWhitespace ch = false := by
  have hrange : 48 ≤ ch.toNat ∧ ch.toNat ≤ 57 := by
    simpa [Char.isDigit, UInt32.le_iff_toNat_le] using h
  simp only [isWhitespace]
  grind

theorem isWord_natText
    (n : Nat) :
    IsWord (natText n) :=
  ⟨natText_ne_nil n, fun _ hch => isWhitespace_of_isDigit (isDigit_of_mem_natText hch)⟩

theorem isWord_intText
    (v : Int) :
    IsWord (intText v) := by
  obtain ⟨-, hdigits⟩ := isWord_natText v.natAbs
  unfold intText
  split
  · refine ⟨List.cons_ne_nil _ _, fun ch hch => ?_⟩
    rcases List.mem_cons.1 hch with rfl | hin
    · rfl
    · exact hdigits ch hin
  · exact ⟨natText_ne_nil _, hdigits⟩

theorem IsWord.space_notMem
    {s : Str}
    (h : IsWord s) :
    ' ' ∉ s :=
  fun hin => Bool.noConfusion (h.2 ' ' hin)

theorem splitWhitespace_word
    {s : Str}
    (h : IsWord s) :
    splitWhitespace s = [s] := by
  rw [splitWhitespace, partsBy, List.splitOnP_eq_singleton h.2]
  simp [h.1]

theorem splitWhitespace_word_space
    {s : Str}
    (h : IsWord s)
    (rest : Str) :
    splitWhitespace (s ++ ' ' :: rest) = s :: splitWhitespace rest := by
  rw [splitWhitespace, partsBy, List.splitOnP_append_cons_of_forall_mem h.2 ' ' rfl,
    List.filter_cons_of_pos (by simp [h.1])]
  rfl

/-- There is nothing to trim around a word. -/
theorem trim_word
    {s : Str}
    (h : IsWord s) :
    trim s = s := by
  obtain ⟨hne, hsolid⟩ := h
  have hfront : s.dropWhile isWhitespace = s := by
    rcases s with _ | ⟨ch, rest⟩
    · rfl
    · rw [List.dropWhile_cons_of_neg]
      rw [hsolid ch List.mem_cons_self]
      exact Bool.false_ne_true
  have hlast : isWhitespace (s.getLast hne) = false := hsolid _ (List.getLast_mem hne)
  have hend : s.rdropWhile isWhitespace = s := by
    rw [List.rdropWhile_eq_self_iff]
    intro _ hblank
    rw [hlast] at hblank
    cases hblank
  rw [trim, hfront, hend]

end Words

end Shell
end OpenKernel
