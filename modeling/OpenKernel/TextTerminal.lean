import Mathlib.Tactic

/-!
# A text terminal with lazy wrapping

A terminal is a grid of `rows` by `cols` cells, each blank or holding a glyph of
an arbitrary type, and a cursor.  The cursor stands in a row of the grid and at a
column up to `cols`: after a glyph in the last column it waits at the right edge,
and the next glyph wraps.  These bounds are fields, so every operation carries
the proof that the cursor stays in bounds.
-/

namespace OpenKernel

universe u

structure Terminal (rows cols : Nat) (γ : Type u) where
  /-- What stands in a row and a column. -/
  cell : Nat → Nat → Option γ
  row : Nat
  column : Nat
  row_lt : row < rows
  column_le : column ≤ cols
  cols_pos : 0 < cols

namespace Terminal

section Operations

variable {rows cols : Nat} {γ : Type u}

/-- The cells with another content in one place. -/
def setCell (cells : Nat → Nat → Option γ) (row column : Nat) (content : Option γ) :
    Nat → Nat → Option γ :=
  fun r c => if r = row ∧ c = column then content else cells r c

/-- All rows one up, and a blank last row. -/
def shiftUp (rows : Nat) (cells : Nat → Nat → Option γ) : Nat → Nat → Option γ :=
  fun r c => if r + 1 < rows then cells (r + 1) c else none

/-- A blank grid with the cursor in its first cell. -/
def blank (hrows : 0 < rows) (hcols : 0 < cols) : Terminal rows cols γ where
  cell := fun _ _ => none
  row := 0
  column := 0
  row_lt := hrows
  column_le := Nat.zero_le cols
  cols_pos := hcols

def clear (t : Terminal rows cols γ) : Terminal rows cols γ :=
  blank (Nat.zero_lt_of_lt t.row_lt) t.cols_pos

/-- To the first column of the next row; below the last row the grid shifts up. -/
def newline (t : Terminal rows cols γ) : Terminal rows cols γ :=
  if h : t.row + 1 < rows then
    { t with
      row := t.row + 1
      column := 0
      row_lt := h
      column_le := Nat.zero_le cols }
  else
    { t with
      cell := shiftUp rows t.cell
      column := 0
      column_le := Nat.zero_le cols }

/-- At the right edge, to the next row. -/
def wrap (t : Terminal rows cols γ) : Terminal rows cols γ :=
  if t.column < cols then t else t.newline

@[simp] theorem newline_column
    (t : Terminal rows cols γ) :
    t.newline.column = 0 := by
  unfold newline
  split <;> rfl

theorem wrap_column_lt
    (t : Terminal rows cols γ) :
    t.wrap.column < cols := by
  unfold wrap
  split
  · assumption
  · rw [newline_column]
    exact t.cols_pos

/-- A glyph in the cell of the cursor, after wrapping if need be. -/
def put (t : Terminal rows cols γ) (glyph : γ) : Terminal rows cols γ :=
  { t.wrap with
    cell := setCell t.wrap.cell t.wrap.row t.wrap.column (some glyph)
    column := t.wrap.column + 1
    column_le := t.wrap_column_lt }

/-- Blank the cell on the left and step onto it; nothing in the first column. -/
def backspace (t : Terminal rows cols γ) : Terminal rows cols γ :=
  if t.column = 0 then
    t
  else
    { t with
      cell := setCell t.cell t.row (t.column - 1) none
      column := t.column - 1
      column_le := (Nat.sub_le _ _).trans t.column_le }

end Operations

end Terminal

end OpenKernel
