import OpenKernel.ConsoleSafety

/-!
# Erasing what was typed

The shell echoes Backspace as the byte 0x08, one for each character it takes off
the line, and relies on it to undo the echo of the character.  `typeAll` writes
bytes and remembers the cells they went to, however often the screen scrolls in
the meantime: the rows are counted from the screen on which typing began.

In that counting the bytes go to consecutive positions, so the cursor is followed
through wraps and scrolls by addition.  `Writer::backspace` on the other hand
stays in its row, and so erasing undoes typing for exactly the texts that end in
the row they begin in (`erasing_undoes_typing_iff`).  That the counted cells are the
ones on the screen that show the text is `typed_text_shown`.
-/

namespace OpenKernel
namespace Vga

section Typing

/-- A console with the scrolls since typing began and the cells typed so far. -/
structure Typing where
  console : Console
  scrolls : Nat
  /-- Row, counted from the first screen, and column of each byte. -/
  cells : List (Nat × Nat)

def Typing.start (c : Console) : Typing where
  console := c
  scrolls := 0
  cells := []

/-- How often the screen scrolls when a glyph is written: at the right edge of the last row. -/
def glyphScrolls (fb : FrameBufferInfo) (writer : Writer) : Nat :=
  if writer.column < textColumns fb ∨ writer.row + 1 < textRows fb then 0 else 1

/-- A printable byte, drawn in the cell on the left of the new cursor. -/
def Typing.type (fb : FrameBufferInfo) (t : Typing) (byte : UInt8) : Option Typing :=
  (t.console.writeByte (Console.written byte)).map fun console =>
    let scrolls := t.scrolls + glyphScrolls fb t.console.writer
    ⟨console, scrolls,
      t.cells ++ [(console.writer.row + scrolls, console.writer.column - 1)]⟩

def Typing.typeAll (fb : FrameBufferInfo) : Typing → List UInt8 → Option Typing
  | t, [] => some t
  | t, byte :: bytes => (t.type fb byte).bind fun t => t.typeAll fb bytes

/-- All pixels of the cell show the background. -/
def BlankCell (fb : FrameBufferInfo) (c : Console) (row column : Nat) : Prop :=
  ∀ x y, x / GLYPH_WIDTH = column → y / GLYPH_HEIGHT = row →
    pixel fb c.mem x y = encode fb c.writer.background.rgb

/-- Typing `s` and erasing as many bytes leaves the cells of `s` blank, where the scrolls
have taken them, and the cursor on the first of them. -/
def ErasesTyping (fb : FrameBufferInfo) (c : Console) (s : List UInt8) : Prop :=
  ∃ t c', (Typing.start c).typeAll fb s = some t ∧
    t.console.writeBytes (List.replicate s.length 0x08) = some c' ∧
    (∀ cell ∈ t.cells, ∃ row, cell.1 = row + t.scrolls ∧ BlankCell fb c' row cell.2) ∧
    ∀ first, t.cells.head? = some first →
      c'.writer.row + t.scrolls = first.1 ∧ c'.writer.column = first.2

/-- Reached from `init` by calls of the console's users. -/
def Console.Reachable (fb : FrameBufferInfo) (c : Console) : Prop :=
  ∃ before calls, (Console.init before fb).bind (fun c => c.applyAll calls) = some c

def Printable (byte : UInt8) : Prop :=
  0x20 ≤ byte ∧ byte ≤ 0x7e

instance : DecidablePred Printable :=
  fun _ => inferInstanceAs (Decidable (_ ∧ _))

end Typing

section Positions

variable {fb : FrameBufferInfo} {c : Console} {t : Typing}

/-- The number of cells before the cursor, counted from the first screen. -/
def position (fb : FrameBufferInfo) (t : Typing) : Nat :=
  (t.console.writer.row + t.scrolls) * textColumns fb + t.console.writer.column

theorem divMod_of_lt
    {columns column : Nat} (row : Nat)
    (h : column < columns) :
    (row * columns + column) / columns = row ∧ (row * columns + column) % columns = column := by
  have hpos : 0 < columns := Nat.zero_lt_of_lt h
  constructor
  · rw [Nat.mul_comm, Nat.mul_add_div hpos, Nat.div_eq_of_lt h, Nat.add_zero]
  · rw [Nat.mul_comm, Nat.mul_add_mod, Nat.mod_eq_of_lt h]

/-- A printable byte is written as it is. -/
theorem writeByte_of_printable
    {byte : UInt8}
    (h : Printable byte) :
    c.writeByte (Console.written byte) = c.writeGlyph byte := by
  have hwritten : Console.written byte = byte := if_pos (Or.inl h)
  have hnewline : byte ≠ '\n'.toUInt8 := by
    rintro rfl
    exact absurd h (by decide)
  have hback : byte ≠ 0x08 := by
    rintro rfl
    exact absurd h (by decide)
  rw [hwritten, Console.writeByte, if_neg hnewline, if_neg hback]

/-- A byte goes to the cell at the position of the cursor and moves the cursor by one. -/
theorem type_spec
    (hroom : RoomForPixels fb)
    (hcolumns : 0 < textColumns fb)
    (h : CursorInGrid fb t.console)
    {byte : UInt8}
    (hbyte : Printable byte) :
    ∃ t', t.type fb byte = some t' ∧ CursorInGrid fb t'.console ∧
      position fb t' = position fb t + 1 ∧ 0 < t'.console.writer.column ∧
      t'.cells = t.cells ++
        [(position fb t / textColumns fb, position fb t % textColumns fb)] := by
  obtain ⟨mem, hglyph⟩ := writeGlyph_cursor hroom h byte
  have hgrid : CursorInGrid fb ⟨{ t.console.writer with
      row := (glyphCursor fb t.console.writer).1,
      column := (glyphCursor fb t.console.writer).2 + 1 }, mem⟩ :=
    ⟨h.framebuffer_eq, glyphCursor_row_lt h, glyphCursor_column_le fb t.console.writer⟩
  have hcell : (glyphCursor fb t.console.writer).1 +
        (t.scrolls + glyphScrolls fb t.console.writer) = position fb t / textColumns fb ∧
      (glyphCursor fb t.console.writer).2 = position fb t % textColumns fb := by
    have hrow := h.row_lt
    have hcolumn := h.column_le
    by_cases hinside : t.console.writer.column < textColumns fb
    · obtain ⟨hdiv, hmod⟩ := divMod_of_lt (t.console.writer.row + t.scrolls) hinside
      rw [position, hdiv, hmod, glyphCursor, if_pos hinside, glyphScrolls, if_pos (Or.inl hinside)]
      exact ⟨rfl, rfl⟩
    · -- at the right edge the position is the start of the next row
      have hedge : t.console.writer.column = textColumns fb := by omega
      have hnext : position fb t =
          (t.console.writer.row + t.scrolls + 1) * textColumns fb + 0 := by
        rw [position, hedge, Nat.succ_mul, Nat.add_zero]
      obtain ⟨hdiv, hmod⟩ := divMod_of_lt (t.console.writer.row + t.scrolls + 1) hcolumns
      rw [hnext, hdiv, hmod, glyphCursor, if_neg hinside]
      refine ⟨?_, rfl⟩
      simp only [nextRow, glyphScrolls, hinside, false_or]
      split <;> omega
  have htype := congrArg (Option.map fun console : Console =>
    let scrolls := t.scrolls + glyphScrolls fb t.console.writer
    (⟨console, scrolls,
      t.cells ++ [(console.writer.row + scrolls, console.writer.column - 1)]⟩ : Typing))
    ((writeByte_of_printable hbyte).trans hglyph)
  refine ⟨_, htype, hgrid, ?_, Nat.succ_pos _, ?_⟩
  · rw [position]
    simp only [hcell]
    rw [← Nat.add_assoc, Nat.mul_comm, Nat.div_add_mod]
  · simp only [hcell, Nat.add_sub_cancel]

/-- A text goes to consecutive positions. -/
theorem typeAll_spec
    (hroom : RoomForPixels fb)
    (hcolumns : 0 < textColumns fb)
    (h : CursorInGrid fb t.console)
    {s : List UInt8}
    (hs : ∀ byte ∈ s, Printable byte) :
    ∃ t', t.typeAll fb s = some t' ∧ CursorInGrid fb t'.console ∧
      position fb t' = position fb t + s.length ∧
      (s ≠ [] → 0 < t'.console.writer.column) ∧
      t'.cells = t.cells ++ (List.range s.length).map fun i =>
        ((position fb t + i) / textColumns fb, (position fb t + i) % textColumns fb) := by
  induction s generalizing t with
  | nil => exact ⟨t, rfl, h, rfl, fun hne => absurd rfl hne, by simp⟩
  | cons byte s ih =>
      obtain ⟨hbyte, hrest⟩ := List.forall_mem_cons.1 hs
      obtain ⟨u, htype, hu, hposition, hcolumn, hcells⟩ := type_spec hroom hcolumns h hbyte
      obtain ⟨t', htypeAll, ht', hposition', hcolumn', hcells'⟩ := ih hu hrest
      refine ⟨t', ?_, ht', ?_, ?_, ?_⟩
      · rw [Typing.typeAll, htype, Option.bind_some, htypeAll]
      · rw [hposition', hposition, List.length_cons]
        omega
      · intro _
        by_cases hempty : s = []
        · subst hempty
          cases htypeAll
          exact hcolumn
        · exact hcolumn' hempty
      · rw [hcells', hcells, hposition, List.append_assoc, List.length_cons,
          List.range_succ_eq_map, List.map_cons, List.map_map]
        simp only [List.singleton_append, Function.comp_def, Nat.add_zero, Nat.succ_eq_add_one,
          Nat.add_assoc, Nat.add_comm 1]

end Positions

section TypedCells

variable {fb : FrameBufferInfo} {c : Console} {t : Typing}

/-- A cell of the grid consists of visible pixels. -/
theorem visible_of_cell
    {row column x y : Nat}
    (hrow : row < textRows fb) (hcolumn : column < textColumns fb)
    (hx : x / GLYPH_WIDTH = column) (hy : y / GLYPH_HEIGHT = row) :
    x < fb.width ∧ y < fb.height := by
  unfold textRows textColumns GLYPH_WIDTH GLYPH_HEIGHT at *
  omega

/-- The cell shows the glyph of a byte. -/
def GlyphCell (fb : FrameBufferInfo) (c : Console) (row column : Nat) (byte : UInt8) : Prop :=
  ∀ x y, x / GLYPH_WIDTH = column → y / GLYPH_HEIGHT = row →
    pixel fb c.mem x y =
      encode fb (if glyphBit byte (x % GLYPH_WIDTH) (y % GLYPH_HEIGHT) then
        c.writer.foreground.rgb else c.writer.background.rgb)

/-- The wrap before a glyph moves the pixels up by the scrolls that are counted for it. -/
theorem wrap_pixels
    (hfits : Fits fb)
    (h : CursorInGrid fb c) :
    ∃ mem, (if textColumns fb ≤ c.writer.column then c.newLine else some c) =
        some ⟨{ c.writer with
          row := (glyphCursor fb c.writer).1, column := (glyphCursor fb c.writer).2 }, mem⟩ ∧
      ∀ x y, x < fb.width → y + glyphScrolls fb c.writer * GLYPH_HEIGHT < fb.height →
        pixel fb mem x y = pixel fb c.mem x (y + glyphScrolls fb c.writer * GLYPH_HEIGHT) := by
  by_cases hinside : c.writer.column < textColumns fb
  · have hscrolls : glyphScrolls fb c.writer = 0 := if_pos (Or.inl hinside)
    rw [if_neg (by omega), glyphCursor, if_pos hinside, hscrolls]
    exact ⟨c.mem, rfl, fun x y _ _ => by rw [Nat.zero_mul, Nat.add_zero]⟩
  · have hdimensions := dimensions_eq
      (c := { c with writer := { c.writer with column := 0, row := c.writer.row + 1 } })
      h.framebuffer_eq
    rw [if_pos (by omega), glyphCursor, if_neg hinside]
    simp only [Console.newLine, hdimensions, Option.bind_some, nextRow]
    by_cases hnext : c.writer.row + 1 < textRows fb
    · have hscrolls : glyphScrolls fb c.writer = 0 := if_pos (Or.inr hnext)
      rw [if_neg (by omega), if_pos hnext, hscrolls]
      exact ⟨c.mem, rfl, fun x y _ _ => by rw [Nat.zero_mul, Nat.add_zero]⟩
    · have hscrolls : glyphScrolls fb c.writer = 1 := if_neg (by omega)
      have hheight : GLYPH_HEIGHT ≤ fb.height := by
        have hrow := h.row_lt
        unfold textRows GLYPH_HEIGHT at *
        omega
      obtain ⟨mem, hscroll, hpixels⟩ := scroll_pixels
        (c := { c with writer := { c.writer with column := 0, row := c.writer.row + 1 } })
        hfits hheight h.framebuffer_eq
      rw [if_pos (by omega), if_neg hnext, hscrolls]
      refine ⟨mem, hscroll, fun x y hx hy => ?_⟩
      rw [Nat.one_mul] at hy ⊢
      rw [hpixels x y hx (by omega), if_pos hy]

/-- Writing a glyph shows it in its cell; a glyph in another cell moves up by the scrolls. -/
theorem writeGlyph_shows
    (hfits : Fits fb)
    (hcolumns : 0 < textColumns fb)
    (h : CursorInGrid fb c)
    (byte : UInt8) :
    ∃ c', c.writeGlyph byte = some c' ∧
      c'.writer.row = (glyphCursor fb c.writer).1 ∧
      c'.writer.column = (glyphCursor fb c.writer).2 + 1 ∧
      GlyphCell fb c' (glyphCursor fb c.writer).1 (glyphCursor fb c.writer).2 byte ∧
      ∀ row column byte', row + glyphScrolls fb c.writer < textRows fb →
        column < textColumns fb →
        ¬ (row = (glyphCursor fb c.writer).1 ∧ column = (glyphCursor fb c.writer).2) →
        GlyphCell fb c (row + glyphScrolls fb c.writer) column byte' →
        GlyphCell fb c' row column byte' := by
  obtain ⟨memWrap, hwrap, hmoved⟩ := wrap_pixels hfits h
  have hrow := glyphCursor_row_lt h
  have hcolumn : (glyphCursor fb c.writer).2 < textColumns fb := by
    have := glyphCursor_column_le fb c.writer
    omega
  obtain ⟨mem, hdraw, hpixels⟩ := drawGlyph_pixels
    (c := ⟨{ c.writer with
      row := (glyphCursor fb c.writer).1, column := (glyphCursor fb c.writer).2 }, memWrap⟩)
    hfits h.framebuffer_eq byte (glyphCursor fb c.writer).1 (glyphCursor fb c.writer).2
  refine ⟨⟨{ c.writer with
    row := (glyphCursor fb c.writer).1, column := (glyphCursor fb c.writer).2 + 1 }, mem⟩,
    ?_, rfl, rfl, ?_, ?_⟩
  · simp only [Console.writeGlyph, dimensions_eq h.framebuffer_eq, Option.bind_some, hwrap,
      if_neg (Nat.not_le_of_lt hrow), hdraw]
  · intro x y hx hy
    obtain ⟨hwidth, hheight⟩ := visible_of_cell hrow hcolumn hx hy
    exact (hpixels x y hwidth hheight).trans (if_pos ⟨hx, hy⟩)
  · intro row column byte' hrow' hcolumn' hother hglyph x y hx hy
    have hpos : 0 < GLYPH_HEIGHT := Nat.succ_pos _
    have hbelow : (y + glyphScrolls fb c.writer * GLYPH_HEIGHT) / GLYPH_HEIGHT =
        row + glyphScrolls fb c.writer := by
      rw [Nat.add_mul_div_right _ _ hpos, hy]
    obtain ⟨hwidth, hheight⟩ := visible_of_cell hrow' hcolumn' hx hbelow
    refine (hpixels x y hwidth (by omega)).trans ?_
    rw [if_neg (fun hsame => hother ⟨hy ▸ hsame.2, hx ▸ hsame.1⟩)]
    refine (hmoved x y hwidth hheight).trans ?_
    rw [hglyph x _ hx hbelow, Nat.add_mul_mod_self_right]

/-- A recorded cell lies before the cursor and shows its byte, unless it has scrolled away. -/
def ShowsTyped (fb : FrameBufferInfo) (t : Typing) (cell : Nat × Nat) (byte : UInt8) : Prop :=
  cell.2 < textColumns fb ∧ cell.1 * textColumns fb + cell.2 < position fb t ∧
    ∀ row, cell.1 = row + t.scrolls → GlyphCell fb t.console row cell.2 byte

theorem type_shows
    (hfits : Fits fb)
    (hcolumns : 0 < textColumns fb)
    (h : CursorInGrid fb t.console)
    {typed : List UInt8}
    (htyped : List.Forall₂ (ShowsTyped fb t) t.cells typed)
    {byte : UInt8}
    (hbyte : Printable byte) :
    ∃ t', t.type fb byte = some t' ∧ CursorInGrid fb t'.console ∧
      List.Forall₂ (ShowsTyped fb t') t'.cells (typed ++ [byte]) := by
  obtain ⟨t', htype, hgrid, hposition, -, hcells⟩ :=
    type_spec (roomForPixels_of_fits hfits) hcolumns h hbyte
  obtain ⟨c', hwrite, hrow, hcolumn, hnew, hold⟩ := writeGlyph_shows hfits hcolumns h byte
  have hstep := htype
  rw [Typing.type, writeByte_of_printable hbyte, hwrite, Option.map_some] at hstep
  cases hstep
  have hleft : c'.writer.column - 1 = (glyphCursor fb t.console.writer).2 := by
    rw [hcolumn, Nat.add_sub_cancel]
  rw [← hrow, ← hleft] at hnew hold
  have hcell : (c'.writer.row + (t.scrolls + glyphScrolls fb t.console.writer)) *
      textColumns fb + (c'.writer.column - 1) = position fb t := by
    obtain ⟨hdiv, hmod⟩ := Prod.mk.inj (List.singleton_inj.1 (List.append_cancel_left hcells))
    rw [hdiv, hmod, Nat.mul_comm, Nat.div_add_mod]
  refine ⟨_, htype, hgrid, List.rel_append (htyped.imp ?_) (.cons ⟨?_, ?_, ?_⟩ .nil)⟩
  · rintro cell byte' ⟨hin, hbefore, hshown⟩
    refine ⟨hin, by omega, fun row hat => ?_⟩
    change cell.1 = row + (t.scrolls + glyphScrolls fb t.console.writer) at hat
    have habove : cell.1 < t.console.writer.row + t.scrolls + 1 := by
      have hle := h.column_le
      refine Nat.lt_of_mul_lt_mul_right (a := textColumns fb) ?_
      rw [position] at hbefore
      rw [Nat.succ_mul]
      omega
    have hinside := h.row_lt
    refine hold row cell.2 byte' (by omega) hin ?_ (hshown _ (by omega))
    rintro ⟨rfl, hsame⟩
    rw [hat, hsame, hcell] at hbefore
    exact lt_irrefl _ hbefore
  · have hle := glyphCursor_column_le fb t.console.writer
    simp only [hleft]
    omega
  · exact (hcell.trans_lt (Nat.lt_succ_self _)).trans_eq hposition.symm
  · intro row hat
    rw [Nat.add_right_cancel hat] at hnew
    exact hnew

theorem typeAll_shows
    (hfits : Fits fb)
    (hcolumns : 0 < textColumns fb)
    (h : CursorInGrid fb t.console)
    {typed s : List UInt8}
    (htyped : List.Forall₂ (ShowsTyped fb t) t.cells typed)
    (hs : ∀ byte ∈ s, Printable byte) :
    ∃ t', t.typeAll fb s = some t' ∧
      List.Forall₂ (ShowsTyped fb t') t'.cells (typed ++ s) := by
  induction s generalizing t typed with
  | nil => exact ⟨t, rfl, by rwa [List.append_nil]⟩
  | cons byte s ih =>
      obtain ⟨hbyte, hrest⟩ := List.forall_mem_cons.1 hs
      obtain ⟨u, htype, hu, hshown⟩ := type_shows hfits hcolumns h htyped hbyte
      obtain ⟨t', htypeAll, hshown'⟩ := ih hu hshown hrest
      refine ⟨t', ?_, by rwa [List.append_cons]⟩
      rw [Typing.typeAll, htype, Option.bind_some, htypeAll]

end TypedCells

section Erasing

variable {fb : FrameBufferInfo} {c : Console}

/-- Erasing to the left fills one cell with the background and leaves the others alone. -/
theorem backspace_pixels
    (hfits : Fits fb)
    (hframebuffer : c.writer.framebuffer = some fb)
    (hcolumn : 0 < c.writer.column) :
    ∃ mem, c.backspace = some ⟨{ c.writer with column := c.writer.column - 1 }, mem⟩ ∧
      ∀ x y, x < fb.width → y < fb.height →
        pixel fb mem x y =
          if x / GLYPH_WIDTH = c.writer.column - 1 ∧ y / GLYPH_HEIGHT = c.writer.row then
            encode fb c.writer.background.rgb
          else pixel fb c.mem x y := by
  obtain ⟨mem, hdraw, hpixels⟩ := drawGlyph_pixels
    (c := { c with writer := { c.writer with column := c.writer.column - 1 } })
    hfits hframebuffer 0x20 c.writer.row (c.writer.column - 1)
  have hne : ¬ c.writer.column = 0 := Nat.ne_of_gt hcolumn
  refine ⟨mem, ?_, ?_⟩
  · rw [Console.backspace, if_neg hne]
    exact hdraw
  · intro x y hx hy
    have hspace : glyphBit 0x20 (x % GLYPH_WIDTH) (y % GLYPH_HEIGHT) = false :=
      glyphBit_space _ (Nat.mod_lt _ (Nat.succ_pos _))
    rw [hpixels x y hx hy, hspace]
    rfl

/-- One 0x08 byte: the cell on the left of the cursor becomes blank, and blank cells stay so. -/
theorem backspace_blank
    (hfits : Fits fb)
    (hcolumns : 0 < textColumns fb)
    (h : CursorInGrid fb c) :
    ∃ c', c.backspace = some c' ∧ CursorInGrid fb c' ∧
      c'.writer.row = c.writer.row ∧ c'.writer.column = c.writer.column - 1 ∧
      (0 < c.writer.column → BlankCell fb c' c.writer.row (c.writer.column - 1)) ∧
      ∀ row column, row < textRows fb → column < textColumns fb →
        BlankCell fb c row column → BlankCell fb c' row column := by
  rcases Nat.eq_zero_or_pos c.writer.column with hfirst | hpos
  · refine ⟨c, if_pos hfirst, h, rfl, by omega, fun hpos => by omega, ?_⟩
    exact fun _ _ _ _ hblank => hblank
  · obtain ⟨mem, hback, hpixels⟩ := backspace_pixels hfits h.framebuffer_eq hpos
    have hleft : c.writer.column - 1 < textColumns fb := by
      have := h.column_le
      omega
    refine ⟨_, hback, ⟨h.framebuffer_eq, h.row_lt, (Nat.sub_le _ _).trans h.column_le⟩,
      rfl, rfl, ?_, ?_⟩
    · intro _ x y hx hy
      obtain ⟨hwidth, hheight⟩ := visible_of_cell h.row_lt hleft hx hy
      exact (hpixels x y hwidth hheight).trans (if_pos ⟨hx, hy⟩)
    · intro row column hrow hcolumn hblank x y hx hy
      obtain ⟨hwidth, hheight⟩ := visible_of_cell hrow hcolumn hx hy
      refine (hpixels x y hwidth hheight).trans ?_
      split
      · rfl
      · exact hblank x y hx hy

/-- As many 0x08 bytes blank the cells on the left of the cursor, as far as the row goes. -/
theorem eraseAll_spec
    (hfits : Fits fb)
    (hcolumns : 0 < textColumns fb)
    (h : CursorInGrid fb c)
    (count : Nat) :
    ∃ c', c.writeBytes (List.replicate count 0x08) = some c' ∧
      c'.writer.row = c.writer.row ∧ c'.writer.column = c.writer.column - count ∧
      (∀ column, c.writer.column - count ≤ column → column < c.writer.column →
        BlankCell fb c' c.writer.row column) ∧
      ∀ row column, row < textRows fb → column < textColumns fb →
        BlankCell fb c row column → BlankCell fb c' row column := by
  induction count generalizing c with
  | zero =>
      refine ⟨c, rfl, rfl, rfl, fun column hlow hhigh => by omega, ?_⟩
      exact fun _ _ _ _ hblank => hblank
  | succ count ih =>
      obtain ⟨d, hback, hd, hrow, hcolumn, hleft, hkeep⟩ := backspace_blank hfits hcolumns h
      obtain ⟨c', hrest, hrow', hcolumn', hblank, hkeep'⟩ := ih hd
      refine ⟨c', ?_, hrow'.trans hrow, by omega, ?_, ?_⟩
      · have hbyte : c.writeByte (Console.written 0x08) = c.backspace := rfl
        rw [List.replicate_succ, Console.writeBytes, hbyte, hback, Option.bind_some, hrest]
      · intro column hlow hhigh
        rw [← hrow]
        by_cases hhere : column < d.writer.column
        · exact hblank column (by omega) hhere
        · -- the cell that the first byte has blanked
          have hfirst : column = c.writer.column - 1 := by omega
          have hin : column < textColumns fb := by
            have := h.column_le
            omega
          rw [hrow, hfirst]
          exact hkeep' _ _ h.row_lt (by omega) (hleft (by omega))
      · intro row column hr hc hblank'
        exact hkeep' row column hr hc (hkeep row column hr hc hblank')

end Erasing

section Inverse

variable {fb : FrameBufferInfo} {c : Console}

/-- Every reachable console has its cursor in the grid of an accepted framebuffer. -/
theorem inGrid_of_reachable
    (hstride : fb.width ≤ fb.stride) (hheight : GLYPH_HEIGHT ≤ fb.height)
    (h : Console.Reachable fb c) :
    Fits fb ∧ CursorInGrid fb c := by
  obtain ⟨before, calls, hrun⟩ := h
  obtain ⟨start, hinit, hcalls⟩ := Option.bind_eq_some_iff.1 hrun
  have hbytes : fb.stride * fb.height * 4 ≤ fb.byteLen := by
    by_contra hsmall
    rw [Console.init, if_neg (fun hassert => hsmall hassert.2)] at hinit
    cases hinit
  have hfits : Fits fb := ⟨hstride, hbytes⟩
  obtain ⟨hframebuffer, hrow, hcolumn⟩ := init_cursor hinit
  have hrows : 0 < textRows fb := Nat.div_pos hheight (by decide)
  have hgrid : CursorInGrid fb start :=
    ⟨hframebuffer, by rwa [hrow], by rw [hcolumn]; exact Nat.zero_le _⟩
  obtain ⟨c', hcalls', hc'⟩ := applyAll_inGrid (roomForPixels_of_fits hfits) hgrid calls
  rw [hcalls] at hcalls'
  cases hcalls'
  exact ⟨hfits, hc'⟩

/-- A text typed on any reachable console is shown in the recorded cells, each byte in its
own, as far as they have not scrolled off the top. -/
theorem typed_text_shown
    (hstride : fb.width ≤ fb.stride)
    (hwidth : GLYPH_WIDTH ≤ fb.width) (hheight : GLYPH_HEIGHT ≤ fb.height)
    (hreach : Console.Reachable fb c)
    {s : List UInt8}
    (hs : ∀ byte ∈ s, Printable byte) :
    ∃ t, (Typing.start c).typeAll fb s = some t ∧
      List.Forall₂ (ShowsTyped fb t) t.cells s := by
  obtain ⟨hfits, hgrid⟩ := inGrid_of_reachable hstride hheight hreach
  exact typeAll_shows hfits (Nat.div_pos hwidth (by decide)) (t := Typing.start c) hgrid
    .nil hs

/-- The position at which typing begins, as a row of the first screen and a column. -/
theorem position_start
    (hcolumns : 0 < textColumns fb)
    (h : CursorInGrid fb c) :
    ∃ row, position fb (Typing.start c) = row * textColumns fb + (glyphCursor fb c.writer).2 ∧
      (glyphCursor fb c.writer).2 < textColumns fb := by
  have hcolumn := h.column_le
  by_cases hinside : c.writer.column < textColumns fb
  · refine ⟨c.writer.row, ?_, ?_⟩
    · simp only [position, Typing.start, glyphCursor, if_pos hinside, Nat.add_zero]
    · rwa [glyphCursor, if_pos hinside]
  · have hedge : c.writer.column = textColumns fb := by omega
    refine ⟨c.writer.row + 1, ?_, ?_⟩
    · simp only [position, Typing.start, glyphCursor, hedge, lt_irrefl, if_false, Nat.succ_mul,
        Nat.add_zero]
    · rwa [glyphCursor, if_neg hinside]

/-- Two cursors at one position, both to the right of a glyph, stand in one row. -/
theorem row_eq_of_position_eq
    {columns row row' column column' : Nat}
    (hpos : 0 < column) (hle : column ≤ columns)
    (hpos' : 0 < column') (hle' : column' ≤ columns)
    (h : row * columns + column = row' * columns + column') :
    row = row' ∧ column = column' := by
  have hdiv := (divMod_of_lt row (show column - 1 < columns by omega)).1
  have hdiv' := (divMod_of_lt row' (show column' - 1 < columns by omega)).1
  have hsame : row * columns + (column - 1) = row' * columns + (column' - 1) := by omega
  have hrow : row = row' := by rw [← hdiv, ← hdiv', hsame]
  subst hrow
  exact ⟨rfl, by omega⟩

theorem erasesTyping_iff
    (hfits : Fits fb)
    (hcolumns : 0 < textColumns fb)
    (hgrid : CursorInGrid fb c)
    {s : List UInt8}
    (hs : ∀ byte ∈ s, Printable byte) :
    ErasesTyping fb c s ↔ (glyphCursor fb c.writer).2 + s.length ≤ textColumns fb := by
  obtain ⟨row, hstart, hfirst⟩ := position_start hcolumns hgrid
  obtain ⟨t, htype, ht, hposition, hcolumn, hcells⟩ :=
    typeAll_spec (roomForPixels_of_fits hfits) hcolumns
      (t := Typing.start c) hgrid hs
  obtain ⟨c', herase, hrow', hcolumn', hblank, -⟩ := eraseAll_spec hfits hcolumns ht s.length
  have hle : t.console.writer.column ≤ textColumns fb := by
    have := ht.column_le
    omega
  rw [hstart] at hposition hcells
  by_cases hempty : s = []
  · subst hempty
    refine iff_of_true ⟨t, c', htype, herase, ?_, ?_⟩ (by simpa using hfirst.le)
    · simp [hcells, Typing.start]
    · simp [hcells, Typing.start]
  · have hlength : 0 < s.length := List.length_pos_iff.2 hempty
    have hhead : t.cells.head? = some (row, (glyphCursor fb c.writer).2) := by
      obtain ⟨hdiv, hmod⟩ := divMod_of_lt row hfirst
      obtain ⟨n, hn⟩ := Nat.exists_eq_succ_of_ne_zero (Nat.ne_of_gt hlength)
      rw [hcells, hn, List.range_succ_eq_map, List.map_cons, Nat.add_zero, hdiv, hmod]
      rfl
    have hsum : (t.console.writer.row + t.scrolls) * textColumns fb + t.console.writer.column =
        row * textColumns fb + ((glyphCursor fb c.writer).2 + s.length) := by
      rw [← Nat.add_assoc]
      exact hposition
    constructor
    · rintro ⟨t₁, c₁, htype₁, herase₁, -, hcursor⟩
      rw [htype] at htype₁
      cases htype₁
      rw [herase] at herase₁
      cases herase₁
      have hsame : c'.writer.row + t.scrolls = row := (hcursor _ hhead).1
      rw [← hrow', hsame] at hsum
      omega
    · intro hfit
      obtain ⟨hsame, hend⟩ := row_eq_of_position_eq (hcolumn hempty) hle (by omega) hfit hsum
      refine ⟨t, c', htype, herase, ?_, ?_⟩
      · intro cell hcell
        rw [hcells] at hcell
        obtain ⟨i, hi, rfl⟩ := List.mem_map.1 hcell
        have hi' := List.mem_range.1 hi
        obtain ⟨hdiv, hmod⟩ := divMod_of_lt row
          (show (glyphCursor fb c.writer).2 + i < textColumns fb by omega)
        rw [Nat.add_assoc, hdiv, hmod]
        exact ⟨t.console.writer.row, hsame.symm, hblank _ (by omega) (by omega)⟩
      · intro first hhead'
        rw [hhead] at hhead'
        cases hhead'
        rw [hrow', hcolumn']
        exact ⟨hsame, by simp only; omega⟩

/-- Erasing undoes typing exactly when the text ends in the row in which its first byte
is drawn: backspace does not go back to the row above. -/
theorem erasing_undoes_typing_iff
    (fb : FrameBufferInfo) (c : Console) (s : List UInt8)
    (hstride : fb.width ≤ fb.stride)
    (hwidth : GLYPH_WIDTH ≤ fb.width) (hheight : GLYPH_HEIGHT ≤ fb.height)
    (hreach : Console.Reachable fb c)
    (hs : ∀ byte ∈ s, Printable byte) :
    ErasesTyping fb c s ↔ (glyphCursor fb c.writer).2 + s.length ≤ textColumns fb := by
  obtain ⟨hfits, hgrid⟩ := inGrid_of_reachable hstride hheight hreach
  exact erasesTyping_iff hfits (Nat.div_pos hwidth (by decide)) hgrid hs

/-- The console right after `init` has its cursor in the first cell. -/
theorem exists_fresh
    (fb : FrameBufferInfo)
    (hfits : Fits fb)
    (haddress : fb.address ≠ 0) :
    ∃ c, Console.Reachable fb c ∧ c.writer.row = 0 ∧ c.writer.column = 0 := by
  obtain ⟨c, hinit⟩ := (init_eq_some_iff (c := ⟨Writer.new, fun _ => 0⟩) haddress
    hfits.bytes_le).2 (roomForPixels_of_fits hfits)
  obtain ⟨-, hrow, hcolumn⟩ := init_cursor hinit
  exact ⟨c, ⟨⟨Writer.new, fun _ => 0⟩, [], by rw [hinit]; rfl⟩, hrow, hcolumn⟩

/-- One column and two rows. -/
def narrowScreen : FrameBufferInfo :=
  ⟨0x80000000, 1024, 8, 32, 8, .Rgb⟩

/-- On a screen of two cells two letters fit, and erasing both leaves the first one. -/
theorem wrapped_text_not_erased :
    [0x61, 0x62].length ≤ textRows narrowScreen * textColumns narrowScreen ∧
      ∃ c, Console.Reachable narrowScreen c ∧ c.writer.row = 0 ∧ c.writer.column = 0 ∧
        ¬ ErasesTyping narrowScreen c [0x61, 0x62] := by
  have hfits : Fits narrowScreen := ⟨by decide, by decide⟩
  obtain ⟨c, hreach, hrow, hcolumn⟩ := exists_fresh narrowScreen hfits (by decide)
  refine ⟨by decide, c, hreach, hrow, hcolumn, ?_⟩
  have hgrid := (inGrid_of_reachable (by decide) (by decide) hreach).2
  rw [erasesTyping_iff hfits (by decide) hgrid (by simp [Printable]), glyphCursor, hrow, hcolumn]
  decide

theorem erasing_undoes_typing_one_row :
    ∃ c, Console.Reachable ⟨0x80000000, 1024, 16, 16, 16, .Rgb⟩ c ∧
      ErasesTyping ⟨0x80000000, 1024, 16, 16, 16, .Rgb⟩ c [0x68, 0x69] := by
  obtain ⟨c, hreach, hrow, hcolumn⟩ :=
    exists_fresh ⟨0x80000000, 1024, 16, 16, 16, .Rgb⟩ ⟨by decide, by decide⟩ (by decide)
  refine ⟨c, hreach, (erasing_undoes_typing_iff ⟨0x80000000, 1024, 16, 16, 16, .Rgb⟩ c
    [0x68, 0x69] (by decide) (by decide) (by decide) hreach (by simp [Printable])).2 ?_⟩
  rw [glyphCursor, hrow, hcolumn]
  decide

end Inverse

end Vga
end OpenKernel
