import OpenKernel.ConsoleRefinement

/-!
# What the assertions of `init` leave open

`Writer::init` checks that the buffer holds `stride * height` pixels.  That does
not say that a row is as long as it is wide, nor that there is a text row, and
the first matters for every pixel and the second for `scroll`.  `RoomForPixels`
and `GLYPH_HEIGHT ≤ height` are what is missing (`console_safe_iff`).

The lemmas on the way describe the cursor after each method, for any contents of
the memory and any colours, and are used where the cursor is followed.
-/

namespace OpenKernel
namespace Vga

section Calls

/-- The calls of the console's users. -/
inductive WriterCall where
  | writeString (text : List Char)
  | setColors (foreground background : Color)
  | clearScreen

def Console.apply (c : Console) : WriterCall → Option Console
  | .writeString text => c.writeString text
  | .setColors foreground background => some (c.setColors foreground background)
  | .clearScreen => c.clearScreen

def Console.applyAll : Console → List WriterCall → Option Console
  | c, [] => some c
  | c, call :: rest => (c.apply call).bind fun c => c.applyAll rest

end Calls

section Pixels

/-- The last visible pixel, and with it every other one, ends inside the buffer. -/
def RoomForPixels (fb : FrameBufferInfo) : Prop :=
  fb.width = 0 ∨ fb.height = 0 ∨
    ((fb.height - 1) * fb.stride + fb.width) * 4 ≤ fb.byteLen

variable {fb : FrameBufferInfo}

theorem roomForPixels_of_fits
    (h : Fits fb) :
    RoomForPixels fb := by
  by_cases hheight : fb.height = 0
  · exact Or.inr (Or.inl hheight)
  · have hstride := h.width_le_stride
    have hbytes := h.bytes_le
    have hrows : fb.stride * fb.height = (fb.height - 1) * fb.stride + fb.stride := by
      obtain ⟨rows, hrows⟩ := Nat.exists_eq_succ_of_ne_zero hheight
      rw [hrows, Nat.succ_sub_one, Nat.mul_succ, Nat.mul_comm]
    exact Or.inr (Or.inr (by omega))

theorem pixelOffset_lt_of_room
    (hroom : RoomForPixels fb)
    {x y : Nat}
    (hx : x < fb.width) (hy : y < fb.height) :
    pixelOffset fb x y + 3 < fb.byteLen := by
  have hrow : y * fb.stride ≤ (fb.height - 1) * fb.stride :=
    Nat.mul_le_mul_right fb.stride (by omega)
  unfold RoomForPixels at hroom
  unfold pixelOffset
  omega

theorem exists_writePixel_eq_some
    (hroom : RoomForPixels fb)
    (x y : Nat) (color : Rgb) (mem : Memory) :
    ∃ mem', writePixel fb x y color mem = some mem' := by
  by_cases hvisible : fb.width ≤ x ∨ fb.height ≤ y
  · exact ⟨mem, if_pos hvisible⟩
  · have hlt := pixelOffset_lt_of_room hroom (x := x) (y := y) (by omega) (by omega)
    rw [writePixel, if_neg hvisible]
    dsimp only
    rw [store_of_lt (by omega), Option.bind_some, store_of_lt (by omega),
      Option.bind_some, store_of_lt (by omega), Option.bind_some, store_of_lt hlt]
    exact ⟨_, rfl⟩

/-- A visible pixel that was written lies inside the buffer. -/
theorem pixelOffset_lt_of_writePixel
    {x y : Nat} {color : Rgb} {mem mem' : Memory}
    (h : writePixel fb x y color mem = some mem')
    (hx : x < fb.width) (hy : y < fb.height) :
    pixelOffset fb x y + 3 < fb.byteLen := by
  have hvisible : ¬ (fb.width ≤ x ∨ fb.height ≤ y) := by omega
  rw [writePixel, if_neg hvisible] at h
  obtain ⟨_, -, h⟩ := Option.bind_eq_some_iff.1 h
  obtain ⟨_, -, h⟩ := Option.bind_eq_some_iff.1 h
  obtain ⟨_, -, h⟩ := Option.bind_eq_some_iff.1 h
  by_contra hout
  rw [store, if_neg hout] at h
  cases h

theorem exists_paint_eq_some
    (hroom : RoomForPixels fb)
    (left top : Nat) (xs ys : Nat × Nat)
    (color : Nat → Nat → Rgb) (mem : Memory) :
    ∃ mem', paint fb left top xs ys color mem = some mem' := by
  refine exists_forRange_eq_some (fun y mem => ?_) ys.1 ys.2 mem
  refine exists_forRange_eq_some (fun x mem => ?_) xs.1 xs.2 mem
  exact exists_writePixel_eq_some hroom (left + x) (top + y) (color x y) mem

/-- A screen that was filled has room for its pixels. -/
theorem roomForPixels_of_paint
    {color : Nat → Nat → Rgb} {mem mem' : Memory}
    (h : paint fb 0 0 (0, fb.width) (0, fb.height) color mem = some mem') :
    RoomForPixels fb := by
  by_cases hempty : fb.width = 0 ∨ fb.height = 0
  · rcases hempty with hwidth | hheight
    · exact Or.inl hwidth
    · exact Or.inr (Or.inl hheight)
  · have hx : fb.width - 1 < fb.width := by omega
    have hy : fb.height - 1 < fb.height := by omega
    obtain ⟨t, t', hrow⟩ := exists_turn_of_forRange_eq_some h (Nat.zero_le _) hy
    obtain ⟨u, u', hpixel⟩ := exists_turn_of_forRange_eq_some hrow (Nat.zero_le _) hx
    rw [Nat.zero_add, Nat.zero_add] at hpixel
    have hlast := pixelOffset_lt_of_writePixel hpixel hx hy
    unfold pixelOffset at hlast
    exact Or.inr (Or.inr (by omega))

end Pixels

section Cursor

/-- The cursor of a console with a framebuffer stands in one of its text rows. -/
structure CursorInGrid (fb : FrameBufferInfo) (c : Console) : Prop where
  framebuffer_eq : c.writer.framebuffer = some fb
  row_lt : c.writer.row < textRows fb
  column_le : c.writer.column ≤ max 1 (textColumns fb)

variable {fb : FrameBufferInfo} {c : Console}

theorem clearScreen_cursor
    (hroom : RoomForPixels fb)
    (hframebuffer : c.writer.framebuffer = some fb) :
    ∃ mem, c.clearScreen = some ⟨{ c.writer with column := 0, row := 0 }, mem⟩ := by
  obtain ⟨mem, hpaint⟩ := exists_paint_eq_some hroom 0 0 (0, fb.width) (0, fb.height)
    (fun _ _ => c.writer.background.rgb) c.mem
  exact ⟨mem, by simp only [Console.clearScreen, hframebuffer, Option.bind_some, hpaint]⟩

theorem drawGlyph_cursor
    (hroom : RoomForPixels fb)
    (hframebuffer : c.writer.framebuffer = some fb)
    (byte : UInt8) (x y : Nat) :
    ∃ mem, c.drawGlyph byte x y = some { c with mem := mem } := by
  obtain ⟨mem, hpaint⟩ := exists_paint_eq_some hroom x y (0, GLYPH_WIDTH) (0, GLYPH_HEIGHT)
    (fun glyph_x glyph_y => if glyphBit byte glyph_x glyph_y then c.writer.foreground.rgb
      else c.writer.background.rgb) c.mem
  exact ⟨mem, by simp only [Console.drawGlyph, hframebuffer, Option.bind_some, hpaint]⟩

theorem scroll_cursor
    (hroom : RoomForPixels fb)
    (hrows : 0 < textRows fb)
    (hframebuffer : c.writer.framebuffer = some fb) :
    ∃ mem, c.scroll = some ⟨{ c.writer with row := textRows fb - 1 }, mem⟩ := by
  obtain ⟨memUp, hcopy, -⟩ := copyUp_spec fb (GLYPH_HEIGHT * (fb.stride * 4)) c.mem
  obtain ⟨mem, hpaint⟩ := exists_paint_eq_some hroom 0 0 (0, fb.width)
    (fb.height - GLYPH_HEIGHT, fb.height) (fun _ _ => c.writer.background.rgb) memUp
  have hnonzero : ¬ fb.height / GLYPH_HEIGHT = 0 := Nat.ne_of_gt hrows
  refine ⟨mem, ?_⟩
  simp only [Console.scroll, hframebuffer, Option.bind_some, hcopy, hpaint, if_neg hnonzero]
  rfl

/-- Without a text row there is nothing to scroll to. -/
theorem scroll_eq_none
    (hrows : textRows fb = 0)
    (hframebuffer : c.writer.framebuffer = some fb) :
    c.scroll = none := by
  have hzero : fb.height / GLYPH_HEIGHT = 0 := hrows
  obtain ⟨memUp, hcopy, -⟩ := copyUp_spec fb (GLYPH_HEIGHT * (fb.stride * 4)) c.mem
  simp only [Console.scroll, hframebuffer, Option.bind_some, hcopy, if_pos hzero]
  exact Option.bind_eq_none_iff.2 fun _ _ => rfl

/-- The row below, or the last one. -/
def nextRow (fb : FrameBufferInfo) (row : Nat) : Nat :=
  if row + 1 < textRows fb then row + 1 else textRows fb - 1

theorem nextRow_lt
    {row : Nat}
    (hrow : row < textRows fb) :
    nextRow fb row < textRows fb := by
  unfold nextRow
  split <;> omega

theorem newLine_cursor
    (hroom : RoomForPixels fb)
    (h : CursorInGrid fb c) :
    ∃ mem, c.newLine =
      some ⟨{ c.writer with column := 0, row := nextRow fb c.writer.row }, mem⟩ := by
  have hdimensions := dimensions_eq
    (c := { c with writer := { c.writer with column := 0, row := c.writer.row + 1 } })
    h.framebuffer_eq
  simp only [Console.newLine, hdimensions, Option.bind_some, nextRow]
  by_cases hnext : c.writer.row + 1 < textRows fb
  · rw [if_neg (by omega), if_pos hnext]
    exact ⟨c.mem, rfl⟩
  · rw [if_pos (by omega), if_neg hnext]
    exact scroll_cursor
      (c := { c with writer := { c.writer with column := 0, row := c.writer.row + 1 } })
      hroom (Nat.zero_lt_of_lt h.row_lt) h.framebuffer_eq

/-- Where the next glyph goes: the cursor, or the start of the next row at the right edge. -/
def glyphCursor (fb : FrameBufferInfo) (writer : Writer) : Nat × Nat :=
  if writer.column < textColumns fb then
    (writer.row, writer.column)
  else
    (nextRow fb writer.row, 0)

theorem wrap_cursor
    (hroom : RoomForPixels fb)
    (h : CursorInGrid fb c) :
    ∃ mem, (if textColumns fb ≤ c.writer.column then c.newLine else some c) =
      some ⟨{ c.writer with
        row := (glyphCursor fb c.writer).1, column := (glyphCursor fb c.writer).2 }, mem⟩ := by
  unfold glyphCursor
  by_cases hinside : c.writer.column < textColumns fb
  · rw [if_neg (by omega), if_pos hinside]
    exact ⟨c.mem, rfl⟩
  · rw [if_pos (by omega), if_neg hinside]
    exact newLine_cursor hroom h

theorem glyphCursor_row_lt
    (h : CursorInGrid fb c) :
    (glyphCursor fb c.writer).1 < textRows fb := by
  unfold glyphCursor
  split
  · exact h.row_lt
  · exact nextRow_lt h.row_lt

theorem glyphCursor_column_le
    (fb : FrameBufferInfo) (writer : Writer) :
    (glyphCursor fb writer).2 + 1 ≤ max 1 (textColumns fb) := by
  unfold glyphCursor
  split <;> simp only <;> omega

theorem writeGlyph_cursor
    (hroom : RoomForPixels fb)
    (h : CursorInGrid fb c)
    (byte : UInt8) :
    ∃ mem, c.writeGlyph byte = some ⟨{ c.writer with
      row := (glyphCursor fb c.writer).1, column := (glyphCursor fb c.writer).2 + 1 }, mem⟩ := by
  obtain ⟨memWrap, hwrap⟩ := wrap_cursor hroom h
  have hrow := glyphCursor_row_lt h
  obtain ⟨mem, hdraw⟩ := drawGlyph_cursor
    (c := ⟨{ c.writer with
      row := (glyphCursor fb c.writer).1, column := (glyphCursor fb c.writer).2 }, memWrap⟩)
    hroom h.framebuffer_eq byte
    ((glyphCursor fb c.writer).2 * GLYPH_WIDTH) ((glyphCursor fb c.writer).1 * GLYPH_HEIGHT)
  refine ⟨mem, ?_⟩
  simp only [Console.writeGlyph, dimensions_eq h.framebuffer_eq, Option.bind_some, hwrap,
    if_neg (Nat.not_le_of_lt hrow), hdraw]

theorem backspace_cursor
    (hroom : RoomForPixels fb)
    (h : CursorInGrid fb c) :
    ∃ mem, c.backspace = some ⟨{ c.writer with column := c.writer.column - 1 }, mem⟩ := by
  by_cases hfirst : c.writer.column = 0
  · rw [Console.backspace, if_pos hfirst, hfirst]
    refine ⟨c.mem, ?_⟩
    rw [Nat.zero_sub, ← hfirst]
  · rw [Console.backspace, if_neg hfirst]
    exact drawGlyph_cursor
      (c := { c with writer := { c.writer with column := c.writer.column - 1 } })
      hroom h.framebuffer_eq 0x20 _ _

theorem writeByte_inGrid
    (hroom : RoomForPixels fb)
    (h : CursorInGrid fb c)
    (byte : UInt8) :
    ∃ c', c.writeByte byte = some c' ∧ CursorInGrid fb c' := by
  rw [Console.writeByte]
  split
  · obtain ⟨mem, hnew⟩ := newLine_cursor hroom h
    exact ⟨_, hnew, h.framebuffer_eq, nextRow_lt h.row_lt, Nat.zero_le _⟩
  · split
    · obtain ⟨mem, hback⟩ := backspace_cursor hroom h
      exact ⟨_, hback, h.framebuffer_eq, h.row_lt, (Nat.sub_le _ _).trans h.column_le⟩
    · obtain ⟨mem, hglyph⟩ := writeGlyph_cursor hroom h byte
      exact ⟨_, hglyph, h.framebuffer_eq, glyphCursor_row_lt h, glyphCursor_column_le fb c.writer⟩

theorem writeBytes_inGrid
    (hroom : RoomForPixels fb)
    (h : CursorInGrid fb c)
    (bytes : List UInt8) :
    ∃ c', c.writeBytes bytes = some c' ∧ CursorInGrid fb c' := by
  induction bytes generalizing c with
  | nil => exact ⟨c, rfl, h⟩
  | cons byte bytes ih =>
      obtain ⟨d, hbyte, hd⟩ := writeByte_inGrid hroom h (Console.written byte)
      obtain ⟨c', hrest, hc'⟩ := ih hd
      exact ⟨c', by rw [Console.writeBytes, hbyte, Option.bind_some, hrest], hc'⟩

theorem apply_inGrid
    (hroom : RoomForPixels fb)
    (h : CursorInGrid fb c)
    (call : WriterCall) :
    ∃ c', c.apply call = some c' ∧ CursorInGrid fb c' := by
  cases call with
  | writeString text => exact writeBytes_inGrid hroom h _
  | setColors foreground background =>
      exact ⟨_, rfl, h.framebuffer_eq, h.row_lt, h.column_le⟩
  | clearScreen =>
      obtain ⟨mem, hclear⟩ := clearScreen_cursor hroom h.framebuffer_eq
      exact ⟨_, hclear, h.framebuffer_eq, Nat.zero_lt_of_lt h.row_lt, Nat.zero_le _⟩

/-- No sequence of calls fails or takes the cursor out of the text rows. -/
theorem applyAll_inGrid
    (hroom : RoomForPixels fb)
    (h : CursorInGrid fb c)
    (calls : List WriterCall) :
    ∃ c', c.applyAll calls = some c' ∧ CursorInGrid fb c' := by
  induction calls generalizing c with
  | nil => exact ⟨c, rfl, h⟩
  | cons call rest ih =>
      obtain ⟨d, hcall, hd⟩ := apply_inGrid hroom h call
      obtain ⟨c', hrest, hc'⟩ := ih hd
      exact ⟨c', by rw [Console.applyAll, hcall, Option.bind_some, hrest], hc'⟩

end Cursor

section Safety

variable {fb : FrameBufferInfo} {c c' : Console}

/-- `init` fills the screen and puts the cursor in its corner. -/
theorem init_eq_some_iff
    (haddress : fb.address ≠ 0)
    (hbytes : fb.stride * fb.height * 4 ≤ fb.byteLen) :
    (∃ c', c.init fb = some c') ↔ RoomForPixels fb := by
  rw [Console.init, if_pos ⟨haddress, hbytes⟩]
  constructor
  · rintro ⟨c', hclear⟩
    simp only [Console.clearScreen, Option.bind_some] at hclear
    obtain ⟨mem, hpaint, -⟩ := Option.bind_eq_some_iff.1 hclear
    exact roomForPixels_of_paint hpaint
  · intro hroom
    obtain ⟨mem, hclear⟩ := clearScreen_cursor
      (c := { c with writer := { c.writer with framebuffer := some fb } }) hroom rfl
    exact ⟨_, hclear⟩

theorem init_cursor
    (h : c.init fb = some c') :
    c'.writer.framebuffer = some fb ∧ c'.writer.row = 0 ∧ c'.writer.column = 0 := by
  rw [Console.init] at h
  split at h
  · simp only [Console.clearScreen, Option.bind_some] at h
    obtain ⟨mem, -, hmem⟩ := Option.bind_eq_some_iff.1 h
    cases hmem
    exact ⟨rfl, rfl, rfl⟩
  · cases h

/-- Without a text row the first line end scrolls, and there is no last row to scroll to. -/
theorem lineEnd_eq_none
    (hrows : textRows fb = 0)
    (hframebuffer : c.writer.framebuffer = some fb) :
    c.applyAll [.writeString ['\n']] = none := by
  have hdimensions := dimensions_eq
    (c := { c with writer := { c.writer with column := 0, row := c.writer.row + 1 } })
    hframebuffer
  have hnewline : c.newLine = none := by
    simp only [Console.newLine, hdimensions, Option.bind_some, hrows, Nat.zero_le, if_true]
    exact scroll_eq_none
      (c := { c with writer := { c.writer with column := 0, row := c.writer.row + 1 } })
      hrows hframebuffer
  have hcalls : c.applyAll [.writeString ['\n']] =
      (c.newLine.bind fun c => some c).bind fun c => some c := rfl
  rw [hcalls, hnewline]
  rfl

/-- Every call from `init` on stays inside the buffer and subtracts without underflow on
exactly the framebuffers that have a text row and room for their last pixel. -/
theorem console_safe_iff
    (fb : FrameBufferInfo) (before : Console)
    (haddress : fb.address ≠ 0)
    (hbytes : fb.stride * fb.height * 4 ≤ fb.byteLen) :
    (∃ c, before.init fb = some c ∧ ∀ calls, ∃ c', c.applyAll calls = some c') ↔
      GLYPH_HEIGHT ≤ fb.height ∧
        (fb.width = 0 ∨ ((fb.height - 1) * fb.stride + fb.width) * 4 ≤ fb.byteLen) := by
  have hrows : GLYPH_HEIGHT ≤ fb.height ↔ 0 < textRows fb := by
    unfold textRows GLYPH_HEIGHT
    omega
  constructor
  · rintro ⟨c, hinit, hcalls⟩
    have hroom := (init_eq_some_iff haddress hbytes).1 ⟨c, hinit⟩
    obtain ⟨hframebuffer, hrow, -⟩ := init_cursor hinit
    have hheight : GLYPH_HEIGHT ≤ fb.height := by
      rw [hrows]
      by_contra hnone
      obtain ⟨c', hlineend⟩ := hcalls [.writeString ['\n']]
      rw [lineEnd_eq_none (by omega) hframebuffer] at hlineend
      cases hlineend
    have hpos : fb.height ≠ 0 := by
      unfold GLYPH_HEIGHT at hheight
      omega
    exact ⟨hheight, hroom.imp_right fun h => h.resolve_left hpos⟩
  · rintro ⟨hheight, hlast⟩
    have hroom : RoomForPixels fb := hlast.imp_right Or.inr
    obtain ⟨c, hinit⟩ := (init_eq_some_iff (c := before) haddress hbytes).2 hroom
    obtain ⟨hframebuffer, hrow, hcolumn⟩ := init_cursor hinit
    have hgrid : CursorInGrid fb c :=
      ⟨hframebuffer, by rw [hrow]; exact hrows.1 hheight, by rw [hcolumn]; exact Nat.zero_le _⟩
    refine ⟨c, hinit, fun calls => ?_⟩
    obtain ⟨c', hcalls, -⟩ := applyAll_inGrid hroom hgrid calls
    exact ⟨c', hcalls⟩

/-- A screen of half a text row: `init` accepts it and the first line end subtracts one
from zero. -/
theorem half_row_underflows :
    let fb : FrameBufferInfo := ⟨0x80000000, 256, 8, 8, 8, .Rgb⟩
    fb.address ≠ 0 ∧ fb.stride * fb.height * 4 ≤ fb.byteLen ∧
      ∃ c, Console.init ⟨Writer.new, fun _ => 0⟩ fb = some c ∧
        c.applyAll [.writeString ['\n']] = none := by
  intro fb
  have hroom : RoomForPixels fb := Or.inr (Or.inr (by decide))
  obtain ⟨c, hinit⟩ :=
    (init_eq_some_iff (c := ⟨Writer.new, fun _ => 0⟩) (by decide) (by decide)).2 hroom
  obtain ⟨hframebuffer, -, -⟩ := init_cursor hinit
  have hrows : textRows fb = 0 := by decide
  exact ⟨by decide, by decide, c, hinit, lineEnd_eq_none hrows hframebuffer⟩

theorem console_safe_iff_one_cell :
    ∃ c, Console.init ⟨Writer.new, fun _ => 0⟩ ⟨0x80000000, 700, 8, 17, 9, .Bgr⟩ = some c ∧
      ∀ calls, ∃ c', c.applyAll calls = some c' :=
  (console_safe_iff ⟨0x80000000, 700, 8, 17, 9, .Bgr⟩ ⟨Writer.new, fun _ => 0⟩
    (by decide) (by decide)).2 ⟨by decide, Or.inr (by decide)⟩

end Safety

end Vga
end OpenKernel
