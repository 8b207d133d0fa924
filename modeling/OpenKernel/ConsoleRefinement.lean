import OpenKernel.Console
import OpenKernel.TextTerminal

/-!
# The console refines a text terminal

A terminal of `height / 16` rows and `width / 8` columns whose glyphs are bytes
with a foreground colour is shown on the visible pixels: each cell by the font,
and everything outside the cells, the strip below the last row included, in the
background colour.  `Shown` says this of a memory and a grid of cells; each
method of the writer that draws has a lemma that carries `Shown` from the grid
before to the grid after, and `Shows` adds the cursor and the colours.
-/

namespace OpenKernel
namespace Vga

open Terminal

section Rendering

/-- A byte and the foreground colour it was written in. -/
abbrev Glyph := UInt8 × Color

def textRows (fb : FrameBufferInfo) : Nat :=
  fb.height / GLYPH_HEIGHT

def textColumns (fb : FrameBufferInfo) : Nat :=
  fb.width / GLYPH_WIDTH

/-- The colour of one pixel of a cell. -/
def cellColor (background : Color) (content : Option Glyph) (glyph_x glyph_y : Nat) : Rgb :=
  match content with
  | none => background.rgb
  | some (byte, foreground) =>
      if glyphBit byte glyph_x glyph_y then foreground.rgb else background.rgb

/-- The colour of a visible pixel when the cells are shown. -/
def renderAt (fb : FrameBufferInfo) (background : Color) (cells : Nat → Nat → Option Glyph)
    (x y : Nat) : Rgb :=
  if y / GLYPH_HEIGHT < textRows fb ∧ x / GLYPH_WIDTH < textColumns fb then
    cellColor background (cells (y / GLYPH_HEIGHT) (x / GLYPH_WIDTH))
      (x % GLYPH_WIDTH) (y % GLYPH_HEIGHT)
  else
    background.rgb

/-- The visible pixels show the cells, and the background outside of them. -/
def Shown (fb : FrameBufferInfo) (background : Color) (cells : Nat → Nat → Option Glyph)
    (mem : Memory) : Prop :=
  ∀ x y, x < fb.width → y < fb.height →
    pixel fb mem x y = encode fb (renderAt fb background cells x y)

variable {fb : FrameBufferInfo} {background : Color}

theorem renderAt_blank
    (x y : Nat) :
    renderAt fb background (fun _ _ => none) x y = background.rgb := by
  unfold renderAt cellColor
  split <;> rfl

/-- Inside the cell that was set the new content is rendered, elsewhere the old one. -/
theorem renderAt_setCell
    {cells : Nat → Nat → Option Glyph} {row column : Nat}
    (hrow : row < textRows fb) (hcolumn : column < textColumns fb)
    (content : Option Glyph) (x y : Nat) :
    renderAt fb background (setCell cells row column content) x y =
      if x / GLYPH_WIDTH = column ∧ y / GLYPH_HEIGHT = row then
        cellColor background content (x % GLYPH_WIDTH) (y % GLYPH_HEIGHT)
      else renderAt fb background cells x y := by
  by_cases hcell : x / GLYPH_WIDTH = column ∧ y / GLYPH_HEIGHT = row
  · rw [if_pos hcell]
    simp [renderAt, hcell, hrow, hcolumn, setCell]
  · have hother : ¬ (y / GLYPH_HEIGHT = row ∧ x / GLYPH_WIDTH = column) :=
      fun h => hcell ⟨h.2, h.1⟩
    rw [if_neg hcell]
    simp [renderAt, setCell, hother]

/-- One text row down in the old cells is what the shifted cells render. -/
theorem renderAt_shiftUp
    (cells : Nat → Nat → Option Glyph) (x y : Nat) :
    renderAt fb background (shiftUp (textRows fb) cells) x y =
      if y + GLYPH_HEIGHT < fb.height then
        renderAt fb background cells x (y + GLYPH_HEIGHT)
      else background.rgb := by
  have hdiv : (y + GLYPH_HEIGHT) / GLYPH_HEIGHT = y / GLYPH_HEIGHT + 1 := by
    unfold GLYPH_HEIGHT
    omega
  have hmod : (y + GLYPH_HEIGHT) % GLYPH_HEIGHT = y % GLYPH_HEIGHT := by
    unfold GLYPH_HEIGHT
    omega
  have hlast : y / GLYPH_HEIGHT + 1 < textRows fb → y + GLYPH_HEIGHT < fb.height := by
    unfold textRows GLYPH_HEIGHT
    omega
  unfold renderAt
  rw [hdiv, hmod]
  by_cases hnext : y / GLYPH_HEIGHT + 1 < textRows fb
  · have hrow : y / GLYPH_HEIGHT < textRows fb := by omega
    simp [hlast hnext, hnext, hrow, shiftUp]
  · simp [hnext, shiftUp, cellColor]

end Rendering

section Drawing

variable {fb : FrameBufferInfo} {background : Color}
variable {cells : Nat → Nat → Option Glyph} {c : Console}

/-- A space has no foreground pixel. -/
theorem glyphBit_space
    (glyph_x : Nat) {glyph_y : Nat}
    (hy : glyph_y < GLYPH_HEIGHT) :
    glyphBit 0x20 glyph_x glyph_y = false := by
  have hzero := font_space glyph_y hy
  have hspace : (0x20 : UInt8).toNat = 0x20 := rfl
  simp only [glyphBit, GLYPH_HEIGHT, hspace, hzero]
  simp

/-- Filling the screen shows blank cells, whatever it showed before. -/
theorem clearScreen_spec
    (hfits : Fits fb)
    (hframebuffer : c.writer.framebuffer = some fb)
    (hbackground : c.writer.background = background) :
    ∃ mem, c.clearScreen = some ⟨{ c.writer with column := 0, row := 0 }, mem⟩ ∧
      Shown fb background (fun _ _ => none) mem := by
  obtain ⟨mem, hpaint, hpixels⟩ :=
    paint_spec hfits 0 0 (0, fb.width) (0, fb.height)
      (Nat.zero_le _) (Nat.zero_le _) (fun _ _ => background.rgb) c.mem
  refine ⟨mem, ?_, ?_⟩
  · simp only [Console.clearScreen, hframebuffer, hbackground, Option.bind_some, hpaint]
  · intro x y hx hy
    rw [hpixels x y hx hy, renderAt_blank, if_pos (by simp [hx, hy])]

/-- Drawing a glyph changes the pixels of its cell and no others. -/
theorem drawGlyph_pixels
    (hfits : Fits fb)
    (hframebuffer : c.writer.framebuffer = some fb)
    (byte : UInt8) (row column : Nat) :
    ∃ mem, c.drawGlyph byte (column * GLYPH_WIDTH) (row * GLYPH_HEIGHT) =
        some { c with mem := mem } ∧
      ∀ x y, x < fb.width → y < fb.height →
        pixel fb mem x y =
          if x / GLYPH_WIDTH = column ∧ y / GLYPH_HEIGHT = row then
            encode fb (if glyphBit byte (x % GLYPH_WIDTH) (y % GLYPH_HEIGHT) then
              c.writer.foreground.rgb else c.writer.background.rgb)
          else pixel fb c.mem x y := by
  obtain ⟨mem, hpaint, hpixels⟩ :=
    paint_spec hfits (column * GLYPH_WIDTH) (row * GLYPH_HEIGHT)
      (0, GLYPH_WIDTH) (0, GLYPH_HEIGHT) (Nat.zero_le _) (Nat.zero_le _)
      (fun glyph_x glyph_y => if glyphBit byte glyph_x glyph_y then c.writer.foreground.rgb
        else c.writer.background.rgb) c.mem
  refine ⟨mem, ?_, ?_⟩
  · simp only [Console.drawGlyph, hframebuffer, Option.bind_some, hpaint]
  · intro x y hx hy
    rw [hpixels x y hx hy]
    by_cases hcell : x / GLYPH_WIDTH = column ∧ y / GLYPH_HEIGHT = row
    · have hinside : (column * GLYPH_WIDTH + 0 ≤ x ∧ x < column * GLYPH_WIDTH + GLYPH_WIDTH) ∧
          (row * GLYPH_HEIGHT + 0 ≤ y ∧ y < row * GLYPH_HEIGHT + GLYPH_HEIGHT) := by
        unfold GLYPH_WIDTH GLYPH_HEIGHT at *
        omega
      have hoff : x - column * GLYPH_WIDTH = x % GLYPH_WIDTH ∧
          y - row * GLYPH_HEIGHT = y % GLYPH_HEIGHT := by
        unfold GLYPH_WIDTH GLYPH_HEIGHT at *
        omega
      rw [if_pos hinside, if_pos hcell, hoff.1, hoff.2]
    · have hinside : ¬ ((column * GLYPH_WIDTH + 0 ≤ x ∧
            x < column * GLYPH_WIDTH + GLYPH_WIDTH) ∧
          (row * GLYPH_HEIGHT + 0 ≤ y ∧ y < row * GLYPH_HEIGHT + GLYPH_HEIGHT)) := by
        unfold GLYPH_WIDTH GLYPH_HEIGHT at *
        omega
      rw [if_neg hinside, if_neg hcell]

/-- Drawing the glyph of a content over a cell shows that content in the cell. -/
theorem drawGlyph_spec
    (hfits : Fits fb)
    (hframebuffer : c.writer.framebuffer = some fb)
    (hbackground : c.writer.background = background)
    (hshown : Shown fb background cells c.mem)
    {row column : Nat}
    (hrow : row < textRows fb) (hcolumn : column < textColumns fb)
    (byte : UInt8) {content : Option Glyph}
    (hcontent : ∀ glyph_x glyph_y, glyph_y < GLYPH_HEIGHT →
      cellColor background content glyph_x glyph_y =
        if glyphBit byte glyph_x glyph_y then c.writer.foreground.rgb else background.rgb) :
    ∃ mem, c.drawGlyph byte (column * GLYPH_WIDTH) (row * GLYPH_HEIGHT) =
        some { c with mem := mem } ∧
      Shown fb background (setCell cells row column content) mem := by
  obtain ⟨mem, hdraw, hpixels⟩ := drawGlyph_pixels hfits hframebuffer byte row column
  refine ⟨mem, hdraw, ?_⟩
  intro x y hx hy
  rw [hpixels x y hx hy, renderAt_setCell hrow hcolumn, hbackground]
  split
  · have hglyph : y % GLYPH_HEIGHT < GLYPH_HEIGHT := Nat.mod_lt _ (by decide)
    rw [hcontent _ _ hglyph]
  · exact hshown x y hx hy

/-- Scrolling moves the pixels up by a text row and fills the last one. -/
theorem scroll_pixels
    (hfits : Fits fb)
    (hheight : GLYPH_HEIGHT ≤ fb.height)
    (hframebuffer : c.writer.framebuffer = some fb) :
    ∃ mem, c.scroll = some ⟨{ c.writer with row := textRows fb - 1 }, mem⟩ ∧
      ∀ x y, x < fb.width → y < fb.height →
        pixel fb mem x y =
          if y + GLYPH_HEIGHT < fb.height then pixel fb c.mem x (y + GLYPH_HEIGHT)
          else encode fb c.writer.background.rgb := by
  obtain ⟨memUp, hcopy, hmoved⟩ := copyUp_pixel hfits GLYPH_HEIGHT c.mem
  obtain ⟨mem, hpaint, hpixels⟩ :=
    paint_spec hfits 0 0 (0, fb.width) (fb.height - GLYPH_HEIGHT, fb.height)
      (Nat.zero_le _) (Nat.sub_le _ _) (fun _ _ => c.writer.background.rgb) memUp
  have hrows : ¬ fb.height / GLYPH_HEIGHT = 0 := by
    unfold GLYPH_HEIGHT at *
    omega
  refine ⟨mem, ?_, ?_⟩
  · simp only [Console.scroll, hframebuffer, Option.bind_some, hcopy, hpaint]
    rw [if_neg hrows]
    rfl
  · intro x y hx hy
    rw [hpixels x y hx hy]
    by_cases hmove : y + GLYPH_HEIGHT < fb.height
    · rw [if_neg (by simp only; omega), if_pos hmove, hmoved x y hx hmove]
    · rw [if_pos (by simp only; omega), if_neg hmove]

/-- Scrolling shows the shifted cells; what comes up from the strip below the last
text row is background. -/
theorem scroll_spec
    (hfits : Fits fb)
    (hheight : GLYPH_HEIGHT ≤ fb.height)
    (hframebuffer : c.writer.framebuffer = some fb)
    (hbackground : c.writer.background = background)
    (hshown : Shown fb background cells c.mem) :
    ∃ mem, c.scroll = some ⟨{ c.writer with row := textRows fb - 1 }, mem⟩ ∧
      Shown fb background (shiftUp (textRows fb) cells) mem := by
  obtain ⟨mem, hscroll, hpixels⟩ := scroll_pixels hfits hheight hframebuffer
  refine ⟨mem, hscroll, ?_⟩
  intro x y hx hy
  rw [hpixels x y hx hy, renderAt_shiftUp, hbackground]
  split
  · rename_i hmove
    exact hshown x (y + GLYPH_HEIGHT) hx hmove
  · rfl

end Drawing

section Cursor

/-- The console shows a terminal, with its cursor and its colours. -/
structure Shows (fb : FrameBufferInfo) (background foreground : Color) (c : Console)
    (t : Terminal (textRows fb) (textColumns fb) Glyph) : Prop where
  framebuffer_eq : c.writer.framebuffer = some fb
  background_eq : c.writer.background = background
  foreground_eq : c.writer.foreground = foreground
  row_eq : c.writer.row = t.row
  column_eq : c.writer.column = t.column
  shown : Shown fb background t.cell c.mem

variable {fb : FrameBufferInfo} {background foreground : Color} {c : Console}
variable {t : Terminal (textRows fb) (textColumns fb) Glyph}

theorem dimensions_eq
    (hframebuffer : c.writer.framebuffer = some fb) :
    c.dimensions = some (textColumns fb, textRows fb) := by
  simp [Console.dimensions, hframebuffer, textColumns, textRows]

theorem height_le
    (t : Terminal (textRows fb) (textColumns fb) Glyph) :
    GLYPH_HEIGHT ≤ fb.height := by
  have hrows : 0 < textRows fb := Nat.zero_lt_of_lt t.row_lt
  unfold textRows GLYPH_HEIGHT at *
  omega

theorem newLine_spec
    (hfits : Fits fb)
    (h : Shows fb background foreground c t) :
    ∃ c', c.newLine = some c' ∧ Shows fb background foreground c' t.newline := by
  have hdimensions : Console.dimensions
      { c with writer := { c.writer with column := 0, row := c.writer.row + 1 } } =
      some (textColumns fb, textRows fb) :=
    dimensions_eq h.framebuffer_eq
  unfold Console.newLine Terminal.newline
  dsimp only
  rw [hdimensions, Option.bind_some, h.row_eq]
  by_cases hnext : t.row + 1 < textRows fb
  · rw [if_neg (by omega), dif_pos hnext]
    exact ⟨_, rfl, h.framebuffer_eq, h.background_eq, h.foreground_eq, rfl, rfl, h.shown⟩
  · -- the cursor was in the last row
    rw [if_pos (by omega), dif_neg hnext]
    have hlast : textRows fb - 1 = t.row := by
      have hrow := t.row_lt
      omega
    obtain ⟨mem, hscroll, hshown⟩ := scroll_spec
      (c := { c with writer := { c.writer with column := 0, row := t.row + 1 } })
      hfits (height_le t) h.framebuffer_eq h.background_eq h.shown
    exact ⟨_, hscroll, h.framebuffer_eq, h.background_eq, h.foreground_eq, hlast, rfl, hshown⟩

theorem backspace_spec
    (hfits : Fits fb)
    (h : Shows fb background foreground c t) :
    ∃ c', c.backspace = some c' ∧ Shows fb background foreground c' t.backspace := by
  unfold Console.backspace Terminal.backspace
  rw [h.column_eq]
  by_cases hfirst : t.column = 0
  · rw [if_pos hfirst, if_pos hfirst]
    exact ⟨c, rfl, h⟩
  · rw [if_neg hfirst, if_neg hfirst]
    have hcolumn : t.column - 1 < textColumns fb := by
      have hle := t.column_le
      omega
    have hcontent : ∀ glyph_x glyph_y, glyph_y < GLYPH_HEIGHT →
        cellColor background none glyph_x glyph_y =
          if glyphBit 0x20 glyph_x glyph_y then c.writer.foreground.rgb
          else background.rgb := by
      intro glyph_x glyph_y hy
      simp [cellColor, glyphBit_space glyph_x hy]
    obtain ⟨mem, hdraw, hshown⟩ := drawGlyph_spec
      (c := { c with writer := { c.writer with column := t.column - 1 } })
      hfits h.framebuffer_eq h.background_eq h.shown t.row_lt hcolumn 0x20 hcontent
    rw [← h.row_eq] at hdraw
    exact ⟨_, hdraw, h.framebuffer_eq, h.background_eq, h.foreground_eq, h.row_eq, rfl, hshown⟩

/-- The wrap before a glyph. -/
theorem wrap_spec
    (hfits : Fits fb)
    (h : Shows fb background foreground c t) :
    ∃ c', (if textColumns fb ≤ c.writer.column then c.newLine else some c) = some c' ∧
      Shows fb background foreground c' t.wrap := by
  unfold Terminal.wrap
  rw [h.column_eq]
  by_cases hinside : t.column < textColumns fb
  · rw [if_neg (by omega), if_pos hinside]
    exact ⟨c, rfl, h⟩
  · rw [if_pos (by omega), if_neg hinside]
    exact newLine_spec hfits h

theorem writeGlyph_spec
    (hfits : Fits fb)
    (h : Shows fb background foreground c t)
    (byte : UInt8) :
    ∃ c', c.writeGlyph byte = some c' ∧
      Shows fb background foreground c' (t.put (byte, foreground)) := by
  obtain ⟨d, hwrap, hd⟩ := wrap_spec hfits h
  have hcolumn : t.wrap.column < textColumns fb := t.wrap_column_lt
  have hrow : ¬ textRows fb ≤ d.writer.row := by
    have hlt := t.wrap.row_lt
    rw [hd.row_eq]
    omega
  have hcontent : ∀ glyph_x glyph_y, glyph_y < GLYPH_HEIGHT →
      cellColor background (some (byte, foreground)) glyph_x glyph_y =
        if glyphBit byte glyph_x glyph_y then d.writer.foreground.rgb
        else background.rgb := by
    intro glyph_x glyph_y _
    rw [hd.foreground_eq]
    rfl
  obtain ⟨mem, hdraw, hshown⟩ :=
    drawGlyph_spec hfits hd.framebuffer_eq hd.background_eq hd.shown t.wrap.row_lt hcolumn byte hcontent
  refine ⟨{ writer := { d.writer with column := d.writer.column + 1 }, mem := mem }, ?_, ?_⟩
  · unfold Console.writeGlyph
    rw [dimensions_eq h.framebuffer_eq, Option.bind_some]
    dsimp only
    rw [hwrap, Option.bind_some, if_neg hrow, Option.bind_some, hd.row_eq, hd.column_eq, hdraw,
      Option.bind_some]
    simp only [hd.column_eq, hd.row_eq]
  · refine ⟨hd.framebuffer_eq, hd.background_eq, hd.foreground_eq, hd.row_eq, ?_, hshown⟩
    show d.writer.column + 1 = t.wrap.column + 1
    rw [hd.column_eq]

end Cursor

section Reference

/-- What the reference terminal does with a byte of a text. -/
def typeByte {rows cols : Nat} (t : Terminal rows cols Glyph) (foreground : Color)
    (byte : UInt8) : Terminal rows cols Glyph :=
  if byte = '\n'.toUInt8 then
    t.newline
  else if byte = 0x08 then
    t.backspace
  else if 0x20 ≤ byte ∧ byte ≤ 0x7e then
    t.put (byte, foreground)
  else
    -- the fallback glyph
    t.put (0xfe, foreground)

structure ReferenceConsole (rows cols : Nat) where
  terminal : Terminal rows cols Glyph
  foreground : Color

/-- The calls of the console's users, with one background colour throughout. -/
inductive ConsoleCall where
  | writeString (text : List Char)
  | setForeground (foreground : Color)
  | clearScreen

def Console.call (background : Color) (c : Console) : ConsoleCall → Option Console
  | .writeString text => c.writeString text
  | .setForeground foreground => some (c.setColors foreground background)
  | .clearScreen => c.clearScreen

def Console.calls (background : Color) : Console → List ConsoleCall → Option Console
  | c, [] => some c
  | c, call :: rest => (c.call background call).bind fun c => c.calls background rest

def ReferenceConsole.call {rows cols : Nat} (r : ReferenceConsole rows cols) :
    ConsoleCall → ReferenceConsole rows cols
  | .writeString text =>
      { r with
        terminal := (text.flatMap String.utf8EncodeChar).foldl
          (fun t byte => typeByte t r.foreground byte) r.terminal }
  | .setForeground foreground => { r with foreground := foreground }
  | .clearScreen => { r with terminal := r.terminal.clear }

/-- The reference terminal of a framebuffer with at least one cell. -/
def ReferenceConsole.start (fb : FrameBufferInfo)
    (hwidth : GLYPH_WIDTH ≤ fb.width) (hheight : GLYPH_HEIGHT ≤ fb.height) :
    ReferenceConsole (textRows fb) (textColumns fb) where
  terminal := Terminal.blank (Nat.div_pos hheight (by decide)) (Nat.div_pos hwidth (by decide))
  foreground := .White

variable {fb : FrameBufferInfo} {background foreground : Color} {c : Console}
variable {t : Terminal (textRows fb) (textColumns fb) Glyph}

theorem writeByte_spec
    (hfits : Fits fb)
    (h : Shows fb background foreground c t)
    (byte : UInt8) :
    ∃ c', c.writeByte (Console.written byte) = some c' ∧
      Shows fb background foreground c' (typeByte t foreground byte) := by
  unfold Console.writeByte Console.written typeByte
  by_cases hnewline : byte = '\n'.toUInt8
  · simpa [hnewline] using newLine_spec hfits h
  · by_cases hback : byte = 0x08
    · have hne : ¬ (0x08 : UInt8) = '\n'.toUInt8 := by decide
      simpa [hback, hne] using backspace_spec hfits h
    · by_cases hprint : 0x20 ≤ byte ∧ byte ≤ 0x7e
      · simpa [hnewline, hback, hprint] using writeGlyph_spec hfits h byte
      · have hne : ¬ (0xfe : UInt8) = '\n'.toUInt8 := by decide
        simpa [hnewline, hback, hprint, hne] using writeGlyph_spec hfits h 0xfe

theorem writeBytes_spec
    (hfits : Fits fb)
    (h : Shows fb background foreground c t)
    (bytes : List UInt8) :
    ∃ c', c.writeBytes bytes = some c' ∧ Shows fb background foreground c'
      (bytes.foldl (fun t byte => typeByte t foreground byte) t) := by
  induction bytes generalizing c t with
  | nil =>
      exact ⟨c, rfl, h⟩
  | cons byte bytes ih =>
      obtain ⟨d, hbyte, hd⟩ := writeByte_spec hfits h byte
      obtain ⟨c', hrest, hc'⟩ := ih hd
      refine ⟨c', ?_, hc'⟩
      rw [Console.writeBytes, hbyte, Option.bind_some, hrest]

/-- Each call does to what is shown what the reference does. -/
theorem call_spec
    (hfits : Fits fb)
    {r : ReferenceConsole (textRows fb) (textColumns fb)}
    (h : Shows fb background r.foreground c r.terminal)
    (call : ConsoleCall) :
    ∃ c', c.call background call = some c' ∧
      Shows fb background (r.call call).foreground c' (r.call call).terminal := by
  cases call with
  | writeString text =>
      exact writeBytes_spec hfits h _
  | setForeground foreground =>
      exact ⟨_, rfl, h.framebuffer_eq, rfl, rfl, h.row_eq, h.column_eq, h.shown⟩
  | clearScreen =>
      obtain ⟨mem, hclear, hshown⟩ := clearScreen_spec hfits h.framebuffer_eq h.background_eq
      exact ⟨_, hclear, h.framebuffer_eq, h.background_eq, h.foreground_eq, rfl, rfl, hshown⟩

theorem calls_spec
    (hfits : Fits fb)
    {r : ReferenceConsole (textRows fb) (textColumns fb)}
    (h : Shows fb background r.foreground c r.terminal)
    (calls : List ConsoleCall) :
    ∃ c', c.calls background calls = some c' ∧
      Shows fb background (calls.foldl ReferenceConsole.call r).foreground c'
        (calls.foldl ReferenceConsole.call r).terminal := by
  induction calls generalizing c r with
  | nil =>
      exact ⟨c, rfl, h⟩
  | cons call rest ih =>
      obtain ⟨d, hcall, hd⟩ := call_spec hfits h call
      obtain ⟨c', hrest, hc'⟩ := ih hd
      refine ⟨c', ?_, hc'⟩
      rw [Console.calls, hcall, Option.bind_some, hrest]

/--
On every framebuffer that `init` accepts, with rows that do not overlap and room
for a cell, the console never fails, and after every sequence of calls it shows
what the reference terminal holds, with the same cursor, inside the grid.
-/
theorem console_refines_terminal
    (fb : FrameBufferInfo) (background : Color) (mem : Memory)
    (haddress : fb.address ≠ 0)
    (hbytes : fb.stride * fb.height * 4 ≤ fb.byteLen)
    (hstride : fb.width ≤ fb.stride)
    (hwidth : GLYPH_WIDTH ≤ fb.width) (hheight : GLYPH_HEIGHT ≤ fb.height) :
    ∃ c, Console.init ⟨{ Writer.new with background := background }, mem⟩ fb = some c ∧
      ∀ calls, ∃ c', c.calls background calls = some c' ∧
        (∀ x y, x < fb.width → y < fb.height →
          pixel fb c'.mem x y = encode fb (renderAt fb background
            (calls.foldl ReferenceConsole.call
              (ReferenceConsole.start fb hwidth hheight)).terminal.cell x y)) ∧
        c'.writer.row = (calls.foldl ReferenceConsole.call
          (ReferenceConsole.start fb hwidth hheight)).terminal.row ∧
        c'.writer.column = (calls.foldl ReferenceConsole.call
          (ReferenceConsole.start fb hwidth hheight)).terminal.column ∧
        c'.writer.row < fb.height / GLYPH_HEIGHT ∧
        c'.writer.column ≤ fb.width / GLYPH_WIDTH := by
  have hfits : Fits fb := ⟨hstride, hbytes⟩
  obtain ⟨mem₀, hclear, hshown⟩ := clearScreen_spec
    (c := ⟨{ Writer.new with framebuffer := some fb, background := background }, mem⟩)
    hfits rfl rfl
  have hinit : Console.init ⟨{ Writer.new with background := background }, mem⟩ fb =
      some ⟨⟨some fb, 0, 0, .White, background⟩, mem₀⟩ := by
    rw [Console.init, if_pos ⟨haddress, hbytes⟩]
    exact hclear
  have hstart : Shows fb background (ReferenceConsole.start fb hwidth hheight).foreground
      ⟨⟨some fb, 0, 0, .White, background⟩, mem₀⟩
      (ReferenceConsole.start fb hwidth hheight).terminal :=
    ⟨rfl, rfl, rfl, rfl, rfl, hshown⟩
  refine ⟨_, hinit, ?_⟩
  intro calls
  obtain ⟨c', hcalls, hc'⟩ := calls_spec hfits hstart calls
  refine ⟨c', hcalls, hc'.shown, hc'.row_eq, hc'.column_eq, ?_, ?_⟩
  · rw [hc'.row_eq]
    exact Terminal.row_lt _
  · rw [hc'.column_eq]
    exact Terminal.column_le _

/-- One cell and a strip of one pixel row below it: the second letter wraps and
scrolls, and the strip stays black. -/
theorem console_refines_terminal_one_cell :
    let fb : FrameBufferInfo := ⟨0x80000000, 700, 8, 17, 9, .Bgr⟩
    ∃ c c', Console.init ⟨Writer.new, fun _ => 0xAA⟩ fb = some c ∧
      c.calls .Black [.writeString "ab".toList] = some c' ∧
      c'.writer.row = 0 ∧ c'.writer.column = 1 ∧
      pixel fb c'.mem 0 2 = (255, 255, 255, 0) ∧ pixel fb c'.mem 0 16 = (0, 0, 0, 0) := by
  intro fb
  obtain ⟨c, hinit, hcalls⟩ := console_refines_terminal fb .Black (fun _ => 0xAA)
    (by decide) (by decide) (by decide) (by decide) (by decide)
  obtain ⟨c', hrun, hpixels, hrow, hcolumn, -⟩ := hcalls [.writeString "ab".toList]
  have hglyph := hpixels 0 2 (by decide) (by decide)
  have hstrip := hpixels 0 16 (by decide) (by decide)
  refine ⟨c, c', hinit, hrun, hrow.trans (by decide), hcolumn.trans (by decide), ?_, ?_⟩
  · rw [hglyph]
    decide
  · rw [hstrip]
    decide

end Reference

end Vga
end OpenKernel
