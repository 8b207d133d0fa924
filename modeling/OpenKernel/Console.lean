import OpenKernel.Framebuffer
import OpenKernel.VgaFont

/-!
# The console writer

`Writer` of `src/vga_buffer.rs` with the memory it writes to.  A method returns
`none` where the source would panic or leave the framebuffer: on a missing
framebuffer, on a failed assertion of `init`, on an access that is out of bounds
and where `height / GLYPH_HEIGHT - 1` would underflow.  The other sums are
offsets into the framebuffer and positions on it.
-/

namespace OpenKernel
namespace Vga

def GLYPH_WIDTH : Nat := 8

def GLYPH_HEIGHT : Nat := 16

inductive Color where
  | Black
  | Green
  | LightGreen
  | White
  | Amber
  | Cyan
  | Magenta
  | Red

def Color.rgb : Color → Rgb
  | Black => (0, 0, 0)
  | Green => (0, 170, 0)
  | LightGreen => (85, 255, 85)
  | White => (255, 255, 255)
  | Amber => (255, 170, 0)
  | Cyan => (0, 255, 255)
  | Magenta => (255, 0, 255)
  | Red => (255, 85, 85)

structure Writer where
  framebuffer : Option FrameBufferInfo
  column : Nat
  row : Nat
  foreground : Color
  background : Color

def Writer.new : Writer where
  framebuffer := none
  column := 0
  row := 0
  foreground := .White
  background := .Black

/-- The writer and the framebuffer's memory. -/
structure Console where
  writer : Writer
  mem : Memory

/-- `bits & (0x80 >> glyph_x) != 0` for a row of a byte's glyph. -/
def glyphBit (byte : UInt8) (glyph_x glyph_y : Nat) : Bool :=
  VGA_FONT_8X16 (byte.toNat * GLYPH_HEIGHT + glyph_y) &&& (0x80 >>> glyph_x.toUInt8) != 0

namespace Console

def dimensions (c : Console) : Option (Nat × Nat) :=
  c.writer.framebuffer.map fun fb =>
    (fb.width / GLYPH_WIDTH, fb.height / GLYPH_HEIGHT)

def clearScreen (c : Console) : Option Console :=
  c.writer.framebuffer.bind fun fb =>
  let color := c.writer.background.rgb
  (paint fb 0 0 (0, fb.width) (0, fb.height) (fun _ _ => color) c.mem).bind fun mem =>
  some ⟨{ c.writer with column := 0, row := 0 }, mem⟩

def init (c : Console) (framebuffer : FrameBufferInfo) : Option Console :=
  if framebuffer.address ≠ 0 ∧
      framebuffer.stride * framebuffer.height * 4 ≤ framebuffer.byteLen then
    clearScreen { c with writer := { c.writer with framebuffer := some framebuffer } }
  else
    none

def drawGlyph (c : Console) (byte : UInt8) (x y : Nat) : Option Console :=
  c.writer.framebuffer.bind fun fb =>
  let foreground := c.writer.foreground.rgb
  let background := c.writer.background.rgb
  let color := fun glyph_x glyph_y =>
    if glyphBit byte glyph_x glyph_y then foreground else background
  (paint fb x y (0, GLYPH_WIDTH) (0, GLYPH_HEIGHT) color c.mem).bind fun mem =>
  some { c with mem := mem }

def scroll (c : Console) : Option Console :=
  c.writer.framebuffer.bind fun fb =>
  let rowBytes := fb.stride * 4
  let scrollBytes := GLYPH_HEIGHT * rowBytes
  (copyUp fb scrollBytes c.mem).bind fun mem =>
  let background := c.writer.background.rgb
  (paint fb 0 0 (0, fb.width) (fb.height - GLYPH_HEIGHT, fb.height)
    (fun _ _ => background) mem).bind fun mem =>
  if fb.height / GLYPH_HEIGHT = 0 then
    none
  else
    some ⟨{ c.writer with row := fb.height / GLYPH_HEIGHT - 1 }, mem⟩

def newLine (c : Console) : Option Console :=
  let c := { c with writer := { c.writer with column := 0, row := c.writer.row + 1 } }
  c.dimensions.bind fun (_, rows) =>
  if rows ≤ c.writer.row then c.scroll else some c

def backspace (c : Console) : Option Console :=
  if c.writer.column = 0 then
    some c
  else
    let c := { c with writer := { c.writer with column := c.writer.column - 1 } }
    c.drawGlyph 0x20 (c.writer.column * GLYPH_WIDTH) (c.writer.row * GLYPH_HEIGHT)

/-- The last arm of `write_byte`. -/
def writeGlyph (c : Console) (byte : UInt8) : Option Console :=
  c.dimensions.bind fun (columns, rows) =>
  (if columns ≤ c.writer.column then c.newLine else some c).bind fun c =>
  (if rows ≤ c.writer.row then c.scroll else some c).bind fun c =>
  (c.drawGlyph byte (c.writer.column * GLYPH_WIDTH)
    (c.writer.row * GLYPH_HEIGHT)).bind fun c =>
  some { c with writer := { c.writer with column := c.writer.column + 1 } }

def writeByte (c : Console) (byte : UInt8) : Option Console :=
  if byte = '\n'.toUInt8 then
    c.newLine
  else if byte = 0x08 then
    c.backspace
  else
    c.writeGlyph byte

/-- The byte that `write_string` writes for a byte of its text. -/
def written (byte : UInt8) : UInt8 :=
  if (0x20 ≤ byte ∧ byte ≤ 0x7e) ∨ byte = '\n'.toUInt8 ∨ byte = 0x08 then byte else 0xfe

/-- The loop of `write_string`. -/
def writeBytes : Console → List UInt8 → Option Console
  | c, [] => some c
  | c, byte :: bytes =>
      (c.writeByte (written byte)).bind fun c => c.writeBytes bytes

def writeString (c : Console) (text : List Char) : Option Console :=
  c.writeBytes (text.flatMap String.utf8EncodeChar)

def setColors (c : Console) (foreground background : Color) : Console :=
  { c with writer := { c.writer with foreground := foreground, background := background } }

end Console

end Vga
end OpenKernel
