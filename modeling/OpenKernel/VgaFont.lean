import Mathlib.Tactic

/-!
# The console font

`VGA_FONT_8X16` of `src/vga_font.rs`: 4096 bytes, zero except for the glyphs
listed here, each at 16 times its byte.
-/

namespace OpenKernel
namespace Vga

/-- The arguments of the `g!` lines. -/
def glyphs : List (Nat × List UInt8) :=
  [(0x20,
      [0x00, 0x00, 0x00, 0x00, 0x00, 0x00, 0x00, 0x00,
        0x00, 0x00, 0x00, 0x00, 0x00, 0x00, 0x00, 0x00]),
    (0x21,
      [0x00, 0x00, 0x18, 0x3C, 0x3C, 0x3C, 0x18, 0x18,
        0x18, 0x00, 0x18, 0x18, 0x00, 0x00, 0x00, 0x00]),
    (0x22,
      [0x00, 0x66, 0x66, 0x66, 0x24, 0x00, 0x00, 0x00,
        0x00, 0x00, 0x00, 0x00, 0x00, 0x00, 0x00, 0x00]),
    (0x23,
      [0x00, 0x00, 0x00, 0x6C, 0x6C, 0xFE, 0x6C, 0x6C,
        0x6C, 0xFE, 0x6C, 0x6C, 0x00, 0x00, 0x00, 0x00]),
    (0x24,
      [0x00, 0x10, 0x10, 0x7C, 0xD6, 0xD0, 0xD0, 0x7C,
        0x16, 0x16, 0xD6, 0x7C, 0x10, 0x10, 0x00, 0x00]),
    (0x25,
      [0x00, 0x00, 0x00, 0x00, 0xC2, 0xC6, 0x0C, 0x18,
        0x30, 0x60, 0xC6, 0x86, 0x00, 0x00, 0x00, 0x00]),
    (0x26,
      [0x00, 0x00, 0x38, 0x6C, 0x6C, 0x38, 0x76, 0xDC,
        0xCC, 0xCC, 0xCC, 0x76, 0x00, 0x00, 0x00, 0x00]),
    (0x27,
      [0x00, 0x30, 0x30, 0x30, 0x60, 0x00, 0x00, 0x00,
        0x00, 0x00, 0x00, 0x00, 0x00, 0x00, 0x00, 0x00]),
    (0x28,
      [0x00, 0x00, 0x0C, 0x18, 0x30, 0x30, 0x30, 0x30,
        0x30, 0x30, 0x18, 0x0C, 0x00, 0x00, 0x00, 0x00]),
    (0x29,
      [0x00, 0x00, 0x30, 0x18, 0x0C, 0x0C, 0x0C, 0x0C,
        0x0C, 0x0C, 0x18, 0x30, 0x00, 0x00, 0x00, 0x00]),
    (0x2A,
      [0x00, 0x00, 0x00, 0x00, 0x00, 0x66, 0x3C, 0xFF,
        0x3C, 0x66, 0x00, 0x00, 0x00, 0x00, 0x00, 0x00]),
    (0x2B,
      [0x00, 0x00, 0x00, 0x00, 0x00, 0x18, 0x18, 0x7E,
        0x18, 0x18, 0x00, 0x00, 0x00, 0x00, 0x00, 0x00]),
    (0x2C,
      [0x00, 0x00, 0x00, 0x00, 0x00, 0x00, 0x00, 0x00,
        0x00, 0x00, 0x18, 0x18, 0x30, 0x00, 0x00, 0x00]),
    (0x2D,
      [0x00, 0x00, 0x00, 0x00, 0x00, 0x00, 0x00, 0xFE,
        0x00, 0x00, 0x00, 0x00, 0x00, 0x00, 0x00, 0x00]),
    (0x2E,
      [0x00, 0x00, 0x00, 0x00, 0x00, 0x00, 0x00, 0x00,
        0x00, 0x00, 0x18, 0x18, 0x00, 0x00, 0x00, 0x00]),
    (0x2F,
      [0x00, 0x00, 0x00, 0x00, 0x02, 0x06, 0x0C, 0x18,
        0x30, 0x60, 0xC0, 0x80, 0x00, 0x00, 0x00, 0x00]),
    (0x30,
      [0x00, 0x00, 0x7C, 0xC6, 0xC6, 0xCE, 0xDE, 0xF6,
        0xE6, 0xC6, 0xC6, 0x7C, 0x00, 0x00, 0x00, 0x00]),
    (0x31,
      [0x00, 0x00, 0x18, 0x38, 0x78, 0x18, 0x18, 0x18,
        0x18, 0x18, 0x18, 0x7E, 0x00, 0x00, 0x00, 0x00]),
    (0x32,
      [0x00, 0x00, 0x7C, 0xC6, 0x06, 0x0C, 0x18, 0x30,
        0x60, 0xC0, 0xC6, 0xFE, 0x00, 0x00, 0x00, 0x00]),
    (0x33,
      [0x00, 0x00, 0x7C, 0xC6, 0x06, 0x06, 0x3C, 0x06,
        0x06, 0x06, 0xC6, 0x7C, 0x00, 0x00, 0x00, 0x00]),
    (0x34,
      [0x00, 0x00, 0x0C, 0x1C, 0x3C, 0x6C, 0xCC, 0xFE,
        0x0C, 0x0C, 0x0C, 0x1E, 0x00, 0x00, 0x00, 0x00]),
    (0x35,
      [0x00, 0x00, 0xFE, 0xC0, 0xC0, 0xC0, 0xFC, 0x06,
        0x06, 0x06, 0xC6, 0x7C, 0x00, 0x00, 0x00, 0x00]),
    (0x36,
      [0x00, 0x00, 0x38, 0x60, 0xC0, 0xC0, 0xFC, 0xC6,
        0xC6, 0xC6, 0xC6, 0x7C, 0x00, 0x00, 0x00, 0x00]),
    (0x37,
      [0x00, 0x00, 0xFE, 0xC6, 0x06, 0x06, 0x0C, 0x18,
        0x30, 0x30, 0x30, 0x30, 0x00, 0x00, 0x00, 0x00]),
    (0x38,
      [0x00, 0x00, 0x7C, 0xC6, 0xC6, 0xC6, 0x7C, 0xC6,
        0xC6, 0xC6, 0xC6, 0x7C, 0x00, 0x00, 0x00, 0x00]),
    (0x39,
      [0x00, 0x00, 0x7C, 0xC6, 0xC6, 0xC6, 0x7E, 0x06,
        0x06, 0x06, 0x0C, 0x78, 0x00, 0x00, 0x00, 0x00]),
    (0x3A,
      [0x00, 0x00, 0x00, 0x00, 0x18, 0x18, 0x00, 0x00,
        0x00, 0x18, 0x18, 0x00, 0x00, 0x00, 0x00, 0x00]),
    (0x3B,
      [0x00, 0x00, 0x00, 0x00, 0x18, 0x18, 0x00, 0x00,
        0x00, 0x18, 0x18, 0x30, 0x00, 0x00, 0x00, 0x00]),
    (0x3C,
      [0x00, 0x00, 0x00, 0x06, 0x0C, 0x18, 0x30, 0x60,
        0x30, 0x18, 0x0C, 0x06, 0x00, 0x00, 0x00, 0x00]),
    (0x3D,
      [0x00, 0x00, 0x00, 0x00, 0x00, 0x7E, 0x00, 0x00,
        0x7E, 0x00, 0x00, 0x00, 0x00, 0x00, 0x00, 0x00]),
    (0x3E,
      [0x00, 0x00, 0x00, 0x60, 0x30, 0x18, 0x0C, 0x06,
        0x0C, 0x18, 0x30, 0x60, 0x00, 0x00, 0x00, 0x00]),
    (0x3F,
      [0x00, 0x00, 0x7C, 0xC6, 0xC6, 0x0C, 0x18, 0x18,
        0x18, 0x00, 0x18, 0x18, 0x00, 0x00, 0x00, 0x00]),
    (0x40,
      [0x00, 0x00, 0x7C, 0xC6, 0xC6, 0xDE, 0xDE, 0xDE,
        0xDC, 0xC0, 0xC0, 0x7C, 0x00, 0x00, 0x00, 0x00]),
    (0x41,
      [0x00, 0x00, 0x10, 0x38, 0x6C, 0xC6, 0xC6, 0xFE,
        0xC6, 0xC6, 0xC6, 0xC6, 0x00, 0x00, 0x00, 0x00]),
    (0x42,
      [0x00, 0x00, 0xFC, 0x66, 0x66, 0x66, 0x7C, 0x66,
        0x66, 0x66, 0x66, 0xFC, 0x00, 0x00, 0x00, 0x00]),
    (0x43,
      [0x00, 0x00, 0x3C, 0x66, 0xC2, 0xC0, 0xC0, 0xC0,
        0xC0, 0xC2, 0x66, 0x3C, 0x00, 0x00, 0x00, 0x00]),
    (0x44,
      [0x00, 0x00, 0xF8, 0x6C, 0x66, 0x66, 0x66, 0x66,
        0x66, 0x66, 0x6C, 0xF8, 0x00, 0x00, 0x00, 0x00]),
    (0x45,
      [0x00, 0x00, 0xFE, 0x66, 0x62, 0x68, 0x78, 0x68,
        0x60, 0x62, 0x66, 0xFE, 0x00, 0x00, 0x00, 0x00]),
    (0x46,
      [0x00, 0x00, 0xFE, 0x66, 0x62, 0x68, 0x78, 0x68,
        0x60, 0x60, 0x60, 0xF0, 0x00, 0x00, 0x00, 0x00]),
    (0x47,
      [0x00, 0x00, 0x3C, 0x66, 0xC2, 0xC0, 0xC0, 0xDE,
        0xC6, 0xC6, 0x66, 0x3A, 0x00, 0x00, 0x00, 0x00]),
    (0x48,
      [0x00, 0x00, 0xC6, 0xC6, 0xC6, 0xC6, 0xFE, 0xC6,
        0xC6, 0xC6, 0xC6, 0xC6, 0x00, 0x00, 0x00, 0x00]),
    (0x49,
      [0x00, 0x00, 0x3C, 0x18, 0x18, 0x18, 0x18, 0x18,
        0x18, 0x18, 0x18, 0x3C, 0x00, 0x00, 0x00, 0x00]),
    (0x4A,
      [0x00, 0x00, 0x1E, 0x0C, 0x0C, 0x0C, 0x0C, 0x0C,
        0xCC, 0xCC, 0xCC, 0x78, 0x00, 0x00, 0x00, 0x00]),
    (0x4B,
      [0x00, 0x00, 0xE6, 0x66, 0x6C, 0x6C, 0x78, 0x78,
        0x6C, 0x66, 0x66, 0xE6, 0x00, 0x00, 0x00, 0x00]),
    (0x4C,
      [0x00, 0x00, 0xF0, 0x60, 0x60, 0x60, 0x60, 0x60,
        0x60, 0x62, 0x66, 0xFE, 0x00, 0x00, 0x00, 0x00]),
    (0x4D,
      [0x00, 0x00, 0xC6, 0xEE, 0xFE, 0xFE, 0xD6, 0xC6,
        0xC6, 0xC6, 0xC6, 0xC6, 0x00, 0x00, 0x00, 0x00]),
    (0x4E,
      [0x00, 0x00, 0xC6, 0xE6, 0xF6, 0xFE, 0xDE, 0xCE,
        0xC6, 0xC6, 0xC6, 0xC6, 0x00, 0x00, 0x00, 0x00]),
    (0x4F,
      [0x00, 0x00, 0x7C, 0xC6, 0xC6, 0xC6, 0xC6, 0xC6,
        0xC6, 0xC6, 0xC6, 0x7C, 0x00, 0x00, 0x00, 0x00]),
    (0x50,
      [0x00, 0x00, 0xFC, 0x66, 0x66, 0x66, 0x7C, 0x60,
        0x60, 0x60, 0x60, 0xF0, 0x00, 0x00, 0x00, 0x00]),
    (0x51,
      [0x00, 0x00, 0x7C, 0xC6, 0xC6, 0xC6, 0xC6, 0xC6,
        0xC6, 0xD6, 0xDE, 0x7C, 0x0C, 0x0E, 0x00, 0x00]),
    (0x52,
      [0x00, 0x00, 0xFC, 0x66, 0x66, 0x66, 0x7C, 0x6C,
        0x66, 0x66, 0x66, 0xE6, 0x00, 0x00, 0x00, 0x00]),
    (0x53,
      [0x00, 0x00, 0x7C, 0xC6, 0xC6, 0x60, 0x38, 0x0C,
        0x06, 0xC6, 0xC6, 0x7C, 0x00, 0x00, 0x00, 0x00]),
    (0x54,
      [0x00, 0x00, 0xFF, 0xDB, 0x99, 0x18, 0x18, 0x18,
        0x18, 0x18, 0x18, 0x3C, 0x00, 0x00, 0x00, 0x00]),
    (0x55,
      [0x00, 0x00, 0xC6, 0xC6, 0xC6, 0xC6, 0xC6, 0xC6,
        0xC6, 0xC6, 0xC6, 0x7C, 0x00, 0x00, 0x00, 0x00]),
    (0x56,
      [0x00, 0x00, 0xC6, 0xC6, 0xC6, 0xC6, 0xC6, 0xC6,
        0xC6, 0x6C, 0x38, 0x10, 0x00, 0x00, 0x00, 0x00]),
    (0x57,
      [0x00, 0x00, 0xC6, 0xC6, 0xC6, 0xC6, 0xD6, 0xD6,
        0xD6, 0xFE, 0xEE, 0x6C, 0x00, 0x00, 0x00, 0x00]),
    (0x58,
      [0x00, 0x00, 0xC6, 0xC6, 0x6C, 0x7C, 0x38, 0x38,
        0x7C, 0x6C, 0xC6, 0xC6, 0x00, 0x00, 0x00, 0x00]),
    (0x59,
      [0x00, 0x00, 0xC6, 0xC6, 0xC6, 0x6C, 0x38, 0x18,
        0x18, 0x18, 0x18, 0x3C, 0x00, 0x00, 0x00, 0x00]),
    (0x5A,
      [0x00, 0x00, 0xFE, 0xC6, 0x86, 0x0C, 0x18, 0x30,
        0x60, 0xC2, 0xC6, 0xFE, 0x00, 0x00, 0x00, 0x00]),
    (0x5B,
      [0x00, 0x00, 0x3C, 0x30, 0x30, 0x30, 0x30, 0x30,
        0x30, 0x30, 0x30, 0x3C, 0x00, 0x00, 0x00, 0x00]),
    (0x5C,
      [0x00, 0x00, 0x00, 0x80, 0xC0, 0xE0, 0x70, 0x38,
        0x1C, 0x0E, 0x06, 0x02, 0x00, 0x00, 0x00, 0x00]),
    (0x5D,
      [0x00, 0x00, 0x3C, 0x0C, 0x0C, 0x0C, 0x0C, 0x0C,
        0x0C, 0x0C, 0x0C, 0x3C, 0x00, 0x00, 0x00, 0x00]),
    (0x5E,
      [0x10, 0x38, 0x6C, 0xC6, 0x00, 0x00, 0x00, 0x00,
        0x00, 0x00, 0x00, 0x00, 0x00, 0x00, 0x00, 0x00]),
    (0x5F,
      [0x00, 0x00, 0x00, 0x00, 0x00, 0x00, 0x00, 0x00,
        0x00, 0x00, 0x00, 0x00, 0xFF, 0x00, 0x00, 0x00]),
    (0x60,
      [0x30, 0x30, 0x18, 0x00, 0x00, 0x00, 0x00, 0x00,
        0x00, 0x00, 0x00, 0x00, 0x00, 0x00, 0x00, 0x00]),
    (0x61,
      [0x00, 0x00, 0x00, 0x00, 0x00, 0x78, 0x0C, 0x7C,
        0xCC, 0xCC, 0xCC, 0x76, 0x00, 0x00, 0x00, 0x00]),
    (0x62,
      [0x00, 0x00, 0xE0, 0x60, 0x60, 0x78, 0x6C, 0x66,
        0x66, 0x66, 0x66, 0x7C, 0x00, 0x00, 0x00, 0x00]),
    (0x63,
      [0x00, 0x00, 0x00, 0x00, 0x00, 0x7C, 0xC6, 0xC0,
        0xC0, 0xC0, 0xC6, 0x7C, 0x00, 0x00, 0x00, 0x00]),
    (0x64,
      [0x00, 0x00, 0x1C, 0x0C, 0x0C, 0x3C, 0x6C, 0xCC,
        0xCC, 0xCC, 0xCC, 0x76, 0x00, 0x00, 0x00, 0x00]),
    (0x65,
      [0x00, 0x00, 0x00, 0x00, 0x00, 0x7C, 0xC6, 0xFE,
        0xC0, 0xC0, 0xC6, 0x7C, 0x00, 0x00, 0x00, 0x00]),
    (0x66,
      [0x00, 0x00, 0x38, 0x6C, 0x64, 0x60, 0xF0, 0x60,
        0x60, 0x60, 0x60, 0xF0, 0x00, 0x00, 0x00, 0x00]),
    (0x67,
      [0x00, 0x00, 0x00, 0x00, 0x00, 0x76, 0xCC, 0xCC,
        0xCC, 0xCC, 0xCC, 0x7C, 0x0C, 0xCC, 0x78, 0x00]),
    (0x68,
      [0x00, 0x00, 0xE0, 0x60, 0x60, 0x6C, 0x76, 0x66,
        0x66, 0x66, 0x66, 0xE6, 0x00, 0x00, 0x00, 0x00]),
    (0x69,
      [0x00, 0x00, 0x18, 0x18, 0x00, 0x38, 0x18, 0x18,
        0x18, 0x18, 0x18, 0x3C, 0x00, 0x00, 0x00, 0x00]),
    (0x6A,
      [0x00, 0x00, 0x06, 0x06, 0x00, 0x0E, 0x06, 0x06,
        0x06, 0x06, 0x06, 0x06, 0x66, 0x66, 0x3C, 0x00]),
    (0x6B,
      [0x00, 0x00, 0xE0, 0x60, 0x60, 0x66, 0x6C, 0x78,
        0x78, 0x6C, 0x66, 0xE6, 0x00, 0x00, 0x00, 0x00]),
    (0x6C,
      [0x00, 0x00, 0x38, 0x18, 0x18, 0x18, 0x18, 0x18,
        0x18, 0x18, 0x18, 0x3C, 0x00, 0x00, 0x00, 0x00]),
    (0x6D,
      [0x00, 0x00, 0x00, 0x00, 0x00, 0xEC, 0xFE, 0xD6,
        0xD6, 0xD6, 0xD6, 0xC6, 0x00, 0x00, 0x00, 0x00]),
    (0x6E,
      [0x00, 0x00, 0x00, 0x00, 0x00, 0xDC, 0x66, 0x66,
        0x66, 0x66, 0x66, 0x66, 0x00, 0x00, 0x00, 0x00]),
    (0x6F,
      [0x00, 0x00, 0x00, 0x00, 0x00, 0x7C, 0xC6, 0xC6,
        0xC6, 0xC6, 0xC6, 0x7C, 0x00, 0x00, 0x00, 0x00]),
    (0x70,
      [0x00, 0x00, 0x00, 0x00, 0x00, 0xDC, 0x66, 0x66,
        0x66, 0x66, 0x66, 0x7C, 0x60, 0x60, 0xF0, 0x00]),
    (0x71,
      [0x00, 0x00, 0x00, 0x00, 0x00, 0x76, 0xCC, 0xCC,
        0xCC, 0xCC, 0xCC, 0x7C, 0x0C, 0x0C, 0x1E, 0x00]),
    (0x72,
      [0x00, 0x00, 0x00, 0x00, 0x00, 0xDC, 0x76, 0x66,
        0x60, 0x60, 0x60, 0xF0, 0x00, 0x00, 0x00, 0x00]),
    (0x73,
      [0x00, 0x00, 0x00, 0x00, 0x00, 0x7C, 0xC6, 0x60,
        0x38, 0x0C, 0xC6, 0x7C, 0x00, 0x00, 0x00, 0x00]),
    (0x74,
      [0x00, 0x00, 0x10, 0x30, 0x30, 0xFC, 0x30, 0x30,
        0x30, 0x30, 0x36, 0x1C, 0x00, 0x00, 0x00, 0x00]),
    (0x75,
      [0x00, 0x00, 0x00, 0x00, 0x00, 0xCC, 0xCC, 0xCC,
        0xCC, 0xCC, 0xCC, 0x76, 0x00, 0x00, 0x00, 0x00]),
    (0x76,
      [0x00, 0x00, 0x00, 0x00, 0x00, 0xC6, 0xC6, 0xC6,
        0xC6, 0xC6, 0x6C, 0x38, 0x00, 0x00, 0x00, 0x00]),
    (0x77,
      [0x00, 0x00, 0x00, 0x00, 0x00, 0xC6, 0xC6, 0xD6,
        0xD6, 0xD6, 0xFE, 0x6C, 0x00, 0x00, 0x00, 0x00]),
    (0x78,
      [0x00, 0x00, 0x00, 0x00, 0x00, 0xC6, 0x6C, 0x38,
        0x38, 0x38, 0x6C, 0xC6, 0x00, 0x00, 0x00, 0x00]),
    (0x79,
      [0x00, 0x00, 0x00, 0x00, 0x00, 0xC6, 0xC6, 0xC6,
        0xC6, 0xC6, 0xC6, 0x7E, 0x06, 0x0C, 0xF8, 0x00]),
    (0x7A,
      [0x00, 0x00, 0x00, 0x00, 0x00, 0xFE, 0xCC, 0x18,
        0x30, 0x60, 0xC6, 0xFE, 0x00, 0x00, 0x00, 0x00]),
    (0x7B,
      [0x00, 0x00, 0x0E, 0x18, 0x18, 0x18, 0x70, 0x18,
        0x18, 0x18, 0x18, 0x0E, 0x00, 0x00, 0x00, 0x00]),
    (0x7C,
      [0x00, 0x00, 0x18, 0x18, 0x18, 0x18, 0x00, 0x18,
        0x18, 0x18, 0x18, 0x18, 0x00, 0x00, 0x00, 0x00]),
    (0x7D,
      [0x00, 0x00, 0x70, 0x18, 0x18, 0x18, 0x0E, 0x18,
        0x18, 0x18, 0x18, 0x70, 0x00, 0x00, 0x00, 0x00]),
    (0x7E,
      [0x00, 0x00, 0x76, 0xDC, 0x00, 0x00, 0x00, 0x00,
        0x00, 0x00, 0x00, 0x00, 0x00, 0x00, 0x00, 0x00]),
    (0xFE,
      [0x00, 0x00, 0x00, 0x00, 0xFE, 0xFE, 0xFE, 0xFE,
        0xFE, 0xFE, 0xFE, 0x00, 0x00, 0x00, 0x00, 0x00])]

/-- The font, indexed as in the source; all indices below 4096 are used. -/
def VGA_FONT_8X16 (index : Nat) : UInt8 :=
  match glyphs.lookup (index / 16) with
  | some rows => rows.getD (index % 16) 0
  | none => 0

/-- The space has no pixel set. -/
theorem font_space :
    ∀ glyph_y < 16, VGA_FONT_8X16 (0x20 * 16 + glyph_y) = 0 := by
  decide

end Vga
end OpenKernel
