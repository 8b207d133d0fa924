import Mathlib.Tactic

/-!
# Input events and the bytes they come from

The decoders of `src/interrupts.rs` and `src/shell.rs`: from a PS/2 scancode
(set 1) and from a serial byte to the event it stands for, if any.  `KeyEvent`
of the interrupt handlers and `InputEvent` of the shell have the same three
cases and the two `serial_byte_to_event` functions the same body, so each is
one definition here.
-/

namespace OpenKernel
namespace Input

/-- `KeyEvent` and `InputEvent`. -/
inductive KeyEvent where
  | Char (ch : Char)
  | Backspace
  | Enter
  deriving DecidableEq

/-- Scancode set 1 to input events: a–z, 0–9, space, Enter and Backspace. -/
def scancodeToEvent (scancode : UInt8) : Option KeyEvent :=
  if scancode &&& 0x80 ≠ 0 then
    none
  else if 0x02 ≤ scancode ∧ scancode ≤ 0x0A then
    some (.Char (Char.ofNat ('1'.toUInt8 + (scancode - 0x02)).toNat))
  else
    match scancode with
    | 0x0B => some (.Char '0')
    | 0x10 => some (.Char 'q')
    | 0x11 => some (.Char 'w')
    | 0x12 => some (.Char 'e')
    | 0x13 => some (.Char 'r')
    | 0x14 => some (.Char 't')
    | 0x15 => some (.Char 'y')
    | 0x16 => some (.Char 'u')
    | 0x17 => some (.Char 'i')
    | 0x18 => some (.Char 'o')
    | 0x19 => some (.Char 'p')
    | 0x1E => some (.Char 'a')
    | 0x1F => some (.Char 's')
    | 0x20 => some (.Char 'd')
    | 0x21 => some (.Char 'f')
    | 0x22 => some (.Char 'g')
    | 0x23 => some (.Char 'h')
    | 0x24 => some (.Char 'j')
    | 0x25 => some (.Char 'k')
    | 0x26 => some (.Char 'l')
    | 0x2C => some (.Char 'z')
    | 0x2D => some (.Char 'x')
    | 0x2E => some (.Char 'c')
    | 0x2F => some (.Char 'v')
    | 0x30 => some (.Char 'b')
    | 0x31 => some (.Char 'n')
    | 0x32 => some (.Char 'm')
    | 0x39 => some (.Char ' ')
    | 0x1C => some .Enter
    | 0x0E => some .Backspace
    | _ => none

def serialByteToEvent (byte : UInt8) : Option KeyEvent :=
  if byte = '\r'.toUInt8 ∨ byte = '\n'.toUInt8 then
    some .Enter
  else if byte = 0x08 ∨ byte = 0x7f then
    some .Backspace
  else if ' '.toUInt8 ≤ byte ∧ byte ≤ '~'.toUInt8 then
    some (.Char (Char.ofNat byte.toNat))
  else
    none

example : scancodeToEvent 0x04 = some (.Char '3') := by decide

example : scancodeToEvent 0x9E = none := by decide

end Input
end OpenKernel
