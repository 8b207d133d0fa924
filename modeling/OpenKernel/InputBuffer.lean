import OpenKernel.GrowableDeque
import OpenKernel.InputEvents

/-!
# The line being typed and the lines waiting for the shell

`InputBuffer` of `src/input.rs`.  The methods that the interrupt handlers call
return, with the new buffer, whether they went to the heap allocator: a push
onto a full queue, a `String` that is made of the typed characters, or a dropped
`String` that had some (a `String` without characters owns no memory).
-/

namespace OpenKernel
namespace Input

def MAX_LINE_LEN : Nat := 128

def MAX_QUEUE_DEPTH : Nat := 8

structure KeyboardModifiers where
  shift : Bool
  ctrl : Bool
  alt : Bool
  capsLock : Bool

inductive SpecialKey where
  | UpArrow
  | DownArrow
  | LeftArrow
  | RightArrow
  | Home
  | End
  | Escape
  | FunctionKey (n : UInt8)
deriving DecidableEq

structure InputBuffer where
  line : VecDeque Char
  readyLines : VecDeque (List Char)
  history : VecDeque (List Char)
  modifiers : KeyboardModifiers

namespace InputBuffer

def new : InputBuffer where
  line := VecDeque.empty
  readyLines := VecDeque.empty
  history := VecDeque.empty
  modifiers := ⟨false, false, false, false⟩

variable (growth : Growth)

def pushChar (buf : InputBuffer) (ch : Char) : Bool × InputBuffer :=
  if buf.line.items.length < MAX_LINE_LEN then
    (buf.line.full, { buf with line := buf.line.pushBack growth ch })
  else
    (false, buf)

/-- The first component says whether there was a character to erase. -/
def backspace (buf : InputBuffer) : Bool × InputBuffer :=
  (!buf.line.items.isEmpty, { buf with line := buf.line.popBack })

/-- The up arrow recalls the latest line of the history, character by character. -/
def handleSpecialKey (buf : InputBuffer) (key : SpecialKey) : InputBuffer :=
  match key with
  | .UpArrow =>
      match buf.history.items.getLast? with
      | some prev =>
          { buf with line := prev.foldl (fun line ch => line.pushBack growth ch) buf.line.clear }
      | none => buf
  | .Escape => { buf with line := buf.line.clear }
  | _ => buf

def setModifier (buf : InputBuffer) (modType : String) (state : Bool) : InputBuffer :=
  match modType with
  | "shift" => { buf with modifiers := { buf.modifiers with shift := state } }
  | "ctrl" => { buf with modifiers := { buf.modifiers with ctrl := state } }
  | "alt" => { buf with modifiers := { buf.modifiers with alt := state } }
  | "caps" => { buf with modifiers := { buf.modifiers with capsLock := state } }
  | _ => buf

/-- The `while let` loop of `commit_line` empties the line, and `history` takes a
copy when it was not empty. -/
def moveLine (buf : InputBuffer) : InputBuffer :=
  let line := buf.line.items
  if line.isEmpty then
    { buf with line := buf.line.clear }
  else
    let history :=
      if 16 ≤ buf.history.items.length then buf.history.popFront else buf.history
    { buf with line := buf.line.clear, history := history.pushBack growth line }

/-- The oldest ready line goes when as many wait as there may be. -/
def evictReady (buf : InputBuffer) : Bool × VecDeque (List Char) :=
  if MAX_QUEUE_DEPTH ≤ buf.readyLines.items.length then
    (buf.readyLines.items.head?.any (fun dropped => !dropped.isEmpty),
      buf.readyLines.popFront)
  else
    (false, buf.readyLines)

def commitLine (buf : InputBuffer) : Bool × InputBuffer :=
  let line := buf.line.items
  let (dropped, readyLines) := buf.evictReady
  (!line.isEmpty || dropped || readyLines.full,
    { buf.moveLine growth with readyLines := readyLines.pushBack growth line })

def popLine (buf : InputBuffer) : Option (List Char) × InputBuffer :=
  (buf.readyLines.items.head?, { buf with readyLines := buf.readyLines.popFront })

/-- An event of this buffer makes its handling go to the heap allocator. -/
def Allocates (buf : InputBuffer) : KeyEvent → Prop
  | .Char _ => buf.line.items.length < MAX_LINE_LEN ∧ buf.line.items.length = buf.line.cap
  | .Backspace => False
  | .Enter =>
      buf.line.items ≠ [] ∨
      (MAX_QUEUE_DEPTH ≤ buf.readyLines.items.length ∧
        ∃ oldest, buf.readyLines.items.head? = some oldest ∧ oldest ≠ []) ∨
      buf.evictReady.2.items.length = buf.evictReady.2.cap

theorem pushChar_allocates_iff
    (buf : InputBuffer) (ch : Char) :
    (buf.pushChar growth ch).1 = true ↔ buf.Allocates (.Char ch) := by
  unfold pushChar Allocates
  by_cases hlen : buf.line.items.length < MAX_LINE_LEN
  · simp [hlen, VecDeque.full_iff]
  · simp [hlen]

theorem evictReady_allocates_iff
    (buf : InputBuffer) :
    buf.evictReady.1 = true ↔
      MAX_QUEUE_DEPTH ≤ buf.readyLines.items.length ∧
        ∃ oldest, buf.readyLines.items.head? = some oldest ∧ oldest ≠ [] := by
  unfold evictReady
  by_cases hdepth : MAX_QUEUE_DEPTH ≤ buf.readyLines.items.length
  · simp [hdepth, Option.any_eq_true]
  · simp [hdepth]

theorem commitLine_allocates_iff
    (buf : InputBuffer) :
    (buf.commitLine growth).1 = true ↔ buf.Allocates .Enter := by
  unfold commitLine Allocates
  rw [← evictReady_allocates_iff]
  simp [VecDeque.full_iff, or_assoc]

end InputBuffer

end Input
end OpenKernel
