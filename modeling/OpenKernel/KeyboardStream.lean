import OpenKernel.InputPolling

/-!
# The stream of bytes a keyboard sends

In scancode set 1 a press sends the key's make code and a release the make code
with bit 7 set; the bytes of an extended key follow the prefix 0xE0.  A key's
legend is read off the rows of the layout (`Key.event`), apart from the kernel's
table.

The keyboard handler looks at one byte at a time, so an extended key decodes as
the plain key of the same code.  The events of a stream are those of its keys
iff no extended key is pressed that shares its code with a plain key of the
table, the keypad's Enter apart (`keyboard_stream_exact_iff`).
-/

namespace OpenKernel

universe u v

section FlatMaps

variable {α : Type u} {β : Type v}

/-- Concatenations of parts that are each at least as long are equal only part by part. -/
theorem flatMap_eq_flatMap_iff
    {f g : α → List β} {xs : List α}
    (hle : ∀ x ∈ xs, (g x).length ≤ (f x).length) :
    xs.flatMap f = xs.flatMap g ↔ ∀ x ∈ xs, f x = g x := by
  constructor
  · induction xs with
    | nil => simp
    | cons x xs ih =>
        intro h
        have hle' : ∀ y ∈ xs, (g y).length ≤ (f y).length :=
          fun y hy => hle y (List.mem_cons_of_mem x hy)
        have hfirst : (g x).length ≤ (f x).length := hle x (by simp)
        have hrest : (xs.flatMap g).length ≤ (xs.flatMap f).length := by
          rw [List.length_flatMap, List.length_flatMap]
          exact List.sum_le_sum hle'
        rw [List.flatMap_cons, List.flatMap_cons] at h
        have hlength := congrArg List.length h
        rw [List.length_append, List.length_append] at hlength
        obtain ⟨hx, hxs⟩ := List.append_inj h (by omega)
        intro y hy
        rcases List.mem_cons.1 hy with rfl | hy
        · exact hx
        · exact ih hle' hxs y hy
  · exact List.flatMap_congr

end FlatMaps

namespace Input

section Keys

/-- A key by its make code. -/
structure Key where
  extended : Bool
  code : UInt8
  code_lt : code < 0x80

/-- The rows of letters, digits and the space bar, with the code that each starts at. -/
def keyRows : List (Nat × List Char) :=
  [(0x02, ['1', '2', '3', '4', '5', '6', '7', '8', '9', '0']),
   (0x10, ['q', 'w', 'e', 'r', 't', 'y', 'u', 'i', 'o', 'p']),
   (0x1E, ['a', 's', 'd', 'f', 'g', 'h', 'j', 'k', 'l']),
   (0x2C, ['z', 'x', 'c', 'v', 'b', 'n', 'm']),
   (0x39, [' '])]

def legend (code : Nat) : Option Char :=
  keyRows.findSome? (fun row => if row.1 ≤ code then row.2[code - row.1]? else none)

namespace Key

/-- What a press of the key stands for; both Enter keys have the code 0x1C. -/
def event (key : Key) : Option KeyEvent :=
  if key.code = 0x1C then
    some .Enter
  else if key.extended then
    none
  else if key.code = 0x0E then
    some .Backspace
  else
    (legend key.code.toNat).map .Char

/-- The plain key of the same code. -/
def plain (key : Key) : Key :=
  { key with extended := false }

def prefixBytes (key : Key) : List UInt8 :=
  if key.extended then [0xE0] else []

end Key

inductive KeyAction where
  | press (key : Key)
  | release (key : Key)

namespace KeyAction

def bytes : KeyAction → List UInt8
  | press key => key.prefixBytes ++ [key.code]
  | release key => key.prefixBytes ++ [key.code ||| 0x80]

/-- The events that an action should make. -/
def events : KeyAction → List KeyEvent
  | press key => key.event.toList
  | release _ => []

end KeyAction

/-- `n` interrupts of the keyboard, one after another. -/
def keyboardInterrupts : Nat → Port → List KeyEvent × Port
  | 0, port => ([], port)
  | n + 1, port =>
      let (events, port) := keyboardHandler port
      let (events', port) := keyboardInterrupts n port
      (events ++ events', port)

/-- One interrupt for each byte decodes the stream byte by byte. -/
theorem keyboardInterrupts_eq
    (bytes : List UInt8) (last : UInt8) :
    (keyboardInterrupts bytes.length ⟨bytes, last⟩).1 = Device.keyboard.events bytes := by
  induction bytes generalizing last with
  | nil => rfl
  | cons byte bytes ih =>
      rw [List.length_cons, keyboardInterrupts, keyboardHandler_cons, Device.events_cons]
      simp only [ih byte]
      rfl

end Keys

section Stream

variable {key : Key}

/-- The kernel's table of make codes is that of the layout. -/
theorem scancodeToEvent_code
    (key : Key) :
    scancodeToEvent key.code = key.plain.event := by
  have htable : ∀ n < 128, scancodeToEvent (UInt8.ofNat n) =
      if UInt8.ofNat n = 0x1C then some .Enter
      else if UInt8.ofNat n = 0x0E then some .Backspace
      else (legend (UInt8.ofNat n).toNat).map .Char := by
    decide
  have hlt : key.code.toNat < 128 := key.code_lt
  have hcode := htable key.code.toNat hlt
  rw [UInt8.ofNat_toNat] at hcode
  rw [hcode]
  rfl

theorem scancodeToEvent_release
    (code : UInt8) :
    scancodeToEvent (code ||| 0x80) = none := by
  have hbit : (code ||| 0x80) &&& 0x80 ≠ 0 := by
    intro h
    have hseven := congrArg (fun b => b.toBitVec.getLsbD 7) h
    simp at hseven
  unfold scancodeToEvent
  exact if_pos hbit

theorem events_prefixBytes
    (key : Key) :
    Device.keyboard.events key.prefixBytes = [] := by
  rw [Key.prefixBytes]
  cases key.extended <;> rfl

/-- What the handler makes of an action. -/
theorem events_bytes
    (action : KeyAction) :
    Device.keyboard.events action.bytes =
      match action with
      | .press key => key.plain.event.toList
      | .release _ => [] := by
  cases action with
  | press key =>
      rw [KeyAction.bytes, Device.events_append, events_prefixBytes, Device.events_cons,
        Device.event, scancodeToEvent_code]
      simp
  | release key =>
      rw [KeyAction.bytes, Device.events_append, events_prefixBytes, Device.events_cons,
        Device.event, scancodeToEvent_release]
      rfl

/-- Only an extended key that has a plain namesake in the table is decoded wrongly. -/
theorem plain_event_eq_iff
    (key : Key) :
    key.plain.event = key.event ↔
      (key.extended = true → key.code ≠ 0x1C → key.plain.event = none) := by
  by_cases henter : key.code = 0x1C
  · simp [Key.event, Key.plain, henter]
  · cases hext : key.extended with
    | false =>
        have hsame : key.plain = key := by
          cases key
          cases hext
          rfl
        simp [hsame]
    | true =>
        have hnone : key.event = none := by simp [Key.event, henter, hext]
        simp [hnone, henter]

theorem length_events_le
    (action : KeyAction) :
    action.events.length ≤ (Device.keyboard.events action.bytes).length := by
  rw [events_bytes]
  cases action with
  | release key => simp [KeyAction.events]
  | press key =>
      by_cases hsame : key.plain.event = key.event
      · simp [KeyAction.events, hsame]
      · have hwrong := mt (plain_event_eq_iff key).2 hsame
        simp only [Classical.not_imp] at hwrong
        obtain ⟨hext, hcode, -⟩ := hwrong
        have hnone : key.event = none := by simp [Key.event, hext, hcode]
        simp [KeyAction.events, hnone]

/--
The handler makes of a stream of presses and releases the events of its keys,
in order, iff no extended key but the keypad's Enter is pressed whose code a
letter, digit, space or Backspace key has.
-/
theorem keyboard_stream_exact_iff
    (actions : List KeyAction) (last : UInt8) :
    (keyboardInterrupts (actions.flatMap KeyAction.bytes).length
        ⟨actions.flatMap KeyAction.bytes, last⟩).1 = actions.flatMap KeyAction.events ↔
      ∀ key, .press key ∈ actions →
        key.extended = true → key.code ≠ 0x1C → key.plain.event = none := by
  have hflat : Device.keyboard.events (actions.flatMap KeyAction.bytes) =
      actions.flatMap (fun action => Device.keyboard.events action.bytes) := by
    unfold Device.events
    rw [List.filterMap_flatMap]
  rw [keyboardInterrupts_eq, hflat, flatMap_eq_flatMap_iff (fun action _ => length_events_le action)]
  constructor
  · intro h key hkey
    have hsame := h _ hkey
    rw [events_bytes, KeyAction.events] at hsame
    have hevent : key.plain.event = key.event := by
      have hhead := congrArg List.head? hsame
      simpa using hhead
    exact (plain_event_eq_iff key).1 hevent
  · intro h action haction
    rw [events_bytes]
    cases action with
    | release key => rfl
    | press key =>
        have hsame := (plain_event_eq_iff key).2 (h key haction)
        rw [KeyAction.events, ← hsame]

/-- The volume key types a letter. -/
theorem volume_up_types_b :
    let volumeUp : Key := ⟨true, 0x30, by decide⟩
    (keyboardInterrupts 2 ⟨(KeyAction.press volumeUp).bytes, 0⟩).1 = [.Char 'b'] ∧
      (KeyAction.press volumeUp).events = [] := by
  decide

end Stream

end Input
end OpenKernel
