import OpenKernel.EventAccounting
import OpenKernel.InputEvents
import OpenKernel.RunInvariants

/-!
# Polling an input device while its interrupt handler runs

`shell::run_once` polls the keyboard and the serial port with interrupts
enabled, and the handlers of both devices read the same ports.  A device is a
FIFO whose status bit is set while it is not empty.  `poll_keyboard` and
`poll_serial_input` take three separate steps for each byte (status, data,
event); the handler runs to completion between any two of them.

The events are applied once each and in order of arrival iff, in every step,
the two consumers do not disturb each other (`Device.Undisturbed`): the poll
does not read a FIFO that the handler has emptied in between, the keyboard
handler is not entered for a byte that the poll has already taken, and no
handler overtakes a byte that the poll has read but not yet applied.
-/

namespace OpenKernel
namespace Input

section Devices

/-- What port reads see of a device: the bytes that wait and the last one read. -/
structure Port where
  fifo : List UInt8
  last : UInt8

namespace Port

/-- Bit 0 of the status register. -/
def dataReady (port : Port) : Bool :=
  !port.fifo.isEmpty

/-- A data read; `empty` is what it returns when nothing waits. -/
def read (port : Port) (empty : UInt8) : UInt8 × Port :=
  match port.fifo with
  | byte :: fifo => (byte, ⟨fifo, byte⟩)
  | [] => (empty, port)

end Port

/-- The PS/2 controller (data port 0x60) and COM1 (data port 0x3F8). -/
inductive Device where
  | keyboard
  | serial

/-- The events that `keyboard_handler` applies, and the port it leaves. -/
def keyboardHandler (port : Port) : List KeyEvent × Port :=
  let (scancode, port) := port.read port.last
  match scancodeToEvent scancode with
  | some event => ([event], port)
  | none => ([], port)

/-- The loop `while serial_received()`, which ends when the FIFO is empty. -/
def drainSerial : List UInt8 → UInt8 → List KeyEvent × Port
  | [], last => ([], ⟨[], last⟩)
  | byte :: fifo, _ =>
      let (events, port) := drainSerial fifo byte
      match serialByteToEvent byte with
      | some event => (event :: events, port)
      | none => (events, port)

/-- The events that `serial_handler` applies, and the port it leaves. -/
def serialHandler (port : Port) : List KeyEvent × Port :=
  drainSerial port.fifo port.last

namespace Device

def event : Device → UInt8 → Option KeyEvent
  | keyboard => scancodeToEvent
  | serial => serialByteToEvent

def handler : Device → Port → List KeyEvent × Port
  | keyboard => keyboardHandler
  | serial => serialHandler

/-- The events of a sequence of bytes. -/
def events (dev : Device) (bytes : List UInt8) : List KeyEvent :=
  bytes.filterMap dev.event

@[simp] theorem events_nil
    (dev : Device) :
    dev.events [] = [] := rfl

theorem events_cons
    (dev : Device) (byte : UInt8) (bytes : List UInt8) :
    dev.events (byte :: bytes) = (dev.event byte).toList ++ dev.events bytes := by
  unfold events
  rw [List.filterMap_eq_flatMap_toList, List.filterMap_eq_flatMap_toList,
    List.flatMap_cons]

theorem events_append
    (dev : Device) (bytes bytes' : List UInt8) :
    dev.events (bytes ++ bytes') = dev.events bytes ++ dev.events bytes' :=
  List.filterMap_append

end Device

theorem keyboardHandler_cons
    (scancode last : UInt8) (fifo : List UInt8) :
    keyboardHandler ⟨scancode :: fifo, last⟩ =
      ((scancodeToEvent scancode).toList, ⟨fifo, scancode⟩) := by
  simp only [keyboardHandler, Port.read]
  cases scancodeToEvent scancode <;> rfl

/-- Entered with nothing waiting, the keyboard handler reads the last scancode again. -/
theorem keyboardHandler_nil
    (last : UInt8) :
    keyboardHandler ⟨[], last⟩ = ((scancodeToEvent last).toList, ⟨[], last⟩) := by
  simp only [keyboardHandler, Port.read]
  cases scancodeToEvent last <;> rfl

theorem drainSerial_eq
    (fifo : List UInt8) (last : UInt8) :
    (drainSerial fifo last).1 = Device.serial.events fifo ∧
    (drainSerial fifo last).2.fifo = [] := by
  induction fifo generalizing last with
  | nil =>
      exact ⟨rfl, rfl⟩
  | cons byte fifo ih =>
      obtain ⟨hevents, hfifo⟩ := ih byte
      rw [Device.events_cons, drainSerial]
      have hevent : Device.serial.event byte = serialByteToEvent byte := rfl
      rw [hevent]
      cases serialByteToEvent byte with
      | none =>
          exact ⟨by simpa using hevents, hfifo⟩
      | some event =>
          exact ⟨by simpa using hevents, hfifo⟩

end Devices

section Machine

/-- Where the polling loop stands between two of its steps. -/
inductive PollPhase where
  | checking
  | reading
  | handling (byte : UInt8)

/-- A device and its two consumers. -/
structure Machine where
  port : Port
  phase : PollPhase
  /-- The events applied to the input buffer so far. -/
  applied : List KeyEvent
  /-- The bytes that the device has received so far. -/
  arrived : List UInt8

inductive Act where
  | arrive (byte : UInt8)
  | pollStatus
  | pollData (empty : UInt8)
  | pollHandle
  | interrupt

/-- The steps of the device, of the polling loop and of the handler. -/
inductive Device.Step (dev : Device) : Machine → Act → Machine → Prop
  | arrive (m : Machine) (byte : UInt8) :
      dev.Step m (.arrive byte)
        { m with
          port := { m.port with fifo := m.port.fifo ++ [byte] }
          arrived := m.arrived ++ [byte] }
  | pollStatus (m : Machine)
      (hphase : m.phase = .checking) :
      dev.Step m .pollStatus
        { m with phase := if m.port.dataReady then .reading else .checking }
  | pollData (m : Machine) (empty : UInt8)
      (hphase : m.phase = .reading)
      -- an empty PS/2 controller returns its last byte again
      (hempty : dev = .keyboard → empty = m.port.last) :
      dev.Step m (.pollData empty)
        { m with
          port := (m.port.read empty).2
          phase := .handling (m.port.read empty).1 }
  | pollHandle (m : Machine) (byte : UInt8)
      (hphase : m.phase = .handling byte) :
      dev.Step m .pollHandle
        { m with
          applied := m.applied ++ (dev.event byte).toList
          phase := .checking }
  | interrupt (m : Machine) :
      dev.Step m .interrupt
        { m with
          port := (dev.handler m.port).2
          applied := m.applied ++ (dev.handler m.port).1 }

/-- Nothing has arrived; `last` is what the data register holds. -/
def Machine.start (last : UInt8) : Machine where
  port := ⟨[], last⟩
  phase := .checking
  applied := []
  arrived := []

/-- The event of the byte that the poll has read and not yet applied. -/
def Machine.held (dev : Device) (m : Machine) : List KeyEvent :=
  match m.phase with
  | .handling byte => (dev.event byte).toList
  | _ => []

theorem Machine.length_held_le
    (dev : Device) (m : Machine) :
    (m.held dev).length ≤ 1 := by
  unfold Machine.held
  cases m.phase with
  | checking => simp
  | reading => simp
  | handling byte => cases dev.event byte <;> simp

/-- The events of the bytes that arrived, in order and once each, are the events
applied, the one that the poll holds and those of the bytes that wait. -/
def Machine.InOrder (dev : Device) (m : Machine) : Prop :=
  Accounted (dev.events m.arrived) m.applied (m.held dev) (dev.events m.port.fifo)

/-- The two consumers do not disturb each other in this step. -/
def Device.Undisturbed (dev : Device) (m : Machine) : Act → Prop
  | .pollData empty => m.port.fifo = [] → dev.event empty = none
  | .interrupt =>
      match dev, m.port.fifo with
      | .keyboard, [] => scancodeToEvent m.port.last = none
      | .keyboard, scancode :: _ =>
          ∀ e ∈ m.held .keyboard, ∀ x ∈ scancodeToEvent scancode, x = e
      | .serial, fifo =>
          ∀ e ∈ m.held .serial, ∀ x ∈ Device.serial.events fifo, x = e
  | _ => True

end Machine

section Accounts

variable {dev : Device} {m m' : Machine}

theorem inOrder_pollData_iff
    {empty : UInt8}
    (hphase : m.phase = .reading)
    (h : m.InOrder dev) :
    Machine.InOrder dev
        { m with
          port := (m.port.read empty).2
          phase := .handling (m.port.read empty).1 } ↔
      dev.Undisturbed m (.pollData empty) := by
  have hheld : m.held dev = [] := by
    simp [Machine.held, hphase]
  unfold Machine.InOrder at *
  rw [hheld] at h
  cases hfifo : m.port.fifo with
  | nil =>
      rw [hfifo, Device.events_nil] at h
      have hstale := h.take_stale_iff (dev.event empty).toList
      simpa [Port.read, hfifo, Machine.held, Device.Undisturbed] using hstale
  | cons byte fifo =>
      rw [hfifo, Device.events_cons] at h
      simpa [Port.read, hfifo, Machine.held, Device.Undisturbed] using h.take

theorem inOrder_keyboardHandler_iff
    (h : m.InOrder .keyboard) :
    Machine.InOrder .keyboard
        { m with
          port := (keyboardHandler m.port).2
          applied := m.applied ++ (keyboardHandler m.port).1 } ↔
      Device.keyboard.Undisturbed m .interrupt := by
  have hone := m.length_held_le .keyboard
  obtain ⟨⟨fifo, last⟩, phase, applied, arrived⟩ := m
  unfold Machine.InOrder at *
  cases fifo with
  | nil =>
      rw [keyboardHandler_nil]
      have hstale := h.apply_stale_iff (scancodeToEvent last).toList
      simpa [Machine.held, Device.Undisturbed] using hstale
  | cons scancode fifo =>
      rw [keyboardHandler_cons]
      rw [Device.events_cons] at h
      simpa [Machine.held, Device.Undisturbed, Device.event] using h.overtake_iff hone

theorem inOrder_serialHandler_iff
    (h : m.InOrder .serial) :
    Machine.InOrder .serial
        { m with
          port := (serialHandler m.port).2
          applied := m.applied ++ (serialHandler m.port).1 } ↔
      Device.serial.Undisturbed m .interrupt := by
  have hone := m.length_held_le .serial
  obtain ⟨hevents, hfifo⟩ := drainSerial_eq m.port.fifo m.port.last
  unfold Machine.InOrder at *
  rw [← List.append_nil (Device.serial.events m.port.fifo)] at h
  rw [serialHandler, hevents, hfifo]
  exact h.overtake_iff hone

/-- From an orderly state, a step keeps the order iff the consumers do not disturb
each other in it. -/
theorem inOrder_step_iff
    {a : Act}
    (h : m.InOrder dev)
    (hstep : dev.Step m a m') :
    m'.InOrder dev ↔ dev.Undisturbed m a := by
  cases hstep with
  | arrive byte =>
      refine iff_of_true ?_ trivial
      have harrive := h.arrive (dev.events [byte])
      rwa [← Device.events_append, ← Device.events_append] at harrive
  | pollStatus hphase =>
      refine iff_of_true ?_ trivial
      have hheld : m.held dev = [] := by
        simp [Machine.held, hphase]
      unfold Machine.InOrder at *
      rw [hheld] at h
      by_cases hready : m.port.dataReady
      · simpa [Machine.held, hready] using h
      · simpa [Machine.held, hready] using h
  | pollData empty hphase hempty =>
      exact inOrder_pollData_iff hphase h
  | pollHandle byte hphase =>
      refine iff_of_true ?_ trivial
      have hheld : m.held dev = (dev.event byte).toList := by
        simp [Machine.held, hphase]
      unfold Machine.InOrder at *
      rw [hheld] at h
      exact h.apply
  | interrupt =>
      cases dev with
      | keyboard => exact inOrder_keyboardHandler_iff h
      | serial => exact inOrder_serialHandler_iff h

theorem inOrder_start
    (dev : Device) (last : UInt8) :
    (Machine.start last).InOrder dev :=
  Accounted.nil

/-- The poll holds no byte. -/
def Machine.HandFree (m : Machine) : Prop :=
  ∀ byte, m.phase ≠ .handling byte

theorem held_of_handFree
    (dev : Device)
    (h : m.HandFree) :
    m.held dev = [] := by
  unfold Machine.held
  cases hphase : m.phase with
  | checking => rfl
  | reading => rfl
  | handling byte => exact absurd hphase (h byte)

/--
In every run of a device, its poll and its handler, the events are accounted for
in order throughout iff no step disturbs the other consumer; in such a run, when
nothing waits and the poll holds nothing, exactly the events of the bytes that
arrived have been applied, once each and in order of arrival.
-/
theorem input_events_in_order_iff
    (dev : Device) (last : UInt8)
    (tr : List (Machine × Act)) (m : Machine)
    (h : Run dev.Step (Machine.start last) tr m) :
    (((∀ x ∈ tr, x.1.InOrder dev) ∧ m.InOrder dev) ↔
      ∀ x ∈ tr, dev.Undisturbed x.1 x.2) ∧
    ((∀ x ∈ tr, dev.Undisturbed x.1 x.2) →
      m.port.fifo = [] → m.HandFree →
      m.applied = m.arrived.filterMap dev.event) := by
  have hexact : ∀ s a t, Machine.InOrder dev s → dev.Step s a t →
      (Machine.InOrder dev t ↔ dev.Undisturbed s a) :=
    fun s a t hs hst => inOrder_step_iff hs hst
  have hiff := Run.invariant_iff_guard hexact h (inOrder_start dev last)
  refine ⟨hiff, fun hguard hfifo hfree => ?_⟩
  have hend : m.InOrder dev := (hiff.2 hguard).2
  unfold Machine.InOrder at hend
  rw [hfifo, held_of_handFree dev hfree] at hend
  exact hend.eq_of_idle

/-- The key A is pressed once; the handler runs between the poll's status read and
its data read, and the poll reads the scancode a second time. -/
theorem scancode_applied_twice :
    ¬ ∀ dev last tr m, Run (Device.Step dev) (Machine.start last) tr m →
      m.port.fifo = [] → m.HandFree →
      m.applied = m.arrived.filterMap dev.event := by
  intro h
  have harrive : Device.keyboard.Step (Machine.start 0) (.arrive 0x1E)
      ⟨⟨[0x1E], 0⟩, .checking, [], [0x1E]⟩ := .arrive _ _
  have hstatus : Device.keyboard.Step ⟨⟨[0x1E], 0⟩, .checking, [], [0x1E]⟩ .pollStatus
      ⟨⟨[0x1E], 0⟩, .reading, [], [0x1E]⟩ := .pollStatus _ rfl
  have hhandler : Device.keyboard.Step ⟨⟨[0x1E], 0⟩, .reading, [], [0x1E]⟩ .interrupt
      ⟨⟨[], 0x1E⟩, .reading, [.Char 'a'], [0x1E]⟩ := .interrupt _
  have hdata : Device.keyboard.Step ⟨⟨[], 0x1E⟩, .reading, [.Char 'a'], [0x1E]⟩
      (.pollData 0x1E) ⟨⟨[], 0x1E⟩, .handling 0x1E, [.Char 'a'], [0x1E]⟩ :=
    .pollData _ _ rfl (fun _ => rfl)
  have happly : Device.keyboard.Step ⟨⟨[], 0x1E⟩, .handling 0x1E, [.Char 'a'], [0x1E]⟩
      .pollHandle ⟨⟨[], 0x1E⟩, .checking, [.Char 'a', .Char 'a'], [0x1E]⟩ :=
    .pollHandle _ 0x1E rfl
  have hrun := Run.cons harrive (Run.cons hstatus (Run.cons hhandler
    (Run.cons hdata (Run.single happly))))
  have honce := h .keyboard 0 _ _ hrun rfl (by simp [Machine.HandFree])
  have hevents : [0x1E].filterMap Device.keyboard.event = [KeyEvent.Char 'a'] := by
    decide
  rw [hevents] at honce
  simp at honce

/-- A is taken by the handler and B by the poll, one after the other. -/
theorem input_events_in_order_iff_two_keys :
    ∃ tr m, Run Device.keyboard.Step (Machine.start 0) tr m ∧
      m.arrived = [0x1E, 0x30] ∧
      (∀ x ∈ tr, x.1.InOrder .keyboard) ∧
      m.applied = [.Char 'a', .Char 'b'] := by
  have harrive : Device.keyboard.Step (Machine.start 0) (.arrive 0x1E)
      ⟨⟨[0x1E], 0⟩, .checking, [], [0x1E]⟩ := .arrive _ _
  have hhandler : Device.keyboard.Step ⟨⟨[0x1E], 0⟩, .checking, [], [0x1E]⟩ .interrupt
      ⟨⟨[], 0x1E⟩, .checking, [.Char 'a'], [0x1E]⟩ := .interrupt _
  have hsecond : Device.keyboard.Step ⟨⟨[], 0x1E⟩, .checking, [.Char 'a'], [0x1E]⟩
      (.arrive 0x30) ⟨⟨[0x30], 0x1E⟩, .checking, [.Char 'a'], [0x1E, 0x30]⟩ := .arrive _ _
  have hstatus : Device.keyboard.Step
      ⟨⟨[0x30], 0x1E⟩, .checking, [.Char 'a'], [0x1E, 0x30]⟩ .pollStatus
      ⟨⟨[0x30], 0x1E⟩, .reading, [.Char 'a'], [0x1E, 0x30]⟩ := .pollStatus _ rfl
  have hdata : Device.keyboard.Step
      ⟨⟨[0x30], 0x1E⟩, .reading, [.Char 'a'], [0x1E, 0x30]⟩ (.pollData 0x1E)
      ⟨⟨[], 0x30⟩, .handling 0x30, [.Char 'a'], [0x1E, 0x30]⟩ :=
    .pollData _ _ rfl (fun _ => rfl)
  have happly : Device.keyboard.Step
      ⟨⟨[], 0x30⟩, .handling 0x30, [.Char 'a'], [0x1E, 0x30]⟩ .pollHandle
      ⟨⟨[], 0x30⟩, .checking, [.Char 'a', .Char 'b'], [0x1E, 0x30]⟩ :=
    .pollHandle _ 0x30 rfl
  have hrun := Run.cons harrive (Run.cons hhandler (Run.cons hsecond
    (Run.cons hstatus (Run.cons hdata (Run.single happly)))))
  obtain ⟨hiff, hdone⟩ := input_events_in_order_iff .keyboard 0 _ _ hrun
  obtain ⟨horder, hend⟩ := hiff.2 (by simp [Device.Undisturbed, Machine.held])
  exact ⟨_, _, hrun, rfl, horder,
    hdone (hiff.1 ⟨horder, hend⟩) rfl (by simp [Machine.HandFree])⟩

end Accounts

end Input
end OpenKernel
