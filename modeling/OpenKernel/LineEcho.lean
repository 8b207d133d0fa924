import OpenKernel.InputBuffer
import OpenKernel.RunInvariants

/-!
# The echo of the line being typed

`handle_key_event` and `handle_input_event` change the input buffer and print to
the serial port, in separate calls.  What the port receives is read by a terminal
that shows the current line: a character is appended, `"\x08 \x08"` erases the
last one and a line end starts a new line.

The two agree until a character arrives on a full line: the buffer drops it and
the echo does not (`echo_in_sync_iff`).
-/

namespace OpenKernel
namespace Input

/-- What one print statement of the handlers sends to the serial port. -/
inductive SerialWrite where
  /-- `serial_print!("{}", ch)`. -/
  | char (ch : Char)
  /-- `serial_print!("\x08 \x08")`. -/
  | erase
  /-- `serial_println!()`. -/
  | newLine
deriving DecidableEq

section Handlers

variable (growth : Growth)

/-- The common body of the two handlers. -/
def echoEvent (buf : InputBuffer) : KeyEvent → List SerialWrite × InputBuffer
  | .Char ch => ([.char ch], (buf.pushChar growth ch).2)
  | .Backspace =>
      let (erased, buf) := buf.backspace
      (if erased then [.erase] else [], buf)
  | .Enter => ([.newLine], (buf.commitLine growth).2)

/-- `handle_key_event` of `src/interrupts.rs`. -/
def handleKeyEvent (buf : InputBuffer) (event : KeyEvent) : List SerialWrite × InputBuffer :=
  echoEvent growth buf event

/-- `handle_input_event` of `src/shell.rs`. -/
def handleInputEvent (buf : InputBuffer) (event : KeyEvent) : List SerialWrite × InputBuffer :=
  echoEvent growth buf event

/-- `current_line()`. -/
def InputBuffer.currentLine (buf : InputBuffer) : List Char :=
  buf.line.items

end Handlers

section Terminal

/-- What the current line of the terminal shows after a write. -/
def display (shown : List Char) : SerialWrite → List Char
  | .char ch => shown ++ [ch]
  | .erase => shown.dropLast
  | .newLine => []

/-- The input buffer and the terminal at the other end of the serial port. -/
structure Session where
  buf : InputBuffer
  shown : List Char

/-- An event, by the handler that it is passed to. -/
inductive EventCall where
  | handleKeyEvent (event : KeyEvent)
  | handleInputEvent (event : KeyEvent)
deriving DecidableEq

def EventCall.event : EventCall → KeyEvent
  | .handleKeyEvent event => event
  | .handleInputEvent event => event

namespace Session

variable (growth : Growth)

def call (session : Session) (c : EventCall) : Session :=
  let (writes, buf) :=
    match c with
    | .handleKeyEvent event => handleKeyEvent growth session.buf event
    | .handleInputEvent event => handleInputEvent growth session.buf event
  ⟨buf, writes.foldl display session.shown⟩

def Step (session : Session) (c : EventCall) (session' : Session) : Prop :=
  session' = session.call growth c

/-- The terminal shows the line that Enter would commit. -/
def InSync (session : Session) : Prop :=
  session.shown = session.buf.currentLine

/-- A character that the buffer has no room for. -/
def Dropped (session : Session) (c : EventCall) : Prop :=
  (∃ ch, c.event = .Char ch) ∧ MAX_LINE_LEN ≤ session.buf.currentLine.length

end Session

end Terminal

section Synchrony

variable {growth : Growth} {session session' : Session} {c : EventCall}

/-- Both handlers have the same effect. -/
theorem call_eq
    (session : Session) (c : EventCall) :
    session.call growth c =
      ⟨(echoEvent growth session.buf c.event).2,
        (echoEvent growth session.buf c.event).1.foldl display session.shown⟩ := by
  cases c <;> rfl

theorem currentLine_pushChar
    (buf : InputBuffer) (ch : Char) :
    (buf.pushChar growth ch).2.currentLine =
      if buf.currentLine.length < MAX_LINE_LEN then buf.currentLine ++ [ch]
      else buf.currentLine := by
  by_cases hroom : buf.currentLine.length < MAX_LINE_LEN
  · have hitems : buf.line.items.length < MAX_LINE_LEN := hroom
    rw [InputBuffer.pushChar, if_pos hitems, if_pos hroom]
    rfl
  · have hitems : ¬ buf.line.items.length < MAX_LINE_LEN := hroom
    rw [InputBuffer.pushChar, if_neg hitems, if_neg hroom]

theorem currentLine_backspace
    (buf : InputBuffer) :
    buf.backspace.2.currentLine = buf.currentLine.dropLast := rfl

theorem currentLine_commitLine
    (buf : InputBuffer) :
    (buf.commitLine growth).2.currentLine = [] := by
  simp only [InputBuffer.commitLine, InputBuffer.currentLine, InputBuffer.moveLine]
  split <;> rfl

/-- What one event does to the line and to the terminal. -/
theorem call_spec
    (growth : Growth) (session : Session) (c : EventCall) :
    (∃ ch, c.event = .Char ch ∧
      (session.call growth c).shown = session.shown ++ [ch] ∧
      (session.call growth c).buf.currentLine =
        if session.buf.currentLine.length < MAX_LINE_LEN then session.buf.currentLine ++ [ch]
        else session.buf.currentLine) ∨
    (c.event = .Backspace ∧
      (session.call growth c).shown =
        (if session.buf.currentLine.isEmpty then session.shown else session.shown.dropLast) ∧
      (session.call growth c).buf.currentLine = session.buf.currentLine.dropLast) ∨
    (c.event = .Enter ∧ (session.call growth c).shown = [] ∧
      (session.call growth c).buf.currentLine = []) := by
  rw [call_eq]
  rcases hevent : c.event with ch | _ | _
  · exact Or.inl ⟨ch, rfl, rfl, currentLine_pushChar _ ch⟩
  · refine Or.inr (Or.inl ⟨rfl, ?_, currentLine_backspace _⟩)
    rcases hline : session.buf.line.items with _ | ⟨ch, rest⟩
    · simp [echoEvent, InputBuffer.backspace, InputBuffer.currentLine, hline]
    · simp [echoEvent, InputBuffer.backspace, InputBuffer.currentLine, hline, display]
  · exact Or.inr (Or.inr ⟨rfl, rfl, currentLine_commitLine _⟩)

/-- From a terminal in sync, exactly the dropped characters put it out of sync. -/
theorem inSync_step_iff
    (hsync : session.InSync)
    (hstep : Session.Step growth session c session') :
    session'.InSync ↔ ¬ session.Dropped c := by
  obtain rfl := hstep
  unfold Session.InSync Session.Dropped at *
  rcases call_spec growth session c with
    ⟨ch, hevent, hshown, hline⟩ | ⟨hevent, hshown, hline⟩ | ⟨hevent, hshown, hline⟩
  · rw [hshown, hline, hsync]
    by_cases hroom : session.buf.currentLine.length < MAX_LINE_LEN
    · simp [hroom]
    · simp [hroom, hevent, Nat.le_of_not_lt hroom]
  · rw [hshown, hline, hsync]
    rcases session.buf.currentLine with _ | ⟨ch, rest⟩ <;> simp [hevent]
  · rw [hshown, hline]
    simp [hevent]

/-- What is on screen is what will be executed as long as no character arrives on a
full line, and no longer. -/
theorem echo_in_sync_iff
    (growth : Growth) (session session' : Session) (tr : List (Session × EventCall))
    (hempty : session.buf.currentLine = [] ∧ session.shown = [])
    (hrun : Run (Session.Step growth) session tr session') :
    ((∀ x ∈ tr, x.1.InSync) ∧ session'.InSync) ↔ ∀ x ∈ tr, ¬ x.1.Dropped x.2 := by
  have hsync : session.InSync := hempty.2.trans hempty.1.symm
  exact Run.invariant_iff_guard
    (fun _ _ _ hinv hstep => inSync_step_iff hinv hstep) hrun hsync

/-- A session before the first event. -/
def freshSession : Session where
  buf := InputBuffer.new
  shown := []

def typed (ch : Char) (n : Nat) : List EventCall :=
  List.replicate n (.handleKeyEvent (.Char ch))

/-- Every typed character is echoed, and at most 128 of them are kept. -/
theorem typed_spec
    (growth : Growth) (session : Session) (ch : Char) (n : Nat)
    (hline : session.buf.currentLine.length ≤ MAX_LINE_LEN) :
    ((typed ch n).foldl (Session.call growth) session).shown =
        session.shown ++ List.replicate n ch ∧
      ((typed ch n).foldl (Session.call growth) session).buf.currentLine.length ≤
        MAX_LINE_LEN := by
  induction n generalizing session with
  | zero => simpa [typed] using hline
  | succ n ih =>
      rw [typed, List.replicate_succ, List.foldl_cons, ← typed]
      have hnext : (session.call growth (.handleKeyEvent (.Char ch))).buf.currentLine.length ≤
          MAX_LINE_LEN := by
        rw [call_eq]
        show (session.buf.pushChar growth ch).2.currentLine.length ≤ _
        rw [currentLine_pushChar]
        split
        · rw [List.length_append, List.length_singleton]
          omega
        · exact hline
      obtain ⟨hshown, hlength⟩ := ih _ hnext
      refine ⟨?_, hlength⟩
      rw [hshown, call_eq, List.replicate_succ]
      show session.shown ++ [ch] ++ _ = _
      rw [List.append_assoc, List.singleton_append]

/-- After 129 characters the terminal shows one that the line does not have. -/
theorem echo_of_full_line :
    freshSession.buf.currentLine = [] ∧ freshSession.shown = [] ∧
      ¬ Session.InSync ((typed 'a' 129).foldl (Session.call .doubling) freshSession) := by
  refine ⟨rfl, rfl, ?_⟩
  intro hsync
  obtain ⟨hshown, hlength⟩ := typed_spec .doubling freshSession 'a' 129 (Nat.zero_le _)
  rw [← hsync, hshown, List.length_append, List.length_replicate] at hlength
  exact absurd hlength (by decide)

/-- Two characters, an erased one and Enter, through both handlers. -/
def shortCalls : List EventCall :=
  [.handleKeyEvent (.Char 'a'), .handleInputEvent (.Char 'b'), .handleInputEvent .Backspace,
    .handleKeyEvent .Enter]

/-- The screen shows the line throughout, since it has room for both characters. -/
theorem echo_in_sync_iff_short :
    (∀ x ∈ Run.trail (Session.call .doubling) freshSession shortCalls, x.1.InSync) ∧
      Session.InSync (shortCalls.foldl (Session.call .doubling) freshSession) := by
  have hrun := Run.run_trail (Session.call .doubling) freshSession shortCalls
  refine (echo_in_sync_iff .doubling freshSession _ _ ⟨rfl, rfl⟩ hrun).2 ?_
  have hroom : ∀ x ∈ Run.trail (Session.call .doubling) freshSession shortCalls,
      x.1.buf.currentLine.length < MAX_LINE_LEN := by
    decide
  exact fun x hx hdropped => absurd (hroom x hx) (Nat.not_lt.2 hdropped.2)

end Synchrony

end Input
end OpenKernel
