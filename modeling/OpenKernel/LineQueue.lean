import OpenKernel.LineEcho
import OpenKernel.RunInvariants

/-!
# Committed lines on their way to the shell

All methods that change an `InputBuffer`, in any order.  `call_line`,
`call_readyLines` and `call_history` say what each of them does to the three
queues; two results about every sequence of calls on a new buffer follow.

* `input_buffer_bounded`: the line, the ready lines and the history stay within
  their bounds, although recalling a line from the history checks none;
* `lines_delivered_in_order`: the ready lines are the committed ones that have
  not left yet, and a pop takes the oldest; a line leaves when it is popped, or
  as the oldest of eight when another one is committed.
-/

namespace OpenKernel
namespace Input

/-- A method call that changes the buffer. -/
inductive BufferCall where
  | pushChar (ch : Char)
  | backspace
  | handleSpecialKey (key : SpecialKey)
  | setModifier (modType : String) (state : Bool)
  | commitLine
  | popLine
deriving DecidableEq

namespace InputBuffer

section Calls

variable (growth : Growth)

def call (buf : InputBuffer) : BufferCall → InputBuffer
  | .pushChar ch => (buf.pushChar growth ch).2
  | .backspace => buf.backspace.2
  | .handleSpecialKey key => buf.handleSpecialKey growth key
  | .setModifier modType state => buf.setModifier modType state
  | .commitLine => (buf.commitLine growth).2
  | .popLine => buf.popLine.2

def Step (buf : InputBuffer) (c : BufferCall) (buf' : InputBuffer) : Prop :=
  buf' = buf.call growth c

/-- The line after a call. -/
def lineAfter (buf : InputBuffer) : BufferCall → List Char
  | .pushChar ch =>
      if buf.currentLine.length < MAX_LINE_LEN then buf.currentLine ++ [ch] else buf.currentLine
  | .backspace => buf.currentLine.dropLast
  | .handleSpecialKey .UpArrow => buf.history.items.getLast?.getD buf.currentLine
  | .handleSpecialKey .Escape => []
  | .commitLine => []
  | _ => buf.currentLine

/-- The lines that a call takes off the front of the ready lines. -/
def leaving (buf : InputBuffer) : BufferCall → List (List Char)
  | .popLine => buf.popLine.1.toList
  | .commitLine =>
      if MAX_QUEUE_DEPTH ≤ buf.readyLines.items.length then buf.readyLines.items.take 1 else []
  | _ => []

/-- The line that a call commits. -/
def entering (buf : InputBuffer) : BufferCall → List (List Char)
  | .commitLine => [buf.currentLine]
  | _ => []

end Calls

section CallEffects

variable {growth : Growth} {buf : InputBuffer}

theorem lineAfter_pushChar
    (buf : InputBuffer) (ch : Char) :
    buf.lineAfter (.pushChar ch) =
      if buf.currentLine.length < MAX_LINE_LEN then buf.currentLine ++ [ch]
      else buf.currentLine := rfl

theorem lineAfter_backspace
    (buf : InputBuffer) :
    buf.lineAfter .backspace = buf.currentLine.dropLast := rfl

theorem lineAfter_upArrow
    (buf : InputBuffer) :
    buf.lineAfter (.handleSpecialKey .UpArrow) =
      buf.history.items.getLast?.getD buf.currentLine := rfl

theorem lineAfter_setModifier
    (buf : InputBuffer) (modType : String) (state : Bool) :
    buf.lineAfter (.setModifier modType state) = buf.currentLine := rfl

/-- Setting a modifier changes no queue. -/
theorem setModifier_queues
    (buf : InputBuffer) (modType : String) (state : Bool) :
    (buf.setModifier modType state).line = buf.line ∧
      (buf.setModifier modType state).readyLines = buf.readyLines ∧
      (buf.setModifier modType state).history = buf.history := by
  unfold setModifier
  split <;> exact ⟨rfl, rfl, rfl⟩

theorem handleSpecialKey_readyLines
    (buf : InputBuffer) (key : SpecialKey) :
    (buf.handleSpecialKey growth key).readyLines = buf.readyLines ∧
      (buf.handleSpecialKey growth key).history = buf.history := by
  cases key with
  | UpArrow =>
      rw [handleSpecialKey]
      split <;> exact ⟨rfl, rfl⟩
  | _ => exact ⟨rfl, rfl⟩

theorem call_line
    (growth : Growth) (buf : InputBuffer) (c : BufferCall) :
    (buf.call growth c).currentLine = buf.lineAfter c := by
  cases c with
  | pushChar ch => exact currentLine_pushChar buf ch
  | backspace => rfl
  | handleSpecialKey key =>
      cases key with
      | UpArrow =>
          simp only [call, handleSpecialKey, lineAfter_upArrow]
          rcases buf.history.items.getLast? with _ | prev
          · rfl
          · simp only [currentLine, VecDeque.items_foldl_pushBack, Option.getD_some]
            rfl
      | _ => rfl
  | setModifier modType state =>
      simp only [call, currentLine, lineAfter_setModifier,
        (setModifier_queues buf modType state).1]
  | commitLine => exact currentLine_commitLine buf
  | popLine => rfl

/-- A call takes lines off the front of the queue and puts the committed one at its end. -/
theorem call_readyLines
    (growth : Growth) (buf : InputBuffer) (c : BufferCall) :
    buf.readyLines.items ++ buf.entering c =
      buf.leaving c ++ (buf.call growth c).readyLines.items := by
  cases c with
  | pushChar ch =>
      simp only [call, pushChar, entering, leaving, List.append_nil, List.nil_append]
      split <;> rfl
  | backspace => exact List.append_nil _
  | handleSpecialKey key =>
      simp only [call, entering, leaving, List.append_nil, List.nil_append,
        (handleSpecialKey_readyLines buf key).1]
  | setModifier modType state =>
      simp only [call, entering, leaving, List.append_nil, List.nil_append,
        (setModifier_queues buf modType state).2.1]
  | commitLine =>
      have hcut : buf.readyLines.items.take 1 ++ buf.readyLines.items.tail =
          buf.readyLines.items := by
        rw [← List.drop_one, List.take_append_drop]
      simp only [call, commitLine, entering, leaving, evictReady, VecDeque.pushBack]
      split
      · rw [← List.append_assoc]
        exact congrArg (· ++ [buf.currentLine]) hcut.symm
      · rfl
  | popLine =>
      simp only [call, popLine, entering, leaving, VecDeque.popFront, List.append_nil]
      rcases buf.readyLines.items with _ | ⟨line, rest⟩ <;> rfl

/-- The history takes the committed line if it has characters, in place of the oldest
of sixteen. -/
theorem call_history
    (growth : Growth) (buf : InputBuffer) (c : BufferCall) :
    (buf.call growth c).history.items = buf.history.items ∨
      (buf.currentLine ≠ [] ∧
        (buf.call growth c).history.items =
          (if 16 ≤ buf.history.items.length then buf.history.items.tail
            else buf.history.items) ++ [buf.currentLine]) := by
  cases c with
  | pushChar ch =>
      left
      simp only [call, pushChar]
      split <;> rfl
  | backspace => exact Or.inl rfl
  | handleSpecialKey key =>
      left
      simp only [call, (handleSpecialKey_readyLines buf key).2]
  | setModifier modType state =>
      left
      simp only [call, (setModifier_queues buf modType state).2.2]
  | commitLine =>
      simp only [call, commitLine, moveLine, currentLine]
      by_cases hempty : buf.line.items = []
      · left
        simp [hempty]
      · right
        refine ⟨hempty, ?_⟩
        rw [if_neg (by simpa using hempty)]
        split <;> rfl
  | popLine => exact Or.inl rfl

end CallEffects

section Bounds

/-- The bounds of the three queues and of the lines in them. -/
structure Bounded (buf : InputBuffer) : Prop where
  line_le : buf.currentLine.length ≤ MAX_LINE_LEN
  ready_le : buf.readyLines.items.length ≤ MAX_QUEUE_DEPTH
  history_le : buf.history.items.length ≤ 16
  history_ne_nil : ∀ entry ∈ buf.history.items, entry ≠ []
  history_line_le : ∀ entry ∈ buf.history.items, entry.length ≤ MAX_LINE_LEN
  ready_line_le : ∀ line ∈ buf.readyLines.items, line.length ≤ MAX_LINE_LEN

variable {growth : Growth} {buf buf' : InputBuffer} {c : BufferCall}

theorem bounded_new :
    InputBuffer.new.Bounded := by
  constructor <;> simp [new, currentLine, VecDeque.empty]

/-- The line stays short: the one operation without a check copies a short line. -/
theorem Bounded.lineAfter_le
    (h : buf.Bounded)
    (c : BufferCall) :
    (buf.lineAfter c).length ≤ MAX_LINE_LEN := by
  have hline := h.line_le
  cases c with
  | pushChar ch =>
      rw [lineAfter_pushChar]
      split
      · rw [List.length_append, List.length_singleton]
        omega
      · exact hline
  | backspace =>
      rw [lineAfter_backspace, List.length_dropLast]
      omega
  | handleSpecialKey key =>
      cases key with
      | UpArrow =>
          rw [lineAfter_upArrow]
          rcases hlast : buf.history.items.getLast? with _ | prev
          · exact hline
          · exact h.history_line_le prev (List.mem_of_getLast? hlast)
      | Escape => exact Nat.zero_le _
      | _ => exact hline
  | commitLine => exact Nat.zero_le _
  | _ => exact hline

/-- What a call leaves ready was ready before or is the committed line. -/
theorem mem_readyLines_call
    {line : List Char}
    (h : line ∈ (buf.call growth c).readyLines.items) :
    line ∈ buf.readyLines.items ∨ line = buf.currentLine := by
  have hmem : line ∈ buf.readyLines.items ++ buf.entering c := by
    rw [call_readyLines growth buf c]
    exact List.mem_append_right _ h
  rcases List.mem_append.1 hmem with hold | hnew
  · exact Or.inl hold
  · cases c with
    | commitLine => exact Or.inr (List.mem_singleton.1 hnew)
    | _ => simp [entering] at hnew

/-- A commit to a full queue takes its oldest line off first. -/
theorem length_readyLines_call
    (h : buf.readyLines.items.length ≤ MAX_QUEUE_DEPTH) :
    (buf.call growth c).readyLines.items.length ≤ MAX_QUEUE_DEPTH := by
  have hlength := congrArg List.length (call_readyLines growth buf c)
  rw [List.length_append, List.length_append] at hlength
  cases c with
  | commitLine =>
      rw [entering, leaving, List.length_singleton] at hlength
      split at hlength
      · rename_i hfull
        have hdepth : 0 < MAX_QUEUE_DEPTH := Nat.succ_pos _
        rw [List.length_take] at hlength
        omega
      · rw [List.length_nil] at hlength
        omega
  | _ =>
      simp only [entering, List.length_nil] at hlength
      omega

theorem Bounded.step
    (h : buf.Bounded)
    (hstep : Step growth buf c buf') :
    buf'.Bounded := by
  obtain rfl := hstep
  have hready : ∀ line ∈ (buf.call growth c).readyLines.items, line.length ≤ MAX_LINE_LEN := by
    intro line hmem
    rcases mem_readyLines_call hmem with hold | rfl
    · exact h.ready_line_le line hold
    · exact h.line_le
  have hline : (buf.call growth c).currentLine.length ≤ MAX_LINE_LEN := by
    rw [call_line]
    exact h.lineAfter_le c
  rcases call_history growth buf c with hsame | ⟨hne, hpush⟩
  · exact
      { line_le := hline
        ready_le := length_readyLines_call h.ready_le
        history_le := hsame ▸ h.history_le
        history_ne_nil := hsame ▸ h.history_ne_nil
        history_line_le := hsame ▸ h.history_line_le
        ready_line_le := hready }
  · have hmem : ∀ entry ∈ (buf.call growth c).history.items,
        entry ∈ buf.history.items ∨ entry = buf.currentLine := by
      intro entry hentry
      rw [hpush] at hentry
      rcases List.mem_append.1 hentry with hold | hnew
      · left
        split at hold
        · exact List.mem_of_mem_tail hold
        · exact hold
      · exact Or.inr (List.mem_singleton.1 hnew)
    refine ⟨hline, length_readyLines_call h.ready_le, ?_, ?_, ?_, hready⟩
    · have hle := h.history_le
      rw [hpush, List.length_append, List.length_singleton]
      split
      · rw [List.length_tail]
        omega
      · omega
    · intro entry hentry
      rcases hmem entry hentry with hold | rfl
      · exact h.history_ne_nil entry hold
      · exact hne
    · intro entry hentry
      rcases hmem entry hentry with hold | rfl
      · exact h.history_line_le entry hold
      · exact h.line_le

/-- In every sequence of calls on a new buffer the bounds hold throughout. -/
theorem input_buffer_bounded
    (growth : Growth) (tr : List (InputBuffer × BufferCall)) (buf : InputBuffer)
    (h : Run (Step growth) InputBuffer.new tr buf) :
    (∀ x ∈ tr, x.1.Bounded) ∧ buf.Bounded := by
  have hkeep : ∀ s c t, s.Bounded → Step growth s c t → t.Bounded :=
    fun s c t hs hst => hs.step hst
  exact ⟨fun x hx => Run.invariant_mem hkeep h bounded_new hx,
    Run.invariant hkeep h bounded_new⟩

/-- A committed line is recalled and a character typed after it. -/
theorem input_buffer_bounded_recall :
    (([.pushChar 'a', .commitLine, .handleSpecialKey .UpArrow, .pushChar 'b'] :
      List BufferCall).foldl (call .doubling) InputBuffer.new).Bounded := by
  obtain ⟨tr, hrun, -⟩ := Run.exists_foldl (call .doubling) InputBuffer.new
    [.pushChar 'a', .commitLine, .handleSpecialKey .UpArrow, .pushChar 'b']
  exact (input_buffer_bounded .doubling tr _ hrun).2

end Bounds

section Delivery

variable {growth : Growth} {buf : InputBuffer} {tr : List (InputBuffer × BufferCall)}

/-- The lines committed along a run, in order: `current_line()` at each commit. -/
def committed (tr : List (InputBuffer × BufferCall)) : List (List Char) :=
  tr.flatMap fun x => x.1.entering x.2

/-- The lines that have left the queue along a run, in order. -/
def departed (tr : List (InputBuffer × BufferCall)) : List (List Char) :=
  tr.flatMap fun x => x.1.leaving x.2

/-- Step `n` is a `pop_line` that returns line number `k`. -/
def DeliveredAt (tr : List (InputBuffer × BufferCall)) (n k : Nat) (line : List Char) : Prop :=
  ∃ pre, tr[n]? = some (pre, .popLine) ∧ (departed (tr.take n)).length = k ∧
    pre.popLine.1 = some line

/-- At step `n` line number `k` was the oldest of eight and another line was committed. -/
def EvictedAt (tr : List (InputBuffer × BufferCall)) (n k : Nat) (line : List Char) : Prop :=
  ∃ pre, tr[n]? = some (pre, .commitLine) ∧ (departed (tr.take n)).length = k ∧
    pre.readyLines.items.length = MAX_QUEUE_DEPTH ∧ pre.readyLines.items.head? = some line

theorem committed_eq
    (h : Run (Step growth) InputBuffer.new tr buf) :
    committed tr = departed tr ++ buf.readyLines.items := by
  have hstep : ∀ s c t, Step growth s c t →
      s.readyLines.items ++ s.entering c = s.leaving c ++ t.readyLines.items := by
    rintro s c t rfl
    exact call_readyLines growth s c
  exact Run.conserves (fun buf => buf.readyLines.items) (fun x => x.1.entering x.2)
    (fun x => x.1.leaving x.2) hstep h

/-- One line leaves at a time: a popped one, or the oldest of a full queue. -/
theorem leaving_cases
    {c : BufferCall} {j : Nat} {line : List Char}
    (hbounded : buf.Bounded)
    (h : (buf.leaving c)[j]? = some line) :
    j = 0 ∧ ((c = .popLine ∧ buf.popLine.1 = some line) ∨
      (c = .commitLine ∧ buf.readyLines.items.length = MAX_QUEUE_DEPTH ∧
        buf.readyLines.items.head? = some line)) := by
  cases c with
  | commitLine =>
      rw [leaving] at h
      split at h
      · rename_i hfull
        rw [List.getElem?_take] at h
        split at h
        · obtain rfl : j = 0 := by omega
          rw [← List.head?_eq_getElem?] at h
          exact ⟨rfl, Or.inr ⟨rfl, Nat.le_antisymm hbounded.ready_le hfull, h⟩⟩
        · cases h
      · simp at h
  | popLine =>
      rw [leaving] at h
      rcases hpop : buf.popLine.1 with _ | first
      · simp [hpop] at h
      · rw [hpop, Option.toList_some, List.getElem?_singleton] at h
        split at h
        · exact ⟨‹j = 0›, Or.inl ⟨rfl, h⟩⟩
        · cases h
  | _ => simp [leaving] at h

/-- Every line that has left was popped or evicted. -/
theorem delivered_or_evicted_of_departed
    (h : Run (Step growth) InputBuffer.new tr buf)
    {k : Nat} {line : List Char}
    (hline : (departed tr)[k]? = some line) :
    ∃ n, DeliveredAt tr n k line ∨ EvictedAt tr n k line := by
  obtain ⟨before, ⟨pre, c⟩, after, j, rfl, rfl, hj⟩ := exists_of_getElem?_flatMap hline
  have hbounded : pre.Bounded :=
    (input_buffer_bounded growth _ buf h).1 (pre, c) (by simp)
  have hget : (before ++ (pre, c) :: after)[before.length]? = some (pre, c) := by simp
  have htake : (before ++ (pre, c) :: after).take before.length = before := List.take_left
  refine ⟨before.length, ?_⟩
  obtain ⟨rfl, ⟨rfl, hpop⟩ | ⟨rfl, hfull, holdest⟩⟩ := leaving_cases hbounded hj
  · exact Or.inl ⟨pre, hget, by rw [htake]; rfl, hpop⟩
  · exact Or.inr ⟨pre, hget, by rw [htake]; rfl, hfull, holdest⟩

/-- The popped line leaves in its step. -/
theorem departed_of_deliveredAt
    {n k : Nat} {line : List Char}
    (h : DeliveredAt tr n k line) :
    departed (tr.take (n + 1)) = departed (tr.take n) ++ [line] := by
  obtain ⟨pre, hget, -, hpop⟩ := h
  have hleaving : pre.leaving .popLine = [line] := by
    rw [leaving, hpop]
    rfl
  rw [departed, List.take_add_one, hget, List.flatMap_append]
  simp [departed, hleaving]

theorem departed_isPrefix
    (tr : List (InputBuffer × BufferCall))
    {n n' : Nat}
    (h : n ≤ n') :
    departed (tr.take n) <+: departed (tr.take n') := by
  obtain ⟨rest, hrest⟩ := List.take_prefix_take_left (l := tr) h
  rw [departed, departed, ← hrest, List.flatMap_append]
  exact List.prefix_append _ _

/-- A popped line is the first committed one that had not left. -/
theorem committed_of_deliveredAt
    (h : Run (Step growth) InputBuffer.new tr buf)
    {n k : Nat} {line : List Char}
    (hline : DeliveredAt tr n k line) :
    (committed tr)[k]? = some line := by
  have hn : n < tr.length := by
    obtain ⟨pre, hget, -⟩ := hline
    exact (List.getElem?_eq_some_iff.1 hget).1
  obtain ⟨rest, hrest⟩ := departed_isPrefix tr (show n + 1 ≤ tr.length by omega)
  rw [List.take_length, departed_of_deliveredAt hline] at hrest
  obtain ⟨-, -, rfl, -⟩ := hline
  rw [committed_eq h, ← hrest]
  simp

/-- A later pop returns a line with a greater number. -/
theorem lt_of_deliveredAt
    {n n' k k' : Nat} {line line' : List Char}
    (h : DeliveredAt tr n k line) (h' : DeliveredAt tr n' k' line')
    (hlt : n < n') :
    k < k' := by
  have hle := (departed_isPrefix tr (show n + 1 ≤ n' from hlt)).length_le
  rw [departed_of_deliveredAt h, List.length_append, List.length_singleton] at hle
  obtain ⟨-, -, rfl, -⟩ := h
  obtain ⟨-, -, rfl, -⟩ := h'
  exact hle

/-- `pop_line` has nothing to return only when no line is ready. -/
theorem popLine_eq_none_iff
    (buf : InputBuffer) :
    buf.popLine.1 = none ↔ buf.readyLines.items = [] :=
  List.head?_eq_none_iff

/-- Otherwise it takes the oldest ready line, and touches nothing else. -/
theorem popLine_of_cons
    {line : List Char} {rest : List (List Char)}
    (h : buf.readyLines.items = line :: rest) :
    buf.popLine.1 = some line ∧ buf.popLine.2.readyLines.items = rest ∧
      buf.popLine.2.currentLine = buf.currentLine := by
  refine ⟨?_, ?_, rfl⟩
  · rw [popLine, h, List.head?_cons]
  · show buf.readyLines.items.tail = rest
    rw [h, List.tail_cons]

/--
In every sequence of calls on a new buffer the ready lines are the at most eight
committed ones that have not left, in order.  A `pop_line` then returns nothing
iff no line is ready, and else the oldest, which it removes.  So `pop_line`
returns the lines in the order of the commits and none twice; each committed
line is popped, or evicted as the oldest of eight at a commit, or still ready.
-/
theorem lines_delivered_in_order
    (growth : Growth) (tr : List (InputBuffer × BufferCall)) (buf : InputBuffer)
    (h : Run (Step growth) InputBuffer.new tr buf) :
    buf.readyLines.items = (committed tr).drop (departed tr).length ∧
    buf.readyLines.items.length ≤ MAX_QUEUE_DEPTH ∧
    (buf.popLine.1 = none ↔ buf.readyLines.items = []) ∧
    (∀ line rest, buf.readyLines.items = line :: rest →
      buf.popLine.1 = some line ∧ buf.popLine.2.readyLines.items = rest ∧
        buf.popLine.2.currentLine = buf.currentLine) ∧
    (∀ n k line, DeliveredAt tr n k line → (committed tr)[k]? = some line) ∧
    (∀ n k line n' k' line', DeliveredAt tr n k line → DeliveredAt tr n' k' line' →
      n < n' → k < k') ∧
    ∀ k line, (committed tr)[k]? = some line →
      (∃ n, DeliveredAt tr n k line ∨ EvictedAt tr n k line) ∨
        ((departed tr).length ≤ k ∧
          buf.readyLines.items[k - (departed tr).length]? = some line) := by
  have heq := committed_eq h
  refine ⟨?_, (input_buffer_bounded growth tr buf h).2.ready_le, popLine_eq_none_iff buf,
    fun line rest => popLine_of_cons,
    fun n k line hline => committed_of_deliveredAt h hline,
    fun n k line n' k' line' hline hline' hlt => lt_of_deliveredAt hline hline' hlt, ?_⟩
  · rw [heq, List.drop_left]
  · intro k line hline
    rw [heq] at hline
    by_cases hk : k < (departed tr).length
    · rw [List.getElem?_append_left hk] at hline
      exact Or.inl (delivered_or_evicted_of_departed h hline)
    · have hle := Nat.le_of_not_lt hk
      rw [List.getElem?_append_right hle] at hline
      exact Or.inr ⟨hle, hline⟩

/-- Two lines are committed; the next `pop_line` returns the first and leaves the second. -/
theorem lines_delivered_in_order_two :
    ∃ tr buf, Run (Step .doubling) InputBuffer.new tr buf ∧
      tr.map Prod.snd = [.pushChar 'a', .commitLine, .pushChar 'b', .commitLine] ∧
      buf.popLine.1 = some ['a'] ∧ buf.popLine.2.readyLines.items = [['b']] := by
  obtain ⟨tr, hrun, hcalls⟩ := Run.exists_foldl (call .doubling) InputBuffer.new
    [.pushChar 'a', .commitLine, .pushChar 'b', .commitLine]
  obtain ⟨-, -, -, hpop, -⟩ := lines_delivered_in_order .doubling tr _ hrun
  obtain ⟨hfirst, hrest, -⟩ := hpop ['a'] [['b']] rfl
  exact ⟨tr, _, hrun, hcalls, hfirst, hrest⟩

end Delivery

end InputBuffer

end Input
end OpenKernel
