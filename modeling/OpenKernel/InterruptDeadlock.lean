import OpenKernel.KernelLocks
import OpenKernel.RunInvariants

/-!
# Which locks an interrupt handler can meet held

The main context runs `kernelMain` one primitive step at a time, and wherever
interrupts are enabled the timer, keyboard or serial handler may run to
completion.  A handler that tries a lock which the interrupted code holds spins
forever.

The main context holds `INPUT`, `SERIAL1`, `WRITER` and `PICS` only with
interrupts disabled (`guarded_kernelMain`), so the only lock that a handler can
meet held is the one inside the allocator.  Hence a run is free of such a meeting
iff no handler goes to the allocator while the main context is inside it, and
`Irq.Allocates` says when a handler goes there: it depends on the input buffer.
-/

namespace OpenKernel
namespace Locks

open Input

section Handlers

variable (growth : Growth)

/-- The lock of the allocator, when it is used. -/
def heapLock (used : Bool) : List Lock :=
  if used then [.HEAP] else []

/-- `handle_key_event`: the locks it tries and the buffer it leaves. -/
def handlerKeyEvent (buf : InputBuffer) : KeyEvent → List Lock × InputBuffer
  | .Char ch =>
      let (used, buf) := buf.pushChar growth ch
      ([.INPUT] ++ heapLock used ++ [.SERIAL1, .WRITER], buf)
  | .Backspace =>
      let (erased, buf) := buf.backspace
      ([.INPUT] ++ (if erased then [.SERIAL1, .WRITER] else []), buf)
  | .Enter =>
      let (used, buf) := buf.commitLine growth
      ([.INPUT] ++ heapLock used ++ [.SERIAL1, .WRITER], buf)

/-- `if let Some(event) = .. { handle_key_event(event) }`. -/
def handlerEvent (buf : InputBuffer) : Option KeyEvent → List Lock × InputBuffer
  | some event => handlerKeyEvent growth buf event
  | none => ([], buf)

/-- The loop of `serial_handler` over the bytes that it receives. -/
def serialLoop (buf : InputBuffer) : List UInt8 → List Lock × InputBuffer
  | [] => ([], buf)
  | byte :: bytes =>
      let (locks, buf) := handlerEvent growth buf (serialByteToEvent byte)
      let (more, buf) := serialLoop buf bytes
      (locks ++ more, buf)

/-- An interrupt, with the bytes that its handler reads. -/
inductive Irq where
  | timer
  | keyboard (scancode : UInt8)
  | serial (bytes : List UInt8)

/-- The locks that a handler tries, in order, and the buffer it leaves. -/
def Irq.handler (buf : InputBuffer) : Irq → List Lock × InputBuffer
  | timer => ([.PICS], buf)
  | keyboard scancode =>
      let (locks, buf) := handlerEvent growth buf (scancodeToEvent scancode)
      (locks ++ [.PICS], buf)
  | serial bytes =>
      let (locks, buf) := serialLoop growth buf bytes
      (locks ++ [.PICS], buf)

/-- One of the bytes makes the serial handler go to the allocator. -/
def SerialAllocates (buf : InputBuffer) : List UInt8 → Prop
  | [] => False
  | byte :: bytes =>
      (∃ event, serialByteToEvent byte = some event ∧ buf.Allocates event) ∨
      SerialAllocates (handlerEvent growth buf (serialByteToEvent byte)).2 bytes

/-- The handler goes to the allocator. -/
def Irq.Allocates (buf : InputBuffer) : Irq → Prop
  | timer => False
  | keyboard scancode =>
      ∃ event, scancodeToEvent scancode = some event ∧ buf.Allocates event
  | serial bytes => SerialAllocates growth buf bytes

theorem mem_heapLock_iff
    {l : Lock} {used : Bool} :
    l ∈ heapLock used ↔ l = .HEAP ∧ used = true := by
  unfold heapLock
  cases used <;> simp

theorem handlerKeyEvent_locks
    (buf : InputBuffer) (event : KeyEvent) :
    (.HEAP ∈ (handlerKeyEvent growth buf event).1 ↔ buf.Allocates event) ∧
    ∀ l ∈ (handlerKeyEvent growth buf event).1, l = .HEAP ∨ handlerLock l = true := by
  cases event with
  | Char ch =>
      constructor
      · simp [handlerKeyEvent, mem_heapLock_iff, ← InputBuffer.pushChar_allocates_iff growth]
      · simp [handlerKeyEvent, mem_heapLock_iff, handlerLock, or_imp, forall_and]
  | Backspace =>
      constructor
      · cases hline : buf.line.items <;>
          simp [handlerKeyEvent, InputBuffer.backspace, hline, InputBuffer.Allocates]
      · cases hline : buf.line.items <;>
          simp [handlerKeyEvent, InputBuffer.backspace, hline, handlerLock]
  | Enter =>
      constructor
      · simp [handlerKeyEvent, mem_heapLock_iff, ← InputBuffer.commitLine_allocates_iff growth]
      · simp [handlerKeyEvent, mem_heapLock_iff, handlerLock, or_imp, forall_and]

theorem handlerEvent_locks
    (buf : InputBuffer) (event : Option KeyEvent) :
    (.HEAP ∈ (handlerEvent growth buf event).1 ↔
      ∃ e, event = some e ∧ buf.Allocates e) ∧
    ∀ l ∈ (handlerEvent growth buf event).1, l = .HEAP ∨ handlerLock l = true := by
  cases event with
  | none => simp [handlerEvent]
  | some e => simpa [handlerEvent] using handlerKeyEvent_locks growth buf e

theorem serialLoop_locks
    (buf : InputBuffer) (bytes : List UInt8) :
    (.HEAP ∈ (serialLoop growth buf bytes).1 ↔ SerialAllocates growth buf bytes) ∧
    ∀ l ∈ (serialLoop growth buf bytes).1, l = .HEAP ∨ handlerLock l = true := by
  induction bytes generalizing buf with
  | nil =>
      simp [serialLoop, SerialAllocates]
  | cons byte bytes ih =>
      obtain ⟨hheap, hlocks⟩ :=
        handlerEvent_locks growth buf (serialByteToEvent byte)
      obtain ⟨hmore, hrest⟩ := ih (handlerEvent growth buf (serialByteToEvent byte)).2
      constructor
      · rw [SerialAllocates, ← hheap, ← hmore]
        simp [serialLoop]
      · intro l hl
        rcases List.mem_append.1 (by simpa [serialLoop] using hl) with hl | hl
        · exact hlocks l hl
        · exact hrest l hl

/-- A handler tries the allocator's lock iff it allocates; its other locks are the
four that the main context takes with interrupts disabled. -/
theorem handler_locks
    (buf : InputBuffer) (irq : Irq) :
    (.HEAP ∈ (irq.handler growth buf).1 ↔ irq.Allocates growth buf) ∧
    ∀ l ∈ (irq.handler growth buf).1, l = .HEAP ∨ handlerLock l = true := by
  cases irq with
  | timer =>
      simp [Irq.handler, Irq.Allocates, handlerLock]
  | keyboard scancode =>
      obtain ⟨hheap, hlocks⟩ :=
        handlerEvent_locks growth buf (scancodeToEvent scancode)
      constructor
      · simpa [Irq.handler, Irq.Allocates] using hheap
      · simpa [Irq.handler, or_imp, forall_and, handlerLock] using hlocks
  | serial bytes =>
      obtain ⟨hheap, hlocks⟩ := serialLoop_locks growth buf bytes
      constructor
      · simpa [Irq.handler, Irq.Allocates] using hheap
      · simpa [Irq.handler, or_imp, forall_and, handlerLock] using hlocks

end Handlers

section System

/-- The processor in the main context, and the input buffer. -/
structure System where
  cpu : Cpu Lock
  input : InputBuffer

inductive Act where
  | main (p : Prim Lock InputCall)
  | interrupt (irq : Irq)

variable (growth : Growth)

def InputCall.apply (buf : InputBuffer) : InputCall → InputBuffer
  | pushChar ch => (buf.pushChar growth ch).2
  | backspace => buf.backspace.2
  | commitLine => (buf.commitLine growth).2
  | popLine => buf.popLine.2

/-- A step of the main context. -/
def System.mainStep (s : System) (p : Prim Lock InputCall) : System where
  cpu := s.cpu.step p
  input :=
    match p with
    | .call c => c.apply growth s.input
    | _ => s.input

/-- The main context takes a step, or a handler runs where interrupts are enabled. -/
inductive Step : System → Act → System → Prop
  | main (s : System) (p : Prim Lock InputCall) :
      Step s (.main p) (s.mainStep growth p)
  | interrupt (s : System) (irq : Irq)
      (henabled : s.cpu.enabled = true) :
      Step s (.interrupt irq) { s with input := (irq.handler growth s.input).2 }

/-- Interrupts have just been enabled; no lock is held and nothing was typed. -/
def boot : System where
  cpu := ⟨true, [], []⟩
  input := InputBuffer.new

/-- The steps of the main context in a run. -/
def mainSteps (tr : List (System × Act)) : List (Prim Lock InputCall) :=
  tr.filterMap (fun x =>
    match x.2 with
    | .main p => some p
    | .interrupt _ => none)

@[simp] theorem mainSteps_append
    (tr₁ tr₂ : List (System × Act)) :
    mainSteps (tr₁ ++ tr₂) = mainSteps tr₁ ++ mainSteps tr₂ :=
  List.filterMap_append

@[simp] theorem mainSteps_cons_main
    (s : System) (p : Prim Lock InputCall) (tr : List (System × Act)) :
    mainSteps ((s, .main p) :: tr) = p :: mainSteps tr := rfl

@[simp] theorem mainSteps_cons_interrupt
    (s : System) (irq : Irq) (tr : List (System × Act)) :
    mainSteps ((s, .interrupt irq) :: tr) = mainSteps tr := rfl

/-- The main context follows the program of the kernel. -/
def FollowsKernel (tr : List (System × Act)) : Prop :=
  ∃ t, kernelMain.Trace t ∧ mainSteps tr <+: t

/-- The handler delivered in this step tries no lock that is held. -/
def MeetsNoLock (s : System) : Act → Prop
  | .main _ => True
  | .interrupt irq => ∀ l ∈ (irq.handler growth s.input).1, l ∉ s.cpu.held

/-- The handler delivered in this step does not go to the allocator while the
interrupted code is inside it. -/
def LeavesAllocator (s : System) : Act → Prop
  | .main _ => True
  | .interrupt irq => .HEAP ∈ s.cpu.held → ¬ irq.Allocates growth s.input

variable {growth}

/-- Handlers leave the processor of the main context as it was. -/
theorem cpu_of_run
    {s s' : System} {tr : List (System × Act)}
    (h : Run (Step growth) s tr s') :
    s'.cpu = s.cpu.run (mainSteps tr) := by
  induction h with
  | nil =>
      rfl
  | snoc before last ih =>
      rw [mainSteps_append, Cpu.run_append, ← ih]
      cases last with
      | main p => rfl
      | interrupt irq henabled => rfl

/-- When a handler is delivered, no lock of the handlers' own four is held. -/
theorem handlerLock_free
    {s : System} {tr : List (System × Act)}
    (h : Run (Step growth) boot tr s)
    (hmain : FollowsKernel tr)
    (henabled : s.cpu.enabled = true) :
    ∀ l ∈ s.cpu.held, handlerLock l = false := by
  obtain ⟨t, htrace, hpre⟩ := hmain
  rw [cpu_of_run h] at henabled ⊢
  exact htrace.shared_free guarded_kernelMain hpre henabled

theorem meetsNoLock_iff
    {s s' : System} {a : Act} {tr : List (System × Act)}
    (h : Run (Step growth) boot tr s)
    (hmain : FollowsKernel tr)
    (hstep : Step growth s a s') :
    MeetsNoLock growth s a ↔ LeavesAllocator growth s a := by
  cases hstep with
  | main p =>
      exact iff_of_true trivial trivial
  | interrupt irq henabled =>
      obtain ⟨hheap, hlocks⟩ := handler_locks growth s.input irq
      have hfree := handlerLock_free h hmain henabled
      constructor
      · intro hmeets hheld hallocates
        exact hmeets .HEAP (hheap.2 hallocates) hheld
      · intro hleaves l hl hheld
        rcases hlocks l hl with rfl | hown
        · exact hleaves hheld (hheap.1 hl)
        · rw [hfree l hheld] at hown
          cases hown

/--
In every interleaving of the kernel's main context with the handlers after boot,
no handler tries a lock that the interrupted code holds iff no handler goes to
the allocator while the interrupted code is inside it.
-/
theorem handlers_meet_no_lock_iff
    (growth : Growth)
    (tr : List (System × Act)) (s : System)
    (h : Run (Step growth) boot tr s)
    (hmain : FollowsKernel tr) :
    (∀ x ∈ tr, MeetsNoLock growth x.1 x.2) ↔
      ∀ x ∈ tr, LeavesAllocator growth x.1 x.2 := by
  have hexact : ∀ x ∈ tr, (MeetsNoLock growth x.1 x.2 ↔ LeavesAllocator growth x.1 x.2) := by
    intro x hx
    obtain ⟨tr₁, tr₂, u, rfl, hbefore, hstep, -⟩ := h.exists_before hx
    obtain ⟨t, htrace, hpre⟩ := hmain
    refine meetsNoLock_iff hbefore ⟨t, htrace, ?_⟩ hstep
    rw [mainSteps_append] at hpre
    exact (List.prefix_append _ _).trans hpre
  constructor
  · intro hmeets x hx
    exact (hexact x hx).1 (hmeets x hx)
  · intro hleaves x hx
    exact (hexact x hx).2 (hleaves x hx)

/-- A run of the main context alone. -/
def mainTrace (growth : Growth) : System → List (Prim Lock InputCall) → List (System × Act)
  | _, [] => []
  | s, p :: ps => (s, .main p) :: mainTrace growth (s.mainStep growth p) ps

theorem run_mainTrace
    (growth : Growth)
    (s : System) (ps : List (Prim Lock InputCall)) :
    Run (Step growth) s (mainTrace growth s ps) (ps.foldl (System.mainStep growth) s) := by
  induction ps generalizing s with
  | nil =>
      exact Run.nil s
  | cons p ps ih =>
      exact Run.cons (Step.main s p) (ih (s.mainStep growth p))

theorem mainSteps_mainTrace
    (growth : Growth)
    (s : System) (ps : List (Prim Lock InputCall)) :
    mainSteps (mainTrace growth s ps) = ps := by
  induction ps generalizing s with
  | nil =>
      rfl
  | cons p ps ih =>
      rw [mainTrace, mainSteps_cons_main, ih (s.mainStep growth p)]

theorem main_of_mem_mainTrace
    {growth : Growth} {s : System} {ps : List (Prim Lock InputCall)} {x : System × Act}
    (hx : x ∈ mainTrace growth s ps) :
    ∃ p, x.2 = .main p := by
  induction ps generalizing s with
  | nil =>
      simp [mainTrace] at hx
  | cons p ps ih =>
      rcases List.mem_cons.1 hx with rfl | hx
      · exact ⟨p, rfl⟩
      · exact ih hx

/-- Enter has been pressed on the empty line. -/
def afterEnter : System :=
  { boot with input := ((Irq.keyboard 0x1C).handler Growth.doubling boot.input).2 }

/-- The main context has popped the line and copies the current directory. -/
def atPrompt : System :=
  promptSteps.foldl (System.mainStep Growth.doubling) afterEnter

def promptTrace : List (System × Act) :=
  (boot, .interrupt (.keyboard 0x1C)) :: mainTrace Growth.doubling afterEnter promptSteps

theorem run_promptTrace :
    Run (Step Growth.doubling) boot promptTrace atPrompt :=
  Run.cons (.interrupt boot (.keyboard 0x1C) rfl)
    (run_mainTrace Growth.doubling afterEnter promptSteps)

theorem followsKernel_promptTrace
    (irq : Irq) :
    FollowsKernel (promptTrace ++ [(atPrompt, .interrupt irq)]) := by
  obtain ⟨t, htrace, hpre⟩ := trace_promptSteps
  have hsteps := mainSteps_mainTrace Growth.doubling afterEnter promptSteps
  refine ⟨t, htrace, ?_⟩
  rw [mainSteps_append, promptTrace, mainSteps_cons_interrupt, hsteps]
  simpa [mainSteps] using hpre

/-- A key that arrives while the prompt copies the current directory makes its handler
wait for the allocator's lock, which the interrupted code holds. -/
theorem handler_meets_allocator :
    ¬ ∀ growth tr s, Run (Step growth) boot tr s → FollowsKernel tr →
      ∀ x ∈ tr, MeetsNoLock growth x.1 x.2 := by
  intro h
  have hrun := run_promptTrace.snoc (.interrupt atPrompt (.keyboard 0x1E) rfl)
  have hmeets := h Growth.doubling _ _ hrun (followsKernel_promptTrace _)
    (atPrompt, .interrupt (.keyboard 0x1E)) (by simp)
  have hheap : .HEAP ∈ ((Irq.keyboard 0x1E).handler Growth.doubling atPrompt.input).1 := by
    refine (handler_locks Growth.doubling atPrompt.input (.keyboard 0x1E)).1.2 ?_
    exact ⟨.Char 'a', by decide, by decide, by decide⟩
  exact hmeets .HEAP hheap (by decide)

/-- The timer may interrupt the same allocation. -/
theorem handlers_meet_no_lock_iff_timer :
    .HEAP ∈ atPrompt.cpu.held ∧
    ∀ x ∈ promptTrace ++ [(atPrompt, Act.interrupt .timer)],
      MeetsNoLock Growth.doubling x.1 x.2 := by
  refine ⟨by decide, ?_⟩
  have hrun := run_promptTrace.snoc (.interrupt atPrompt .timer rfl)
  refine (handlers_meet_no_lock_iff Growth.doubling _ _ hrun
    (followsKernel_promptTrace _)).2 ?_
  intro x hx
  rcases List.mem_append.1 hx with hx | hx
  · rcases List.mem_cons.1 hx with rfl | hx
    · intro hheld
      cases hheld
    · obtain ⟨p, hp⟩ := main_of_mem_mainTrace hx
      rw [hp]
      trivial
  · obtain rfl : x = (atPrompt, .interrupt .timer) := by simpa using hx
    intro _ hallocates
    exact hallocates

end System

end Locks
end OpenKernel
