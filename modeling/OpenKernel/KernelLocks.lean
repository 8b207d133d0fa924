import OpenKernel.InputBuffer
import OpenKernel.LockPrograms

/-!
# The locks that the kernel takes after boot

Each function that runs in the main context after `kernel_main` has enabled
interrupts is written down as the program of its locks: the scopes of the spin
locks it takes, its `without_interrupts` closures, its calls of the input buffer
and its use of the heap.  Where the source branches on data, the program has a
choice; where it repeats, a loop.

The allocator holds its own lock during each allocation and deallocation and
does not disable interrupts.  How often a function goes to the allocator is left
open (`allocs`).

`rank` is the order in which the locks are taken one inside the other, and
`main_context_locks_in_order` says that no execution takes them otherwise.
-/

namespace OpenKernel
namespace Locks

open LockProg

inductive Lock where
  | INPUT
  | SERIAL1
  | WRITER
  | PICS
  /-- The lock inside `ALLOCATOR`. -/
  | HEAP
  | SCHEDULER
  | FS
  | CURRENT_DIR
  | NET_STACK
  | DRIVERS
  | VM_MANAGER
  | PROMPT
  deriving DecidableEq

/-- The calls that change the input buffer. -/
inductive InputCall where
  | pushChar (ch : Char)
  | backspace
  | commitLine
  | popLine
  deriving DecidableEq

abbrev Program := LockProg Lock InputCall

section Heap

/-- Allocations and deallocations, however many. -/
def allocs : Program :=
  loop (locked .HEAP skip)

/-- `heap_stats`. -/
def heapStats : Program :=
  locked .HEAP skip

/-- A lock in a `lazy_static` whose value is made on the heap at its first use. -/
def lazyLocked (lock : Lock) (body : Program) : Program :=
  block [allocs, locked lock body]

end Heap

section Input

def pushChar : Program :=
  withoutInterrupts (locked .INPUT
    (block [call (fun c => ∃ ch, c = .pushChar ch), allocs]))

def backspace : Program :=
  withoutInterrupts (locked .INPUT (call (fun c => c = .backspace)))

def commitLine : Program :=
  withoutInterrupts (locked .INPUT
    (block [call (fun c => c = .commitLine), allocs]))

def popLine : Program :=
  withoutInterrupts (locked .INPUT (call (fun c => c = .popLine)))

def getModifiers : Program :=
  withoutInterrupts (locked .INPUT skip)

end Input

section Output

/-- `serial_print_impl`. -/
def serialPrint : Program :=
  withoutInterrupts (locked .SERIAL1 skip)

/-- `vga_buffer::_print`. -/
def print : Program :=
  withoutInterrupts (locked .WRITER skip)

def clearScreen : Program :=
  withoutInterrupts (locked .WRITER skip)

def setColors : Program :=
  withoutInterrupts (locked .WRITER skip)

/-- `serial_println!` and `println!` of one text. -/
def printBoth : Program :=
  block [serialPrint, print]

/-- The same for a text made with `format!`, which is dropped after it. -/
def printFormatted : Program :=
  block [allocs, printBoth, allocs]

end Output

section Vfs

def getCurrentDirectory : Program :=
  lazyLocked .CURRENT_DIR allocs

def resolvePath : Program :=
  block [oneOf [allocs, getCurrentDirectory], allocs]

def changeDirectory : Program :=
  block [resolvePath,
    lazyLocked .FS (block [allocs, oneOf [lazyLocked .CURRENT_DIR allocs, skip]]),
    allocs]

def listDirectory : Program :=
  block [oneOf [getCurrentDirectory, resolvePath],
    lazyLocked .FS (block [allocs, printBoth, loop (block [printBoth, allocs])]),
    allocs]

def printTree : Program :=
  lazyLocked .FS (block [printBoth, allocs, loop (block [printBoth, allocs])])

/-- `read_file_string`, `write_file_string`, `create_dir` and `remove_node`. -/
def onResolved : Program :=
  block [resolvePath, lazyLocked .FS allocs, allocs]

end Vfs

section Devices

def printIfconfig : Program :=
  lazyLocked .NET_STACK (loop printFormatted)

def ping : Program :=
  lazyLocked .NET_STACK (block [allocs, printBoth, allocs,
    oneOf [block [loop printFormatted, printFormatted], printFormatted], allocs])

def printDrivers : Program :=
  lazyLocked .DRIVERS (block [allocs, printBoth, loop printFormatted, allocs])

def printVmap : Program :=
  lazyLocked .VM_MANAGER (block [printBoth, loop printFormatted])

end Devices

section Scheduler

def snapshotTasks (visit : Program) : Program :=
  locked .SCHEDULER (loop visit)

def spawnTask : Program :=
  locked .SCHEDULER skip

def killTask : Program :=
  locked .SCHEDULER skip

end Scheduler

section Shell

def printPrompt : Program :=
  lazyLocked .PROMPT (block [getCurrentDirectory, printBoth, allocs])

/-- The arms of `handle_command`; each prints to both outputs. -/
def commands : List (String × Program) :=
  [("", skip),
    ("help", printBoth),
    ("drivers", printDrivers),
    ("ifconfig", printIfconfig),
    ("ping", ping),
    ("netstat", printBoth),
    ("vmap", printVmap),
    ("modifiers", block [getModifiers, printFormatted]),
    ("uname", printBoth),
    ("sysinfo", block [heapStats, printFormatted]),
    ("meminfo", block [heapStats, printFormatted]),
    ("uptime", printFormatted),
    ("cd", block [changeDirectory,
      oneOf [block [getCurrentDirectory, printBoth, allocs], printBoth]]),
    ("pwd", block [getCurrentDirectory, printBoth, allocs]),
    ("prompt", oneOf [lazyLocked .PROMPT (block [allocs, printBoth, allocs]), printBoth]),
    ("matrix", block [setColors, printBoth]),
    ("guess", printBoth),
    ("time", printBoth),
    ("date", printBoth),
    ("ls", listDirectory),
    ("tree", printTree),
    ("cat", oneOf [printBoth, block [onResolved, printBoth, allocs]]),
    ("touch", oneOf [printBoth, block [onResolved, printBoth]]),
    ("write", oneOf [printBoth, block [onResolved, printBoth]]),
    ("mkdir", oneOf [printBoth, block [onResolved, printBoth]]),
    ("rm", oneOf [printBoth, block [onResolved, printBoth]]),
    ("echo", printBoth),
    ("ps", block [printBoth, snapshotTasks printBoth]),
    ("tasks", block [printBoth, snapshotTasks printBoth]),
    ("clear", block [clearScreen, serialPrint]),
    ("cpuid", printFormatted),
    ("color", block [setColors, printBoth]),
    ("spawn", block [spawnTask, oneOf [printFormatted, printBoth]]),
    ("kill", oneOf [block [killTask, printFormatted], printBoth]),
    ("calc", block [allocs, oneOf [printFormatted, printBoth], allocs]),
    ("panic", printBoth),
    ("reboot", printBoth),
    ("shutdown", printBoth),
    -- any other word
    ("other", printBoth)]

def handleCommand : Program :=
  oneOf (commands.map Prod.snd)

/-- `handle_key_event` and `handle_input_event` in the main context. -/
def handleKeyEvent : Program :=
  oneOf [block [pushChar, printBoth],
    block [backspace, oneOf [printBoth, skip]],
    block [commitLine, printBoth]]

/-- `poll_keyboard` and `poll_serial_input`. -/
def poll : Program :=
  loop (oneOf [handleKeyEvent, skip])

/-- The line that was handled is dropped last. -/
def runOnce : Program :=
  block [poll, poll, popLine, oneOf [block [handleCommand, printPrompt, allocs], skip]]

end Shell

section Main

/-- `shell::task`, or `idle_task`, `worker_task` and `logger_task`, which take no lock. -/
def taskFn : Program :=
  oneOf [runOnce, skip]

/-- `scheduler::run`; `enable_and_hlt` ends each turn. -/
def schedulerRun : Program :=
  loop (block [locked .SCHEDULER skip,
    oneOf [block [taskFn, locked .SCHEDULER skip], skip],
    enable])

/-- What follows `cpu_irq::enable()` in `kernel_main`. -/
def kernelMain : Program :=
  block [serialPrint, print, schedulerRun]

/-- The locks that the handlers take themselves. -/
def handlerLock : Lock → Bool
  | .INPUT => true
  | .SERIAL1 => true
  | .WRITER => true
  | .PICS => true
  | _ => false

/-- Wherever the main context takes a lock of the handlers, interrupts are disabled. -/
theorem guarded_kernelMain :
    kernelMain.guarded handlerLock = true := by
  decide

/-- An order of the locks: those around others come first. -/
def rank : Lock → Nat
  | .FS => 1
  | .CURRENT_DIR => 2
  | .INPUT => 3
  | .SERIAL1 => 3
  | .WRITER => 3
  | .PICS => 3
  | .HEAP => 4
  | _ => 0

theorem ascending_kernelMain :
    kernelMain.ascending rank 0 = true := by
  decide

/--
In every execution of the main context after boot, a lock is taken only while all
held ones come before it in the order, so never while it is itself held; and at
every `enable`, the one before each `hlt` included, no lock is held.
-/
theorem main_context_locks_in_order
    (t : List (Prim Lock InputCall))
    (h : kernelMain.Trace t) :
    (∀ t' lock, t' ++ [.lock lock] <+: t →
      (∀ held ∈ ((⟨true, [], []⟩ : Cpu Lock).run t').held, rank held < rank lock) ∧
      lock ∉ ((⟨true, [], []⟩ : Cpu Lock).run t').held) ∧
    (∀ t', t' ++ [.enable] <+: t → ((⟨true, [], []⟩ : Cpu Lock).run t').held = []) ∧
    ((⟨true, [], []⟩ : Cpu Lock).run t).held = [] := by
  have hnone : ∀ l ∈ (⟨true, [], []⟩ : Cpu Lock).held, rank l < 0 := by
    intro l hl
    cases hl
  obtain ⟨hrun, hsteps⟩ := h.ascending_steps ascending_kernelMain hnone
  refine ⟨fun t' lock hpre => ?_, fun t' hpre => Cpu.steps_isPrefix hsteps hpre, hrun⟩
  have habove := Cpu.steps_isPrefix hsteps hpre
  exact ⟨habove, fun hmem => Nat.lt_irrefl _ (habove lock hmem)⟩

/-- From boot to the allocation in the prompt that follows an empty line. -/
def promptSteps : List (Prim Lock InputCall) :=
  [.disable, .lock .SERIAL1, .unlock .SERIAL1, .restore,
    .disable, .lock .WRITER, .unlock .WRITER, .restore,
    .lock .SCHEDULER, .unlock .SCHEDULER,
    .disable, .lock .INPUT, .call .popLine, .unlock .INPUT, .restore,
    .lock .PROMPT, .lock .CURRENT_DIR, .lock .HEAP]

theorem trace_promptSteps :
    ∃ t, kernelMain.Trace t ∧ promptSteps <+: t := by
  have hserial : serialPrint.Trace _ := .withoutInterrupts (.locked .skip)
  have hprint : print.Trace _ := .withoutInterrupts (.locked .skip)
  have hboth : printBoth.Trace _ := .seq hserial (.seq hprint .skip)
  have hpop : popLine.Trace _ := .withoutInterrupts (.locked (.call .popLine rfl))
  have hclone : allocs.Trace _ := .again (.locked .skip) .stop
  have hdir : getCurrentDirectory.Trace _ := .seq .stop (.seq (.locked hclone) .skip)
  have hprompt : printPrompt.Trace _ :=
    .seq .stop (.seq (.locked (.seq hdir (.seq hboth (.seq .stop .skip)))) .skip)
  have hcommand : handleCommand.Trace [] := .left .skip
  have hline : runOnce.Trace _ :=
    .seq .stop (.seq .stop (.seq hpop
      (.seq (.left (.seq hcommand (.seq hprompt (.seq .stop .skip)))) .skip)))
  have htask : taskFn.Trace _ := .left hline
  have hturn : schedulerRun.Trace _ :=
    .again (.seq (.locked .skip)
      (.seq (.left (.seq htask (.seq (.locked .skip) .skip))) (.seq .enable .skip))) .stop
  exact ⟨_, .seq hserial (.seq hprint (.seq hturn .skip)), by decide⟩

/-- The prompt copies the current directory under two locks, and the allocator's comes after
both. -/
theorem main_context_locks_in_order_print :
    ((⟨true, [], []⟩ : Cpu Lock).run promptSteps.dropLast).held = [.CURRENT_DIR, .PROMPT] ∧
    (∀ held ∈ ((⟨true, [], []⟩ : Cpu Lock).run promptSteps.dropLast).held,
      rank held < rank .HEAP) ∧
    .HEAP ∉ ((⟨true, [], []⟩ : Cpu Lock).run promptSteps.dropLast).held := by
  obtain ⟨t, htrace, hpre⟩ := trace_promptSteps
  have hlocks := (main_context_locks_in_order t htrace).1 promptSteps.dropLast .HEAP hpre
  exact ⟨by decide, hlocks⟩

end Main

end Locks
end OpenKernel
