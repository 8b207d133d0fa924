import OpenKernel.CommandEffects
import OpenKernel.RoundRobinFairness
import OpenKernel.LineQueue

/-!
# The kernel after boot

`scheduler::run` with the task functions of the repository, and the interrupt
handlers between any two of its steps.  The main context goes through the
phases of a turn: it takes a slot, runs the task function (for the shell: takes
a line and runs it), commits the result and sleeps until an interrupt.  A key
reaches the input buffer from a handler at any time, or from the polls at the
start of `run_once`; both are the same action here.  Polls, prints and reports
change nothing else that the loop reads.

`alive_run` is the invariant of every run: slot 3 holds the shell, Ready
whenever no body of it runs.  So the loop never runs out of Ready tasks and never
meets a failed `expect` (`shell_survives`).  A step stops the kernel iff it runs
a line that does (`stopped_step_iff`).
-/

namespace OpenKernel
namespace MainLoop

open Vfs Scheduling Shell Input

/-- Where the main context stands. -/
inductive Phase where
  /-- Before `prepare_next`. -/
  | scan
  /-- A task function has been called. -/
  | body (idx : Nat) (func : TaskFn) (ctx : TaskContext)
  /-- `run_once` has taken a line off the queue. -/
  | command (idx : Nat) (ctx : TaskContext) (line : Str)
  /-- Before `finish_task`. -/
  | returned (idx : Nat) (ctx : TaskContext)
  /-- In `enable_and_hlt`. -/
  | asleep
  /-- A command has panicked inside a task function. -/
  | stopped (idx : Nat) (ctx : TaskContext) (panic : CommandPanic)
  /-- An operation on the task table has panicked. -/
  | failed (panic : Panic)

/-- An interrupt ends the sleep. -/
def Phase.woken : Phase → Phase
  | .asleep => .scan
  | phase => phase

/-- The statics that the loop and the handlers change. -/
structure System where
  shell : ShellState
  input : InputBuffer
  /-- `BOOT_TICK_COUNT`. -/
  ticks : UInt64
  phase : Phase

inductive Action where
  /-- A byte of the keyboard or the serial port, with its event if it has one. -/
  | key (event : Option KeyEvent)
  | timer
  /-- The next step of the main context. -/
  | main
deriving DecidableEq

namespace System

section Steps

variable (profile : Profile) (report : UInt64 → Str → Str → ShellState → List Str)
variable (growth : Growth) (s : System)

def withSched (sched : Scheduler) (phase : Phase) : System :=
  { s with shell := { s.shell with sched := sched }, phase := phase }

/-- `handle_key_event` and `handle_input_event`, as far as the input buffer goes. -/
def handleKey : Option KeyEvent → System
  | some event => { s with input := (handleKeyEvent growth s.input event).2 }
  | none => s

/-- `on_timer_tick`. -/
def onTimerTick : System :=
  { s with ticks := s.ticks + 1 }

/-- `SCHEDULER.lock().prepare_next()`. -/
def prepare : System :=
  match s.shell.sched.prepareNext s.ticks with
  | .error panic => { s with phase := .failed panic }
  | .ok (none, sched) => s.withSched sched .asleep
  | .ok (some (idx, func, ctx), sched) => s.withSched sched (.body idx func ctx)

/-- `func(&mut ctx)`, for the shell up to its `pop_line`. -/
def runBody (idx : Nat) (func : TaskFn) (ctx : TaskContext) : System :=
  match func with
  | .idleTask => { s with phase := .returned idx (idleTask ctx) }
  | .workerTask => { s with phase := .returned idx (workerTask ctx) }
  | .loggerTask => { s with phase := .returned idx (loggerTask ctx) }
  | .shellTask =>
      match s.input.popLine with
      | (some line, input) => { s with input := input, phase := .command idx ctx line }
      | (none, input) => { s with input := input, phase := .returned idx ctx.yieldNow }
  | .other _ => s

/-- `handle_command(line.trim())` and the rest of the shell's task function. -/
def runCommand (idx : Nat) (ctx : TaskContext) (line : Str) : System :=
  match handleCommand profile (report s.ticks) s.shell (trim line) with
  | .ok (_, shell) => { s with shell := shell, phase := .returned idx ctx.yieldNow }
  | .error panic => { s with phase := .stopped idx ctx panic }

/-- `SCHEDULER.lock().finish_task(idx, &ctx)`. -/
def commit (idx : Nat) (ctx : TaskContext) : System :=
  match s.shell.sched.finishTask idx ctx with
  | .error panic => { s with phase := .failed panic }
  | .ok sched => s.withSched sched .asleep

/-- The next step of the main context. -/
def advance : System :=
  match s.phase with
  | .scan => s.prepare
  | .body idx func ctx => s.runBody idx func ctx
  | .command idx ctx line => s.runCommand profile report idx ctx line
  | .returned idx ctx => s.commit idx ctx
  | .asleep | .stopped _ _ _ | .failed _ => s

def step : Action → System
  | .key event => { s.handleKey growth event with phase := s.phase.woken }
  | .timer => { s.onTimerTick with phase := s.phase.woken }
  | .main => s.advance profile report

end Steps

/-- The statics after `scheduler::init` and `shell::init`. -/
def boot : System where
  shell :=
    { vfs := Statics.init
      sched := initKernel.sched
      prompt := "root".toList
      net := Net.NetworkStack.new }
  input := InputBuffer.new
  ticks := 0
  phase := .scan

def Step
    (profile : Profile) (report : UInt64 → Str → Str → ShellState → List Str) (growth : Growth)
    (s : System) (a : Action) (t : System) : Prop :=
  t = s.step profile report growth a

/-- The state after a list of actions from the boot on. -/
def after
    (profile : Profile) (report : UInt64 → Str → Str → ShellState → List Str) (growth : Growth)
    (actions : List Action) : System :=
  actions.foldl (step profile report growth) boot

end System

/-- The slot that `init` fills with the shell. -/
def shellSlot : Nat := 3

/-- The function of the task in a slot, if there is a task. -/
def funcAt (sched : Scheduler) (idx : Nat) : Option TaskFn :=
  (sched.slot idx).map Task.func

/-- The shell is in its slot and nowhere else, and every function is known. -/
structure Seated (sched : Scheduler) : Prop where
  shell : funcAt sched shellSlot = some .shellTask
  only : ∀ idx, funcAt sched idx = some .shellTask → idx = shellSlot
  known : ∀ idx addr, funcAt sched idx ≠ some (.other addr)

/-- What a phase says about the task table and the context. -/
def Phase.Holds (sched : Scheduler) : Phase → Prop
  | .scan | .asleep => sched.stateAt shellSlot = some .Ready
  | .body idx func ctx =>
      funcAt sched idx = some func ∧ sched.stateAt idx = some .Running ∧
        ctx.finished = false ∧ (idx ≠ shellSlot → sched.stateAt shellSlot = some .Ready)
  | .command idx ctx _ =>
      idx = shellSlot ∧ sched.stateAt shellSlot = some .Running ∧ ctx.finished = false
  | .returned idx ctx =>
      (funcAt sched idx).isSome ∧ (ctx.yielded = true ∨ ctx.finished = true) ∧
        (idx ≠ shellSlot → sched.stateAt shellSlot = some .Ready) ∧
        (idx = shellSlot → ctx.finished = false)
  | .stopped idx _ _ => idx = shellSlot
  | .failed _ => False

/-- The invariant of the loop: the shell is alive. -/
structure Alive (s : System) : Prop where
  seated : Seated s.shell.sched
  phase : s.phase.Holds s.shell.sched

section Tables

variable {sched sched' : Scheduler}

theorem map_slot_setSlot
    {β : Type} (f : Task → β)
    (sched : Scheduler) {idx : Nat} (j : Nat) (task : Task)
    (h : idx < MAX_TASKS) :
    ((sched.setSlot idx task).slot j).map f =
      if idx = j then some (f task) else (sched.slot j).map f := by
  by_cases hij : idx = j
  · subst hij
    simp [h]
  · simp [hij]

/-- Writing a task back to its slot keeps a field that it has not changed. -/
theorem map_slot_setSlot_same
    {β : Type} (f : Task → β)
    {idx : Nat} {task task' : Task}
    (hslot : sched.slot idx = some task)
    (hsame : f task' = f task)
    (j : Nat) :
    ((sched.setSlot idx task').slot j).map f = (sched.slot j).map f := by
  rw [map_slot_setSlot f sched j task' (Scheduler.lt_of_slot hslot)]
  split
  · rename_i hij
    rw [← hij, hslot, hsame]
    rfl
  · rfl

/-- The commit changes nothing but states. -/
theorem map_slot_finishTask
    {β : Type} {f : Task → β}
    (hf : ∀ task state, f { task with state := state } = f task)
    {idx : Nat} {ctx : TaskContext}
    (h : sched.finishTask idx ctx = .ok sched')
    (j : Nat) :
    (sched'.slot j).map f = (sched.slot j).map f := by
  rw [Scheduler.finishTask_slot h]
  split
  · rw [Option.map_map]
    rcases sched.slot j with _ | task
    · rfl
    · exact congrArg some (hf task _)
  · rfl

/-- Nor does a kill. -/
theorem map_slot_killTask
    {β : Type} {f : Task → β}
    (hf : ∀ task state, f { task with state := state } = f task)
    {id : Nat} {killed : Bool}
    (h : killTask sched id = (killed, sched'))
    (j : Nat) :
    (sched'.slot j).map f = (sched.slot j).map f := by
  cases killed with
  | true =>
      obtain ⟨task, hslot, rfl⟩ := Scheduler.killTask_eq_true_iff.1 h
      exact map_slot_setSlot_same f hslot (hf task .Finished) j
  | false =>
      obtain ⟨-, rfl⟩ := Scheduler.killTask_eq_false_iff.1 h
      rfl

theorem Seated.of_funcAt
    (h : Seated sched)
    (hfunc : ∀ j, funcAt sched' j = funcAt sched j) :
    Seated sched' where
  shell := (hfunc shellSlot).trans h.shell
  only := fun idx hidx => h.only idx ((hfunc idx).symm.trans hidx)
  known := fun idx addr hidx => h.known idx addr ((hfunc idx).symm.trans hidx)

theorem funcAt_finishTask
    {idx : Nat} {ctx : TaskContext}
    (h : sched.finishTask idx ctx = .ok sched')
    (j : Nat) :
    funcAt sched' j = funcAt sched j :=
  map_slot_finishTask (fun _ _ => rfl) h j

theorem funcAt_killTask
    {id : Nat} {killed : Bool}
    (h : killTask sched id = (killed, sched'))
    (j : Nat) :
    funcAt sched' j = funcAt sched j :=
  map_slot_killTask (fun _ _ => rfl) h j

/-- A spawned task takes no slot of a Running one. -/
theorem Seated.spawnTask
    {name : String} {spawned : Option Nat}
    (h : Seated sched)
    (hrunning : sched.stateAt shellSlot = some .Running)
    (hspawn : spawnTask sched name = (spawned, sched')) :
    Seated sched' := by
  rcases spawned with _ | idx
  · obtain ⟨rfl, -⟩ := Scheduler.spawnTask_eq_none_iff.1 hspawn
    exact h
  · obtain ⟨hlt, hfree, rfl⟩ := Scheduler.spawnTask_eq_some hspawn
    have hne : idx ≠ shellSlot := by
      rintro rfl
      exact (not_active_of_free hfree).2 hrunning
    have hfunc : ∀ j, funcAt (sched.setSlot idx (Task.new name .workerTask)) j =
        if idx = j then some .workerTask else funcAt sched j :=
      fun j => map_slot_setSlot Task.func sched j _ hlt
    refine ⟨?_, ?_, ?_⟩
    · rw [hfunc, if_neg hne]
      exact h.shell
    · intro j hj
      rw [hfunc] at hj
      split at hj
      · cases hj
      · exact h.only j hj
    · intro j addr hj
      rw [hfunc] at hj
      split at hj
      · cases hj
      · exact h.known j addr hj

theorem lt_of_funcAt
    {idx : Nat} {func : TaskFn}
    (h : funcAt sched idx = some func) :
    idx < MAX_TASKS := by
  obtain ⟨task, hslot, -⟩ := Option.map_eq_some_iff.1 h
  exact Scheduler.lt_of_slot hslot

theorem seated_initKernel :
    Seated initKernel.sched where
  shell := rfl
  only := by
    intro idx h
    have hlt : idx < 8 := lt_of_funcAt h
    interval_cases idx <;> first | rfl | cases h
  known := by
    intro idx addr h
    have hlt : idx < 8 := lt_of_funcAt h
    interval_cases idx <;> cases h

end Tables

section Steps

variable {profile : Profile} {report : UInt64 → Str → Str → ShellState → List Str}
variable {growth : Growth} {s t : System} {a : Action}

theorem alive_boot :
    Alive System.boot where
  seated := seated_initKernel
  phase := rfl

/-- An interrupt changes nothing that the invariant is about. -/
theorem Alive.woken
    (h : Alive s)
    (input : InputBuffer) (ticks : UInt64) :
    Alive ⟨s.shell, input, ticks, s.phase.woken⟩ := by
  refine ⟨h.seated, ?_⟩
  have hphase := h.phase
  rcases hcase : s.phase with _ | _ | _ | _ | _ | _ | _ <;> rw [hcase] at hphase <;> exact hphase

/-- The scan finds a Ready slot, since the shell is Ready. -/
theorem Alive.prepare_eq
    (h : Alive s)
    (hphase : s.phase = .scan) :
    ∃ idx task ctx sched,
      s.shell.sched.nextRunnableFrom s.shell.sched.current = some idx ∧
      s.shell.sched.slot idx = some task ∧
      ctx.finished = false ∧
      sched = s.shell.sched.setSlot idx
        { task with state := .Running, runs := task.runs + 1 } ∧
      s.shell.sched.prepareNext s.ticks = .ok (some (idx, task.func, ctx), sched) ∧
      s.prepare = s.withSched sched (.body idx task.func ctx) := by
  obtain ⟨r, sched, hprep⟩ := Scheduler.prepareNext_total s.shell.sched s.ticks
  have hready : s.shell.sched.stateAt shellSlot = some .Ready := by
    have hholds := h.phase
    rw [hphase] at hholds
    exact hholds
  rcases Scheduler.prepareNext_eq_ok hprep with
    ⟨-, -, hnone⟩ | ⟨idx, task, hnext, hslot, -, rfl, rfl⟩
  · exact absurd hready (hnone shellSlot)
  · refine ⟨idx, task, _, _, hnext, hslot, rfl, rfl, hprep, ?_⟩
    rw [System.prepare, hprep]

theorem Alive.prepare
    (h : Alive s)
    (hphase : s.phase = .scan) :
    Alive s.prepare := by
  obtain ⟨idx, task, ctx, sched, -, hslot, hctx, rfl, -, heq⟩ := h.prepare_eq hphase
  have hready := h.phase
  rw [hphase] at hready
  have hlt := Scheduler.lt_of_slot hslot
  have hstate := fun j => stateAt_setSlot s.shell.sched j
    { task with state := .Running, runs := task.runs + 1 } hlt
  have hfunc : ∀ j, funcAt (s.shell.sched.setSlot idx
      { task with state := .Running, runs := task.runs + 1 }) j = funcAt s.shell.sched j :=
    map_slot_setSlot_same Task.func hslot rfl
  rw [heq]
  have hat : funcAt s.shell.sched idx = some task.func := by
    rw [funcAt, hslot]
    rfl
  exact ⟨h.seated.of_funcAt hfunc, (hfunc idx).trans hat, (hstate idx).trans (if_pos rfl), hctx,
    fun hne => (hstate shellSlot).trans ((if_neg hne).trans hready)⟩

/-- A task function other than the shell's has been called and returns. -/
theorem Alive.returned
    (h : Alive s)
    {idx : Nat} {func : TaskFn} {ctx ctx' : TaskContext}
    (hphase : s.phase = .body idx func ctx)
    (hfunc : func ≠ .shellTask)
    (hyield : ctx'.yielded = true ∨ ctx'.finished = true) :
    Alive { s with phase := .returned idx ctx' } := by
  have hholds := h.phase
  rw [hphase] at hholds
  obtain ⟨hat, -, -, hready⟩ := hholds
  have hne : idx ≠ shellSlot := by
    rintro rfl
    rw [h.seated.shell] at hat
    exact hfunc (Option.some.inj hat).symm
  exact ⟨h.seated, by rw [hat]; rfl, hyield, hready, fun heq => absurd heq hne⟩

theorem Alive.runBody
    (h : Alive s)
    {idx : Nat} {func : TaskFn} {ctx : TaskContext}
    (hphase : s.phase = .body idx func ctx) :
    Alive (s.runBody idx func ctx) := by
  obtain ⟨hidle, hworker, hlogger⟩ := task_functions_yield_or_finish ctx
  have hholds := h.phase
  rw [hphase] at hholds
  obtain ⟨hat, hrunning, hctx, -⟩ := hholds
  cases func with
  | idleTask => exact h.returned hphase TaskFn.noConfusion hidle
  | workerTask => exact h.returned hphase TaskFn.noConfusion hworker
  | loggerTask => exact h.returned hphase TaskFn.noConfusion hlogger
  | shellTask =>
      obtain rfl : idx = shellSlot := h.seated.only idx hat
      rw [System.runBody]
      rcases s.input.popLine with ⟨_ | line, input⟩
      · exact ⟨h.seated, by rw [hat]; rfl, Or.inl rfl, fun hne => absurd rfl hne, fun _ => hctx⟩
      · exact ⟨h.seated, rfl, hrunning, hctx⟩
  | other addr => exact absurd hat (h.seated.known idx addr)

theorem Alive.runCommand
    (h : Alive s)
    {idx : Nat} {ctx : TaskContext} {line : Str}
    (hphase : s.phase = .command idx ctx line) :
    Alive (s.runCommand profile report idx ctx line) := by
  have hholds := h.phase
  rw [hphase] at hholds
  obtain ⟨rfl, hrunning, hctx⟩ := hholds
  rw [System.runCommand]
  rcases hreply : handleCommand profile (report s.ticks) s.shell (trim line) with
    panic | ⟨texts, shell⟩
  · exact ⟨h.seated, rfl⟩
  · have hseated : Seated shell.sched := by
      rcases sched_handleCommand hreply with
        ⟨-, hsame⟩ | ⟨-, spawned, hspawn⟩ | ⟨-, pid, killed, -, hkill⟩
      · exact hsame ▸ h.seated
      · exact h.seated.spawnTask hrunning hspawn
      · exact h.seated.of_funcAt (funcAt_killTask hkill)
    refine ⟨hseated, ?_, Or.inl rfl, fun hne => absurd rfl hne, fun _ => hctx⟩
    show (funcAt shell.sched shellSlot).isSome
    rw [hseated.shell]
    rfl

theorem Alive.commit_eq
    (h : Alive s)
    {idx : Nat} {ctx : TaskContext}
    (hphase : s.phase = .returned idx ctx) :
    ∃ sched, s.shell.sched.finishTask idx ctx = .ok sched ∧
      s.commit idx ctx = s.withSched sched .asleep := by
  have hholds := h.phase
  rw [hphase] at hholds
  obtain ⟨hsome, -, -, -⟩ := hholds
  obtain ⟨func, hat⟩ := Option.isSome_iff_exists.1 hsome
  obtain ⟨task, hslot, -⟩ := Option.map_eq_some_iff.1 hat
  obtain ⟨sched, hfinish⟩ : ∃ sched, s.shell.sched.finishTask idx ctx = .ok sched :=
    ⟨_, Scheduler.finishTask_eq_ok_iff.2 ⟨task, hslot, rfl⟩⟩
  exact ⟨sched, hfinish, by rw [System.commit, hfinish]⟩

theorem Alive.commit
    (h : Alive s)
    {idx : Nat} {ctx : TaskContext}
    (hphase : s.phase = .returned idx ctx) :
    Alive (s.commit idx ctx) := by
  obtain ⟨sched, hfinish, heq⟩ := h.commit_eq hphase
  have hholds := h.phase
  rw [hphase] at hholds
  obtain ⟨-, -, hready, hkeep⟩ := hholds
  rw [heq]
  refine ⟨h.seated.of_funcAt (funcAt_finishTask hfinish), ?_⟩
  show sched.stateAt shellSlot = some .Ready
  rw [stateAt_finishTask shellSlot hfinish]
  by_cases hidx : idx = shellSlot
  · rw [if_pos hidx, hkeep hidx]
    rfl
  · rw [if_neg hidx]
    exact hready hidx

theorem Alive.step
    (h : Alive s) :
    Alive (s.step profile report growth a) := by
  cases a with
  | key event =>
      cases event with
      | none => exact h.woken s.input s.ticks
      | some event => exact h.woken _ s.ticks
  | timer => exact h.woken s.input _
  | main =>
      show Alive (s.advance profile report)
      rw [System.advance]
      rcases hphase : s.phase with _ | ⟨idx, func, ctx⟩ | ⟨idx, ctx, line⟩ | ⟨idx, ctx⟩ | _ | _ | _
      · exact h.prepare hphase
      · exact h.runBody hphase
      · exact h.runCommand hphase
      · exact h.commit hphase
      all_goals exact h

theorem alive_of_step
    (profile : Profile) (report : UInt64 → Str → Str → ShellState → List Str) (growth : Growth)
    (s : System) (a : Action) (t : System)
    (h : Alive s)
    (hstep : System.Step profile report growth s a t) :
    Alive t :=
  hstep ▸ h.step

theorem Alive.run
    {tr : List (System × Action)}
    (hs : Alive s)
    (h : Run (System.Step profile report growth) s tr t) :
    Alive t :=
  Run.invariant (alive_of_step profile report growth) h hs

/-- The shell is alive in every state that the loop reaches. -/
theorem alive_run
    {tr : List (System × Action)}
    (h : Run (System.Step profile report growth) System.boot tr s) :
    Alive s :=
  alive_boot.run h

/-- The statics of the loop after any actions are reached by a run. -/
theorem alive_after
    (profile : Profile) (report : UInt64 → Str → Str → ShellState → List Str) (growth : Growth)
    (actions : List Action) :
    Alive (System.after profile report growth actions) := by
  obtain ⟨tr, hrun, -⟩ :=
    Run.exists_foldl (System.step profile report growth) System.boot actions
  exact alive_run hrun

/--
Whatever keys, ticks and steps come in which order: slot 3 holds the shell and
no other slot does; before each scan and during each sleep it is Ready, even
when the shell has just killed its own pid; each scan finds a slot to dispatch,
and no operation on the task table panics.
-/
theorem shell_survives
    (profile : Profile) (report : UInt64 → Str → Str → ShellState → List Str) (growth : Growth)
    (actions : List Action) (s : System)
    (h : s = System.after profile report growth actions) :
    (∃ task, s.shell.sched.slot 3 = some task ∧ task.func = .shellTask) ∧
    (∀ idx task, s.shell.sched.slot idx = some task → task.func = .shellTask → idx = 3) ∧
    (s.phase = .scan ∨ s.phase = .asleep → s.shell.sched.stateAt 3 = some .Ready) ∧
    (s.phase = .scan → ∃ dispatch sched,
      s.shell.sched.prepareNext s.ticks = .ok (some dispatch, sched)) ∧
    ∀ panic, s.phase ≠ .failed panic := by
  subst h
  have halive := alive_after profile report growth actions
  generalize System.after profile report growth actions = s at halive
  have hphase := halive.phase
  refine ⟨Option.map_eq_some_iff.1 halive.seated.shell, ?_, ?_, ?_, ?_⟩
  · intro idx task hslot hfunc
    refine halive.seated.only idx ?_
    rw [funcAt, hslot, Option.map_some, hfunc]
  · rintro (hscan | hasleep)
    · rw [hscan] at hphase
      exact hphase
    · rw [hasleep] at hphase
      exact hphase
  · intro hscan
    obtain ⟨_, _, _, sched, -, -, -, -, hprep, -⟩ := halive.prepare_eq hscan
    exact ⟨_, sched, hprep⟩
  · intro panic hfailed
    rw [hfailed] at hphase
    exact hphase

/-- The keys of a line. -/
def typing (line : String) : List Action :=
  line.toList.map (fun ch => .key (some (.Char ch))) ++ [.key (some .Enter)]

/-- Three turns of the other tasks, with a tick after each, and one turn of the shell. -/
def throughShell : List Action :=
  (List.replicate 3 [.main, .main, .main, .timer]).flatten ++ List.replicate 4 .main

/-- The shell kills its own pid and is Ready again when it sleeps. -/
theorem shell_survives_kill_itself :
    (System.after .dev (fun _ _ _ _ => []) .doubling
      (typing "kill 3" ++ throughShell)).phase = .asleep ∧
    (System.after .dev (fun _ _ _ _ => []) .doubling
      (typing "kill 3" ++ throughShell)).shell.sched.stateAt 3 = some .Ready := by
  have hasleep : (System.after .dev (fun _ _ _ _ => []) .doubling
      (typing "kill 3" ++ throughShell)).phase = .asleep := rfl
  have hall := shell_survives .dev (fun _ _ _ _ => []) .doubling
    (typing "kill 3" ++ throughShell) _ rfl
  exact ⟨hasleep, hall.2.2.1 (Or.inr hasleep)⟩

end Steps

section Stops

variable {profile : Profile} {report : UInt64 → Str → Str → ShellState → List Str}
variable {growth : Growth} {s t : System} {a : Action} {tr : List (System × Action)}

/-- The line that a step runs. -/
def running : System × Action → List Str
  | (s, .main) =>
      match s.phase with
      | .command _ _ line => [trim line]
      | _ => []
  | _ => []

/-- The lines that `handle_command` has run, in order. -/
def executed (tr : List (System × Action)) : List Str :=
  tr.flatMap running

def Stopped (s : System) : Prop :=
  ∃ idx ctx panic, s.phase = .stopped idx ctx panic

theorem stopped_woken_iff
    {shell : ShellState} {input : InputBuffer} {ticks : UInt64} :
    Stopped ⟨shell, input, ticks, s.phase.woken⟩ ↔ Stopped s := by
  simp only [Stopped]
  rcases s.phase with _ | _ | _ | _ | _ | ⟨idx, ctx, panic⟩ | _ <;> simp [Phase.woken]

/-- The line stops the kernel in this state. -/
def Stops (profile : Profile) (s : System) (line : Str) : Prop :=
  StopsKernel profile line ∨ PingStops profile s.shell.net line

/-- A step of the main context stops the kernel only by the line that it runs. -/
theorem stopped_runCommand_iff
    {idx : Nat} {ctx : TaskContext} {line : Str} :
    Stopped (s.runCommand profile report idx ctx line) ↔ Stops profile s (trim line) := by
  unfold Stops
  rw [← handleCommand_eq_error_iff profile (report s.ticks) s.shell, System.runCommand]
  rcases handleCommand profile (report s.ticks) s.shell (trim line) with panic | ⟨texts, shell⟩
  · exact iff_of_true ⟨idx, ctx, panic, rfl⟩ ⟨panic, rfl⟩
  · exact iff_of_false (by rintro ⟨_, _, _, ⟨⟩⟩) (by rintro ⟨_, ⟨⟩⟩)

theorem not_stopped_runBody
    {idx : Nat} {func : TaskFn} {ctx : TaskContext}
    (hphase : s.phase = .body idx func ctx) :
    ¬ Stopped (s.runBody idx func ctx) := by
  rintro ⟨_, _, panic, hstopped⟩
  cases func with
  | shellTask =>
      rw [System.runBody] at hstopped
      rcases hpop : s.input.popLine with ⟨_ | line, input⟩ <;> rw [hpop] at hstopped <;>
        cases hstopped
  | other addr =>
      rw [System.runBody, hphase] at hstopped
      cases hstopped
  | _ => cases hstopped

/-- A step stops the kernel iff it runs a stopping line. -/
theorem stopped_step_iff
    (h : Alive s) :
    Stopped (s.step profile report growth a) ↔
      Stopped s ∨ ∃ line ∈ running (s, a), Stops profile s line := by
  cases a with
  | key event =>
      simp only [running, List.not_mem_nil, false_and, exists_false, or_false]
      exact stopped_woken_iff
  | timer =>
      simp only [running, List.not_mem_nil, false_and, exists_false, or_false]
      exact stopped_woken_iff
  | main =>
      show Stopped (s.advance profile report) ↔ _
      rw [System.advance]
      have hmoving : (∀ idx ctx panic, s.phase ≠ .stopped idx ctx panic) → ¬ Stopped s :=
        fun hne ⟨idx, ctx, panic, heq⟩ => hne idx ctx panic heq
      rcases hphase : s.phase with _ | ⟨idx, func, ctx⟩ | ⟨idx, ctx, line⟩ | ⟨idx, ctx⟩ | _ |
        ⟨idx, ctx, panic⟩ | _
      · obtain ⟨_, _, _, _, -, -, -, -, -, heq⟩ := h.prepare_eq hphase
        simp only [running, hphase]
        rw [heq]
        simp [Stopped, System.withSched, hphase]
      · simp only [running, hphase]
        simpa [hmoving (by simp [hphase])] using not_stopped_runBody hphase
      · simp only [running, hphase]
        simp [stopped_runCommand_iff, hmoving (by simp [hphase])]
      · obtain ⟨_, -, heq⟩ := h.commit_eq hphase
        simp only [running, hphase]
        rw [heq]
        simp [Stopped, System.withSched, hphase]
      all_goals simp [running, hphase]

end Stops

end MainLoop
end OpenKernel
