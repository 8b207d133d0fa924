import OpenKernel.TaskLifetimes
import OpenKernel.EventAccounting
import OpenKernel.NumberText

/-!
# What `ps` tells

`snapshot_tasks` hands the occupied slots to its visitor in the order of their
pids, and the arm `"ps"` prints a row of four columns for each of them.

The rows are read back to the table (`readRow_rowText`), and the table tells the
history of the run: the `runs` of a slot are its dispatches since the last spawn
into it (`runs_run`), and while a command runs the shell is the one task that is
Running.  The main result is `ps_tells_history`.
-/

namespace OpenKernel

namespace Scheduling

theorem mem_snapshotTasks
    {sched : Scheduler} {info : TaskInfo} :
    info ∈ snapshotTasks sched ↔
      sched.slot info.id = some ⟨info.name, (sched.slot info.id).elim .idleTask Task.func,
        info.state, info.runs⟩ := by
  rw [snapshotTasks, List.mem_filterMap]
  constructor
  · rintro ⟨id, -, hinfo⟩
    obtain ⟨task, hslot, rfl⟩ := Option.map_eq_some_iff.1 hinfo
    rw [hslot]
    rfl
  · intro hslot
    refine ⟨info.id, List.mem_range.2 (Scheduler.lt_of_slot hslot), ?_⟩
    rw [hslot]
    rfl

/-- The pids of a snapshot ascend. -/
theorem pairwise_snapshotTasks
    (sched : Scheduler) :
    (snapshotTasks sched).Pairwise fun info info' => info.id < info'.id := by
  refine List.Pairwise.filterMap _ ?_ List.pairwise_lt_range
  intro id id' hlt info hinfo info' hinfo'
  obtain ⟨_, -, rfl⟩ := Option.map_eq_some_iff.1 hinfo
  obtain ⟨_, -, rfl⟩ := Option.map_eq_some_iff.1 hinfo'
  exact hlt

end Scheduling

namespace Shell

open Vfs Scheduling

section Rows

/-- The first column of a row, and what stands behind the blank after it. -/
def readColumn (row : Str) : Str × Str :=
  let row := row.dropWhile (· == ' ')
  (row.takeWhile (· != ' '), (row.dropWhile (· != ' ')).drop 1)

def readState (s : Str) : Option TaskState :=
  [TaskState.Ready, .Running, .Finished].find? fun state => stateText state == s

def readRow (row : Str) : Option TaskInfo :=
  let (id, row) := readColumn row
  let (state, row) := readColumn row
  let (runs, name) := readColumn row
  match digitsValue id, readState state, digitsValue runs with
  | some id, some state, some runs => some ⟨id, String.ofList name, state, UInt64.ofNat runs⟩
  | _, _, _ => none

/-- A column holds what was put in it. -/
theorem readColumn_padLeft
    {s : Str}
    (h : IsWord s)
    (width : Nat) (rest : Str) :
    readColumn (padLeft width s ++ ' ' :: rest) = (s, rest) := by
  have hsolid : ∀ ch ∈ s, (ch != ' ') = true := by
    intro ch hch
    simpa using fun heq : ch = ' ' => h.space_notMem (heq ▸ hch)
  have hfront : (padLeft width s ++ ' ' :: rest).dropWhile (· == ' ') = s ++ ' ' :: rest := by
    obtain ⟨ch, s, rfl⟩ := List.exists_cons_of_ne_nil h.1
    have hch : (ch == ' ') = false := by simpa using hsolid ch List.mem_cons_self
    rw [padLeft, List.append_assoc,
      List.dropWhile_append_of_pos (by simp +contextual [List.mem_replicate]), List.cons_append,
      List.dropWhile_cons_of_neg (by simp [hch])]
  unfold readColumn
  dsimp only
  rw [hfront, List.takeWhile_append_of_pos hsolid, List.dropWhile_append_of_pos hsolid]
  simp

theorem readColumn_word
    {s : Str}
    (h : IsWord s)
    (rest : Str) :
    readColumn (s ++ ' ' :: rest) = (s, rest) := by
  simpa [padLeft] using readColumn_padLeft h 0 rest

theorem isWord_stateText
    (state : TaskState) :
    IsWord (stateText state) := by
  have hne : (stateText state).isEmpty = false := by cases state <;> rfl
  have hsolid : (stateText state).all (fun ch => !isWhitespace ch) = true := by
    cases state <;> rfl
  refine ⟨by simpa using hne, fun ch hch => ?_⟩
  simpa using List.all_eq_true.1 hsolid ch hch

theorem readState_stateText
    (state : TaskState) :
    readState (stateText state) = some state := by
  cases state <;> rfl

/-- A printed row is read back. -/
theorem readRow_rowText
    (info : TaskInfo) :
    readRow (rowText info) = some info := by
  unfold readRow rowText
  rw [readColumn_padLeft (isWord_natText info.id)]
  dsimp only
  rw [readColumn_word (isWord_stateText info.state)]
  dsimp only
  rw [readColumn_padLeft (isWord_natText info.runs.toNat)]
  dsimp only
  rw [digitsValue_natText, readState_stateText, digitsValue_natText]
  simp

/-- The rows of `ps` are read back to the snapshot. -/
theorem mapM_readRow_ps
    (sched : Scheduler) :
    (ps sched).tail.mapM readRow = some (snapshotTasks sched) := by
  show ((snapshotTasks sched).map rowText).mapM readRow = _
  generalize snapshotTasks sched = infos
  induction infos with
  | nil => rfl
  | cons info infos ih =>
      rw [List.map_cons, List.mapM_cons, readRow_rowText, ih]
      rfl

end Rows

end Shell

namespace MainLoop

open Vfs Scheduling Shell Input

section History

variable {profile : Profile} {report : UInt64 → Str → Str → ShellState → List Str}
variable {growth : Growth} {s t : System} {a : Action} {tr : List (System × Action)}

/-- The step dispatches the task in the slot. -/
def dispatches (idx : Nat) : System × Action → Bool
  | (s, .main) =>
      match s.phase with
      | .scan => s.shell.sched.nextRunnableFrom s.shell.sched.current == some idx
      | _ => false
  | _ => false

/-- The step puts a new task into the slot. -/
def spawns (idx : Nat) : System × Action → Bool
  | (s, .main) =>
      match s.phase with
      | .command _ _ line =>
          (splitFirstSpace (trim line)).1 == "spawn".toList &&
            (spawnTask s.shell.sched "user-worker").1 == some idx
      | _ => false
  | _ => false

/-- The `runs` of the task in a slot, if there is a task. -/
def runsAt (sched : Scheduler) (idx : Nat) : Option UInt64 :=
  (sched.slot idx).map Task.runs

/-- A step adds its dispatch to the `runs` of a slot, or starts them anew. -/
def Counts (idx : Nat) (s : System) (a : Action) (t : System) : Prop :=
  runsAt t.shell.sched idx =
    if spawns idx (s, a) then
      some 0
    else
      (runsAt s.shell.sched idx).map (· + if dispatches idx (s, a) then 1 else 0)

theorem Counts.stutter
    {idx : Nat}
    (hruns : runsAt t.shell.sched idx = runsAt s.shell.sched idx)
    (hspawns : spawns idx (s, a) = false)
    (hdispatches : dispatches idx (s, a) = false) :
    Counts idx s a t := by
  rw [Counts, hspawns, hdispatches, hruns]
  simp

theorem counts_prepare
    (h : Alive s)
    (hphase : s.phase = .scan)
    (j : Nat) :
    Counts j s .main s.prepare := by
  obtain ⟨idx, task, ctx, sched, hnext, hslot, -, rfl, -, heq⟩ := h.prepare_eq hphase
  have hspawns : spawns j (s, .main) = false := by simp only [spawns, hphase]
  have hdispatches : dispatches j (s, .main) = (some idx == some j) := by
    simp only [dispatches, hphase, hnext]
  rw [Counts, hspawns, hdispatches, heq]
  show ((s.shell.sched.setSlot idx _).slot j).map Task.runs = _
  rw [map_slot_setSlot Task.runs _ j _ (Scheduler.lt_of_slot hslot)]
  by_cases hij : idx = j
  · subst hij
    simp [runsAt, hslot]
  · simp [runsAt, hij, Function.comp_def]

/-- Only `spawn` starts the `runs` of a slot anew, and no command adds to them. -/
theorem runsAt_handleCommand
    {report : Str → Str → ShellState → List Str} {shell shell' : ShellState} {line : Str}
    {texts : List Str}
    (h : handleCommand profile report shell line = .ok (texts, shell'))
    (idx : Nat) :
    runsAt shell'.sched idx =
      if (splitFirstSpace line).1 = "spawn".toList ∧
          (spawnTask shell.sched "user-worker").1 = some idx then
        some 0
      else
        runsAt shell.sched idx := by
  rcases sched_handleCommand h with
    ⟨hname, hsame⟩ | ⟨hname, spawned, hspawn⟩ | ⟨hname, pid, killed, -, hkill⟩
  · rw [if_neg fun hboth => hname hboth.1, hsame]
  · simp only [hname, true_and, hspawn]
    rcases spawned with _ | id
    · obtain ⟨hsame, -⟩ := Scheduler.spawnTask_eq_none_iff.1 hspawn
      rw [hsame]
      rfl
    · obtain ⟨hlt, -, hsched⟩ := Scheduler.spawnTask_eq_some hspawn
      rw [hsched, runsAt, map_slot_setSlot Task.runs shell.sched idx _ hlt]
      simp only [Option.some.injEq]
      rfl
  · have hne : (splitFirstSpace line).1 ≠ "spawn".toList := by
      rw [hname]
      decide
    rw [if_neg fun hboth => hne hboth.1]
    exact map_slot_killTask (fun _ _ => rfl) hkill idx

theorem counts_runCommand
    {idx : Nat} {ctx : TaskContext} {line : Str}
    (hphase : s.phase = .command idx ctx line)
    (j : Nat) :
    Counts j s .main (s.runCommand profile report idx ctx line) := by
  have hdispatches : dispatches j (s, .main) = false := by simp only [dispatches, hphase]
  have hspawns : spawns j (s, .main) = ((splitFirstSpace (trim line)).1 == "spawn".toList &&
      (spawnTask s.shell.sched "user-worker").1 == some j) := by
    simp only [spawns, hphase]
  rw [System.runCommand]
  rcases hreply : handleCommand profile (report s.ticks) s.shell (trim line) with
    panic | ⟨texts, shell⟩
  · refine .stutter rfl ?_ hdispatches
    -- a spawn does not panic
    rw [hspawns, Bool.and_eq_false_imp]
    intro hname
    rcases hsplit : splitFirstSpace (trim line) with ⟨cmd_name, args⟩
    rw [hsplit] at hname
    obtain rfl : cmd_name = "spawn".toList := by simpa using hname
    rw [handleCommand_spawnArm hsplit] at hreply
    cases hreply
  · rw [Counts, hdispatches, hspawns]
    refine (runsAt_handleCommand hreply j).trans ?_
    simp

theorem counts_runBody
    {idx : Nat} {func : TaskFn} {ctx : TaskContext}
    (hphase : s.phase = .body idx func ctx)
    (j : Nat) :
    Counts j s .main (s.runBody idx func ctx) := by
  refine .stutter ?_ (by simp only [spawns, hphase]) (by simp only [dispatches, hphase])
  cases func with
  | shellTask =>
      rw [System.runBody]
      rcases s.input.popLine with ⟨_ | line, input⟩ <;> rfl
  | _ => rfl

theorem counts_commit
    (h : Alive s)
    {idx : Nat} {ctx : TaskContext}
    (hphase : s.phase = .returned idx ctx)
    (j : Nat) :
    Counts j s .main (s.commit idx ctx) := by
  obtain ⟨sched, hfinish, heq⟩ := h.commit_eq hphase
  refine .stutter ?_ (by simp only [spawns, hphase]) (by simp only [dispatches, hphase])
  rw [heq]
  exact map_slot_finishTask (f := Task.runs) (fun _ _ => rfl) hfinish j

theorem counts_step
    (profile : Profile) (report : UInt64 → Str → Str → ShellState → List Str) (growth : Growth)
    (a : Action) (h : Alive s) (idx : Nat) :
    Counts idx s a (s.step profile report growth a) := by
  cases a with
  | key event => cases event <;> exact .stutter rfl rfl rfl
  | timer => exact .stutter rfl rfl rfl
  | main =>
      show Counts idx s .main (s.advance profile report)
      rw [System.advance]
      rcases hphase : s.phase with _ | ⟨i, func, ctx⟩ | ⟨i, ctx, line⟩ | ⟨i, ctx⟩ | _ | _ | _
      · exact counts_prepare h hphase idx
      · exact counts_runBody hphase idx
      · exact counts_runCommand hphase idx
      · exact counts_commit h hphase idx
      all_goals
        exact .stutter rfl (by simp only [spawns, hphase]) (by simp only [dispatches, hphase])

/-- The `runs` of a slot are its dispatches since the last spawn into it. -/
theorem runs_run
    (h : Run (System.Step profile report growth) System.boot tr s)
    {idx : Nat} {runs : UInt64}
    (hruns : runsAt s.shell.sched idx = some runs) :
    runs.toNat = countSince (spawns idx) (dispatches idx) tr % 2 ^ 64 := by
  induction h generalizing runs with
  | nil =>
      obtain ⟨task, hslot, rfl⟩ := Option.map_eq_some_iff.1 hruns
      have hlt : idx < 8 := Scheduler.lt_of_slot hslot
      interval_cases idx <;> cases hslot <;> rfl
  | @snoc s t a tr before last ih =>
      obtain rfl := last
      have hcounts := counts_step profile report growth a (alive_run before) idx
      rw [Counts, hruns] at hcounts
      rw [countSince_concat]
      split at hcounts
      · rename_i hspawns
        rw [if_pos hspawns, Option.some.inj hcounts]
        rfl
      · rename_i hspawns
        obtain ⟨runs', hruns', rfl⟩ := Option.map_eq_some_iff.1 hcounts.symm
        rw [if_neg hspawns, UInt64.toNat_add, ih hruns']
        cases dispatches idx (s, a) <;> simp [Nat.add_mod]

end History

section Table

variable {profile : Profile} {report : UInt64 → Str → Str → ShellState → List Str}
variable {growth : Growth} {s : System} {tr : List (System × Action)}

/-- The two names run the arm that prints the table. -/
theorem handleCommand_ps
    {report : Str → Str → ShellState → List Str} {shell : ShellState} {line : Str}
    (hname : (splitFirstSpace line).1 = "ps".toList ∨ (splitFirstSpace line).1 = "tasks".toList) :
    handleCommand profile report shell line = .ok (ps shell.sched, shell) := by
  rcases hsplit : splitFirstSpace line with ⟨cmd_name, args⟩
  rw [hsplit] at hname
  have hreport : cmd_name ∉ reportNames := by
    rcases hname with rfl | rfl <;> decide
  rw [handleCommand, hsplit]
  simp only [if_neg hreport]
  rcases hname with rfl | rfl <;> rfl

/-- While a command runs, the shell is the one task that is Running. -/
theorem stateAt_running_iff
    (h : Run (System.Step profile report growth) System.boot tr s)
    {idx : Nat} {ctx : TaskContext} {line : Str}
    (hphase : s.phase = .command idx ctx line)
    (id : Nat) :
    s.shell.sched.stateAt id = some .Running ↔ id = 3 := by
  have hholds := (alive_run h).phase
  rw [hphase] at hholds
  obtain ⟨rfl, hshell, -⟩ := hholds
  constructor
  · intro hrunning
    obtain ⟨ctx', hkernel⟩ := (slotInvariant_run h).running_dispatched id hrunning
    rw [System.kernel, hphase] at hkernel
    exact (congrArg Prod.fst (Option.some.inj hkernel)).symm
  · rintro rfl
    exact hshell

/--
Whatever has happened since the boot, the rows that `ps` prints are read back to
the tasks of the table, in the order of their pids.  The shell's own row is the
one that says Running, and the `runs` of each row are the dispatches of its slot
since the last spawn into it.
-/
theorem ps_tells_history
    (profile : Profile) (report : UInt64 → Str → Str → ShellState → List Str) (growth : Growth)
    (tr : List (System × Action)) (s : System)
    (h : Run (System.Step profile report growth) System.boot tr s)
    (idx : Nat) (ctx : TaskContext) (line : Str)
    (hphase : s.phase = .command idx ctx line)
    (hname : (splitFirstSpace (trim line)).1 = "ps".toList ∨
      (splitFirstSpace (trim line)).1 = "tasks".toList) :
    ∃ header rows infos,
      handleCommand profile (report s.ticks) s.shell (trim line) =
        .ok (header :: rows, s.shell) ∧
      rows.mapM readRow = some infos ∧
      infos.Pairwise (fun info info' => info.id < info'.id) ∧
      (∀ id task, s.shell.sched.slot id = some task →
        ⟨id, task.name, task.state, task.runs⟩ ∈ infos) ∧
      ∀ info ∈ infos,
        (∃ func, s.shell.sched.slot info.id = some ⟨info.name, func, info.state, info.runs⟩) ∧
        (info.state = .Running ↔ info.id = 3) ∧
        info.runs.toNat = countSince (spawns info.id) (dispatches info.id) tr % 2 ^ 64 := by
  refine ⟨_, _, _, handleCommand_ps hname, mapM_readRow_ps s.shell.sched,
    pairwise_snapshotTasks s.shell.sched, ?_, ?_⟩
  · intro id task hslot
    refine mem_snapshotTasks.2 ?_
    rw [hslot]
    rfl
  · intro info hinfo
    have hslot := mem_snapshotTasks.1 hinfo
    have hruns : runsAt s.shell.sched info.id = some info.runs := by
      rw [runsAt, hslot]
      rfl
    have hstate : s.shell.sched.stateAt info.id = some info.state := by
      rw [Scheduler.stateAt, hslot]
      rfl
    refine ⟨⟨_, hslot⟩, ?_, runs_run h hruns⟩
    rw [← stateAt_running_iff h hphase info.id, hstate, Option.some.injEq]

/-- The `ps` of the first turn of the shell. -/
theorem ps_tells_history_first_turn :
    ∃ header rows infos,
      handleCommand .dev (fun _ _ _ => [])
        (System.after .dev (fun _ _ _ _ => []) .doubling
          (typing "ps" ++ throughShell.take 14)).shell "ps".toList =
        .ok (header :: rows, (System.after .dev (fun _ _ _ _ => []) .doubling
          (typing "ps" ++ throughShell.take 14)).shell) ∧
      rows.mapM readRow = some infos ∧
      ∃ info ∈ infos, info.name = "shell" ∧ info.state = .Running := by
  have hrun := Run.run_trail (System.step .dev (fun _ _ _ _ => []) .doubling) System.boot
    (typing "ps" ++ throughShell.take 14)
  obtain ⟨header, rows, infos, hreply, hread, -, hall, -⟩ :=
    ps_tells_history .dev (fun _ _ _ _ => []) .doubling _ _ hrun 3 ⟨3, 3, false, false⟩
      "ps".toList rfl (Or.inl rfl)
  exact ⟨header, rows, infos, hreply, hread, _, hall 3 ⟨"shell", .shellTask, .Running, 1⟩ rfl, rfl,
    rfl⟩

end Table

end MainLoop

end OpenKernel
