import OpenKernel.LoopRefinement

/-!
# How long a task lives

The idle task, the workers and the shell never finish by themselves: the context
that their functions leave behind is never a finished one (`Honest`).  So such a
task stays in its slot until a `kill` line names its pid, and while it stays
there it is dispatched at least once in eight scans
(`task_lives_until_killed`).
-/

namespace OpenKernel
namespace MainLoop

open Vfs Scheduling Shell Input

/-- The line is a `kill` of this pid. -/
def Kills (pid : Nat) (line : Str) : Prop :=
  (splitFirstSpace line).1 = "kill".toList ∧ parseUsize (splitFirstSpace line).2 = some pid

/-- A context is finished only when the logger has left it behind. -/
def Honest (s : System) : Prop :=
  ∀ idx ctx, s.phase = .returned idx ctx → ctx.finished = true →
    funcAt s.shell.sched idx = some .loggerTask

/-- A task of this name and function is in the slot and has not finished. -/
def Occupies (sched : Scheduler) (pid : Nat) (name : String) (func : TaskFn) : Prop :=
  ∃ task, sched.slot pid = some task ∧ task.name = name ∧ task.func = func ∧
    task.state ≠ .Finished

section Steps

variable {profile : Profile} {report : UInt64 → Str → Str → ShellState → List Str}
variable {growth : Growth} {s t : System} {a : Action} {tr : List (System × Action)}
variable {pid : Nat} {name : String} {func : TaskFn}

/-- How a step comes to the return of a task function. -/
inductive Returns (idx : Nat) (ctx' : TaskContext) (s t : System) : Prop
  | waits
      (hphase : s.phase = .returned idx ctx')
      (hsched : t.shell.sched = s.shell.sched) :
      Returns idx ctx' s t
  | body {func : TaskFn} {ctx : TaskContext}
      (hphase : s.phase = .body idx func ctx)
      (hsched : t.shell.sched = s.shell.sched)
      (hfinished : ctx'.finished = true → func = .loggerTask ∧ 128 < ctx.tick) :
      Returns idx ctx' s t
  | command {ctx : TaskContext} {line : Str}
      (hphase : s.phase = .command idx ctx line)
      (hgoes : ctx'.finished = false) :
      Returns idx ctx' s t

theorem Phase.of_woken
    {phase : Phase} {idx : Nat} {ctx : TaskContext}
    (h : phase.woken = .returned idx ctx) :
    phase = .returned idx ctx := by
  rcases phase with _ | _ | _ | _ | _ | _ | _ <;> first | exact h | cases h

/-- Only the logger's function leaves a finished context, and only after tick 128. -/
theorem returns_runBody
    (h : Alive s)
    {idx idx' : Nat} {func : TaskFn} {ctx ctx' : TaskContext}
    (hphase : s.phase = .body idx func ctx)
    (hphase' : (s.runBody idx func ctx).phase = .returned idx' ctx') :
    Returns idx' ctx' s (s.runBody idx func ctx) := by
  have hholds := h.phase
  rw [hphase] at hholds
  obtain ⟨hat, -, hctx, -⟩ := hholds
  have hyields : ctx.yieldNow.finished = true → func = .loggerTask ∧ 128 < ctx.tick := by
    intro hfinished
    exact absurd (hctx.symm.trans hfinished) Bool.false_ne_true
  cases func with
  | idleTask =>
      cases hphase'
      exact .body hphase rfl hyields
  | workerTask =>
      cases hphase'
      exact .body hphase rfl hyields
  | loggerTask =>
      cases hphase'
      refine .body hphase rfl fun hfinished => ⟨rfl, ?_⟩
      by_contra hearly
      rw [loggerTask, if_neg hearly] at hfinished
      exact hearly (hyields hfinished).2
  | shellTask =>
      rw [System.runBody] at hphase' ⊢
      rcases hpop : s.input.popLine with ⟨_ | line, input⟩
      · rw [hpop] at hphase'
        cases hphase'
        exact .body hphase rfl hyields
      · rw [hpop] at hphase'
        cases hphase'
  | other addr => exact absurd hat (h.seated.known idx addr)

theorem returns_step
    (profile : Profile) (report : UInt64 → Str → Str → ShellState → List Str) (growth : Growth)
    (a : Action) (h : Alive s)
    {idx : Nat} {ctx : TaskContext}
    (hphase' : (s.step profile report growth a).phase = .returned idx ctx) :
    Returns idx ctx s (s.step profile report growth a) := by
  cases a with
  | key event => cases event <;> exact .waits (Phase.of_woken hphase') rfl
  | timer => exact .waits (Phase.of_woken hphase') rfl
  | main =>
      have hstep : s.step profile report growth .main = s.advance profile report := rfl
      rw [hstep, System.advance] at hphase' ⊢
      rcases hphase : s.phase with _ | ⟨i, func, ctx₀⟩ | ⟨i, ctx₀, line⟩ | ⟨i, ctx₀⟩ | _ | _ | _ <;>
        simp only [hphase] at hphase' ⊢
      · obtain ⟨_, _, _, _, -, -, -, -, -, heq⟩ := h.prepare_eq hphase
        rw [heq] at hphase'
        cases hphase'
      · exact returns_runBody h hphase hphase'
      · have hholds := h.phase
        rw [hphase] at hholds
        rw [System.runCommand] at hphase' ⊢
        rcases hreply : handleCommand profile (report s.ticks) s.shell (trim line) with
          panic | ⟨texts, shell⟩
        · rw [hreply] at hphase'
          cases hphase'
        · rw [hreply] at hphase'
          cases hphase'
          exact .command hphase hholds.2.2
      · obtain ⟨_, -, heq⟩ := h.commit_eq hphase
        rw [heq] at hphase'
        cases hphase'
      all_goals cases hphase'

theorem honest_boot :
    Honest System.boot := by
  intro idx ctx h
  cases h

theorem Honest.step
    (h : Honest s)
    (halive : Alive s) :
    Honest (s.step profile report growth a) := by
  intro idx ctx hphase' hfinished
  cases returns_step profile report growth a halive hphase' with
  | waits hphase hsched =>
      rw [hsched]
      exact h idx ctx hphase hfinished
  | body hphase hsched hlogger =>
      have hholds := halive.phase
      rw [hphase] at hholds
      rw [hsched, ← (hlogger hfinished).1]
      exact hholds.1
  | command hphase hgoes => exact absurd (hgoes.symm.trans hfinished) Bool.false_ne_true

/-- No run leaves a finished context for a task that does not finish. -/
theorem honest_run
    (h : Run (System.Step profile report growth) System.boot tr s) :
    Honest s := by
  induction h with
  | nil => exact honest_boot
  | snoc before last ih =>
      obtain rfl := last
      exact ih.step (alive_run before)

/-- A command spares the task, unless it is a `kill` of its pid. -/
theorem Occupies.handleCommand
    {report : Str → Str → ShellState → List Str} {shell shell' : ShellState} {line : Str}
    {texts : List Str}
    (h : Occupies shell.sched pid name func)
    (hspared : ¬ Kills pid line)
    (hok : handleCommand profile report shell line = .ok (texts, shell')) :
    Occupies shell'.sched pid name func := by
  obtain ⟨task, hslot, hname, hfunc, hstate⟩ := h
  refine ⟨task, ?_, hname, hfunc, hstate⟩
  rcases sched_handleCommand hok with
    ⟨-, hsame⟩ | ⟨-, spawned, hspawn⟩ | ⟨hkill, id, killed, hparse, hkilled⟩
  · rw [hsame]
    exact hslot
  · rcases spawned with _ | id
    · obtain ⟨hsame, -⟩ := Scheduler.spawnTask_eq_none_iff.1 hspawn
      rw [hsame]
      exact hslot
    · obtain ⟨-, hfree, hsched⟩ := Scheduler.spawnTask_eq_some hspawn
      have hne : id ≠ pid := by
        rintro rfl
        exact Scheduler.not_free_of_slot hslot hstate hfree
      rw [hsched]
      exact (Scheduler.slot_setSlot_ne _ _ hne).trans hslot
  · have hne : id ≠ pid := by
      rintro rfl
      exact hspared ⟨hkill, hparse⟩
    cases killed with
    | false =>
        obtain ⟨-, hsame⟩ := Scheduler.killTask_eq_false_iff.1 hkilled
        rw [hsame]
        exact hslot
    | true =>
        obtain ⟨_, -, hsched⟩ := Scheduler.killTask_eq_true_iff.1 hkilled
        rw [hsched]
        exact (Scheduler.slot_setSlot_ne _ _ hne).trans hslot

/-- The scan marks a task Running and counts the run. -/
theorem Occupies.prepare
    (h : Occupies s.shell.sched pid name func)
    (halive : Alive s)
    (hphase : s.phase = .scan) :
    Occupies s.prepare.shell.sched pid name func := by
  obtain ⟨idx, task', ctx, sched, -, hslot', -, rfl, -, heq⟩ := halive.prepare_eq hphase
  obtain ⟨task, hslot, hname, hfunc, hstate⟩ := h
  rw [heq]
  by_cases hidx : idx = pid
  · subst hidx
    obtain rfl : task' = task := Option.some.inj (hslot'.symm.trans hslot)
    exact ⟨_, Scheduler.slot_setSlot_self _ _ (Scheduler.lt_of_slot hslot), hname, hfunc,
      TaskState.noConfusion⟩
  · exact ⟨task, (Scheduler.slot_setSlot_ne _ _ hidx).trans hslot, hname, hfunc, hstate⟩

/-- The commit makes a task Ready again whose context is not finished. -/
theorem Occupies.commit
    (h : Occupies s.shell.sched pid name func)
    (halive : Alive s)
    {idx : Nat} {ctx : TaskContext}
    (hphase : s.phase = .returned idx ctx)
    (hgoes : idx = pid → ctx.finished = false) :
    Occupies (s.commit idx ctx).shell.sched pid name func := by
  obtain ⟨sched, hfinish, heq⟩ := halive.commit_eq hphase
  obtain ⟨task, hslot, hname, hfunc, hstate⟩ := h
  have hafter := @Scheduler.finishTask_slot _ _ _ pid _ hfinish
  rw [heq]
  by_cases hidx : idx = pid
  · rw [if_pos hidx, hslot, hgoes hidx] at hafter
    exact ⟨_, hafter, hname, hfunc, TaskState.noConfusion⟩
  · rw [if_neg hidx] at hafter
    exact ⟨task, hafter.trans hslot, hname, hfunc, hstate⟩

theorem Occupies.step
    (h : Occupies s.shell.sched pid name func)
    (halive : Alive s)
    (hgoes : ∀ ctx, s.phase = .returned pid ctx → ctx.finished = false)
    (hspared : ∀ line ∈ running (s, a), ¬ Kills pid line) :
    Occupies (s.step profile report growth a).shell.sched pid name func := by
  cases a with
  | key event =>
      cases event with
      | none => exact h
      | some event => exact h
  | timer => exact h
  | main =>
      show Occupies (s.advance profile report).shell.sched pid name func
      rw [System.advance]
      rcases hphase : s.phase with _ | ⟨idx, body, ctx⟩ | ⟨idx, ctx, line⟩ | ⟨idx, ctx⟩ | _ | _ | _
      · exact h.prepare halive hphase
      · cases body with
        | shellTask =>
            dsimp only [System.runBody]
            split <;> exact h
        | _ => exact h
      · have hline : ¬ Kills pid (trim line) := hspared _ (by simp [running, hphase])
        dsimp only [System.runCommand]
        split
        · rename_i texts shell hok
          exact h.handleCommand hline hok
        · exact h
      · refine h.commit halive hphase ?_
        rintro rfl
        exact hgoes ctx hphase
      all_goals exact h

/-- A task other than the logger does not finish. -/
theorem Occupies.goes
    (h : Occupies s.shell.sched pid name func)
    (hlogger : func ≠ .loggerTask)
    (hhonest : Honest s)
    {ctx : TaskContext}
    (hphase : s.phase = .returned pid ctx) :
    ctx.finished = false := by
  obtain ⟨task, hslot, -, hfunc, -⟩ := h
  by_contra hfinished
  have hat := hhonest pid ctx hphase (by simpa using hfinished)
  rw [funcAt, hslot] at hat
  exact hlogger (hfunc.symm.trans (Option.some.inj hat))

/-- What every step that spares the task keeps. -/
structure Living (pid : Nat) (name : String) (func : TaskFn) (s : System) : Prop where
  alive : Alive s
  honest : Honest s
  occupies : Occupies s.shell.sched pid name func

theorem Living.run
    (h : Living pid name func s)
    (hlogger : func ≠ .loggerTask)
    (hrun : Run (System.Step profile report growth) s tr t)
    (hspared : ∀ line ∈ executed tr, ¬ Kills pid line) :
    Living pid name func t := by
  have hkeep : ∀ s a t, Living pid name func s → (∀ line ∈ running (s, a), ¬ Kills pid line) →
      System.Step profile report growth s a t → Living pid name func t := by
    rintro s a t hs hline rfl
    exact ⟨hs.alive.step, hs.honest.step hs.alive,
      hs.occupies.step hs.alive (fun _ => hs.occupies.goes hlogger hs.honest) hline⟩
  exact Run.invariant_of_guard hkeep hrun h fun x hx line hline =>
    hspared line (List.mem_flatMap.2 ⟨x, hx, hline⟩)

end Steps

section Dispatches

variable {profile : Profile} {report : UInt64 → Str → Str → ShellState → List Str}
variable {growth : Growth} {s t : System} {tr : List (System × Action)}
variable {pid : Nat} {name : String} {func : TaskFn}

/-- A task that has not finished is Ready when no body runs. -/
theorem Occupies.ready
    (h : Occupies s.shell.sched pid name func)
    (hslots : SlotInvariant s.kernel)
    (hphase : s.phase = .scan) :
    s.shell.sched.stateAt pid = some .Ready := by
  obtain ⟨task, hslot, -, -, hstate⟩ := h
  have hat : s.shell.sched.stateAt pid = some task.state := by
    rw [Scheduler.stateAt, hslot]
    rfl
  cases hcase : task.state with
  | Ready => rw [hat, hcase]
  | Running =>
      obtain ⟨ctx, hrunning⟩ := hslots.running_dispatched pid (by rw [← hcase]; exact hat)
      rw [System.kernel, hphase] at hrunning
      cases hrunning
  | Finished => exact absurd hcase hstate

/-- Eight scans in a row that find the slot Ready do not all pass over it. -/
theorem exists_dispatch
    (hs : Alive s) (hslots : SlotInvariant s.kernel)
    (hrun : Run (System.Step profile report growth) s tr t)
    (hready : ∀ y ∈ tr.flatMap scanned, y.1.sched.stateAt pid = some .Ready)
    (hscans : MAX_TASKS ≤ scans tr) :
    ∃ y ∈ tr.flatMap scanned, y.2 = .prepareNext (some pid) := by
  by_contra hnone
  obtain ⟨ktr, hkrun, hyield, hprepares⟩ := simulated_run hrun hs
  have hpassed := passedSoFar_run hslots hkrun hyield (fun y hy => by
    rw [hprepares] at hy
    exact ⟨hready y hy, fun heq => hnone ⟨y, hy, heq⟩⟩)
  rw [hprepares] at hpassed
  rcases hpassed with hzero | hpassed
  · rw [scans, hzero] at hscans
    exact absurd hscans (by decide)
  · exact absurd hpassed.count_lt (Nat.not_lt_of_le hscans)

/--
In every run from a state that the loop reaches: a task other than the logger
that has not finished stays in its slot as long as no line kills its pid, and
any eight scans of that time dispatch it.
-/
theorem task_lives_until_killed
    (profile : Profile) (report : UInt64 → Str → Str → ShellState → List Str) (growth : Growth)
    (before after : List (System × Action)) (s t : System)
    (hbefore : Run (System.Step profile report growth) System.boot before s)
    (hafter : Run (System.Step profile report growth) s after t)
    (pid : Nat) (task : Task)
    (hslot : s.shell.sched.slot pid = some task)
    (hstate : task.state ≠ .Finished)
    (hlogger : task.func ≠ .loggerTask)
    (hspared : ∀ line ∈ executed after, ¬ Kills pid line) :
    (∃ task', t.shell.sched.slot pid = some task' ∧ task'.name = task.name ∧
      task'.func = task.func ∧ task'.state ≠ .Finished) ∧
    (8 ≤ scans after → ∃ y ∈ after.flatMap scanned, y.2 = .prepareNext (some pid)) := by
  have hliving : Living pid task.name task.func s :=
    ⟨alive_run hbefore, honest_run hbefore, task, hslot, rfl, rfl, hstate⟩
  refine ⟨(hliving.run hlogger hafter hspared).occupies, fun hscans =>
    exists_dispatch hliving.alive (slotInvariant_run hbefore) hafter ?_ hscans⟩
  intro y hy
  obtain ⟨⟨u, a⟩, hx, hmem⟩ := List.mem_flatMap.1 hy
  rcases scanned_cases u a with hnone | ⟨-, hphase, hone⟩
  · rw [hnone] at hmem
    cases hmem
  · -- the run up to this scan spares the task as well
    obtain ⟨tr₁, tr₂, _, rfl, hfirst, _, _⟩ := Run.exists_before hafter hx
    have hspared' : ∀ line ∈ executed tr₁, ¬ Kills pid line := by
      intro line hline
      refine hspared line ?_
      rw [executed, List.flatMap_append]
      exact List.mem_append_left _ hline
    rw [hone] at hmem
    obtain rfl := List.mem_singleton.1 hmem
    exact (hliving.run hlogger hfirst hspared').occupies.ready
      (slotInvariant_run (hbefore.append hfirst)) hphase

/-- A worker is dispatched in the first nine turns after the boot. -/
theorem task_lives_until_killed_worker :
    ∃ y ∈ (Run.trail (System.step .dev (fun _ _ _ _ => []) .doubling) System.boot
      (List.replicate 9 [.main, .main, .main, .timer]).flatten).flatMap scanned,
      y.2 = .prepareNext (some 1) := by
  have hafter := Run.run_trail (System.step .dev (fun _ _ _ _ => []) .doubling) System.boot
    (List.replicate 9 [.main, .main, .main, .timer]).flatten
  have hquiet : executed (Run.trail (System.step .dev (fun _ _ _ _ => []) .doubling) System.boot
      (List.replicate 9 [.main, .main, .main, .timer]).flatten) = [] := rfl
  have hnine : scans (Run.trail (System.step .dev (fun _ _ _ _ => []) .doubling) System.boot
      (List.replicate 9 [.main, .main, .main, .timer]).flatten) = 9 := rfl
  refine (task_lives_until_killed .dev (fun _ _ _ _ => []) .doubling [] _ _ _ (Run.nil _) hafter 1
    (Task.new "worker-a" .workerTask) rfl TaskState.noConfusion TaskFn.noConfusion ?_).2 ?_
  · rw [hquiet]
    exact fun _ h => nomatch h
  · rw [hnine]
    omega

end Dispatches

end MainLoop
end OpenKernel
