import OpenKernel.TaskLifetimes

/-!
# How long the logger lives

`logger_task` yields up to tick 128 and finishes at its first dispatch after it.

`logger_step` says once what a step does to the slot of the logger.  From it
follow both halves of `logger_lifetime`: while the ticks are at most 128 the
logger does not finish by itself, and once they are past 128 it is dispatched at
most once more and is Finished within nine scans.
-/

namespace OpenKernel
namespace MainLoop

open Vfs Scheduling Shell Input

/-- The slot that `init` fills with the logger. -/
def loggerSlot : Nat := 2

/-- The step dispatches the logger. -/
def logs : System × Action → Bool
  | (s, .main) =>
      match s.phase with
      | .scan =>
          (s.shell.sched.nextRunnableFrom s.shell.sched.current).bind (funcAt s.shell.sched) ==
            some .loggerTask
      | _ => false
  | _ => false

/-- There is one logger, and it is Running until its commit. -/
structure Logging (s : System) : Prop where
  alone : ∀ idx, funcAt s.shell.sched idx = some .loggerTask → idx = loggerSlot
  running : ∀ idx ctx, s.phase = .returned idx ctx →
    funcAt s.shell.sched idx = some .loggerTask → s.shell.sched.stateAt idx = some .Running

/-- No logger is left but finished ones. -/
def Retired (s : System) : Prop :=
  ∀ idx, funcAt s.shell.sched idx = some .loggerTask →
    s.shell.sched.stateAt idx = some .Finished

/-- The logger is in the turn that finishes it. -/
def Finishing (s : System) : Prop :=
  (∃ idx ctx, s.phase = .body idx .loggerTask ctx ∧ 128 < ctx.tick) ∨
  (∃ idx ctx, s.phase = .returned idx ctx ∧ ctx.finished = true)

/-- What a step does to a slot that holds the logger afterwards. -/
inductive LoggerStep (idx : Nat) (s t : System) : Prop
  | kept
      (hstate : t.shell.sched.stateAt idx = s.shell.sched.stateAt idx)
  | finished
      (hstate : t.shell.sched.stateAt idx = some .Finished)
  | dispatched
      (hready : s.shell.sched.stateAt idx = some .Ready)
  | goesOn {ctx : TaskContext}
      (hphase : s.phase = .returned idx ctx)

section Steps

variable {profile : Profile} {report : UInt64 → Str → Str → ShellState → List Str}
variable {growth : Growth} {s t : System} {a : Action} {tr : List (System × Action)}

/-- No command makes a logger, and all that it does to one is to kill it. -/
theorem logger_handleCommand
    {report : Str → Str → ShellState → List Str} {shell shell' : ShellState} {line : Str}
    {texts : List Str}
    (h : handleCommand profile report shell line = .ok (texts, shell'))
    {idx : Nat}
    (hlogger : funcAt shell'.sched idx = some .loggerTask) :
    funcAt shell.sched idx = some .loggerTask ∧
      (shell'.sched.stateAt idx = shell.sched.stateAt idx ∨
        shell'.sched.stateAt idx = some .Finished) := by
  rcases sched_handleCommand h with
    ⟨-, hsame⟩ | ⟨-, spawned, hspawn⟩ | ⟨-, pid, killed, -, hkill⟩
  · rw [hsame] at hlogger ⊢
    exact ⟨hlogger, Or.inl rfl⟩
  · rcases spawned with _ | id
    · obtain ⟨hsame, -⟩ := Scheduler.spawnTask_eq_none_iff.1 hspawn
      rw [hsame] at hlogger ⊢
      exact ⟨hlogger, Or.inl rfl⟩
    · obtain ⟨hlt, -, hsched⟩ := Scheduler.spawnTask_eq_some hspawn
      rw [hsched] at hlogger ⊢
      have hfunc := map_slot_setSlot Task.func shell.sched idx
        (Task.new "user-worker" .workerTask) hlt
      have hne : id ≠ idx := by
        rintro rfl
        rw [if_pos rfl] at hfunc
        exact TaskFn.noConfusion (Option.some.inj (hfunc.symm.trans hlogger))
      rw [if_neg hne] at hfunc
      exact ⟨hfunc.symm.trans hlogger, Or.inl ((stateAt_setSlot _ idx _ hlt).trans (if_neg hne))⟩
  · refine ⟨(funcAt_killTask hkill idx).symm.trans hlogger, ?_⟩
    cases killed with
    | false =>
        obtain ⟨-, hsame⟩ := Scheduler.killTask_eq_false_iff.1 hkill
        rw [hsame]
        exact Or.inl rfl
    | true =>
        obtain ⟨task, hslot, hsched⟩ := Scheduler.killTask_eq_true_iff.1 hkill
        rw [hsched, stateAt_setSlot _ idx _ (Scheduler.lt_of_slot hslot)]
        split
        · exact Or.inr rfl
        · exact Or.inl rfl

/-- A step makes no logger, and does to its slot what is listed. -/
theorem logger_step
    (profile : Profile) (report : UInt64 → Str → Str → ShellState → List Str) (growth : Growth)
    (a : Action) (h : Alive s)
    {idx : Nat}
    (hlogger : funcAt (s.step profile report growth a).shell.sched idx = some .loggerTask) :
    funcAt s.shell.sched idx = some .loggerTask ∧
      LoggerStep idx s (s.step profile report growth a) := by
  cases a with
  | key event => cases event <;> exact ⟨hlogger, .kept rfl⟩
  | timer => exact ⟨hlogger, .kept rfl⟩
  | main =>
      have hstep : s.step profile report growth .main = s.advance profile report := rfl
      rw [hstep, System.advance] at hlogger ⊢
      rcases hphase : s.phase with _ | ⟨i, func, ctx⟩ | ⟨i, ctx, line⟩ | ⟨i, ctx⟩ | _ | _ | _ <;>
        simp only [hphase] at hlogger ⊢
      · obtain ⟨i, task, ctx, sched, hnext, hslot, -, rfl, -, heq⟩ := h.prepare_eq hphase
        obtain ⟨_, -, -, hready, -⟩ := Scheduler.nextRunnableFrom_eq_some hnext
        rw [heq] at hlogger ⊢
        have hfunc : ∀ j, funcAt (s.shell.sched.setSlot i
            { task with state := .Running, runs := task.runs + 1 }) j = funcAt s.shell.sched j :=
          map_slot_setSlot_same Task.func hslot rfl
        refine ⟨(hfunc idx).symm.trans hlogger, ?_⟩
        by_cases hi : i = idx
        · exact .dispatched (hi ▸ hready)
        · exact .kept ((stateAt_setSlot _ idx _ (Scheduler.lt_of_slot hslot)).trans (if_neg hi))
      · have hsched : (s.runBody i func ctx).shell.sched = s.shell.sched := by
          cases func with
          | shellTask =>
              rw [System.runBody]
              rcases s.input.popLine with ⟨_ | line, input⟩ <;> rfl
          | _ => rfl
        rw [hsched] at hlogger
        exact ⟨hlogger, .kept (by rw [hsched])⟩
      · rw [System.runCommand] at hlogger ⊢
        rcases hreply : handleCommand profile (report s.ticks) s.shell (trim line) with
          panic | ⟨texts, shell⟩
        · rw [hreply] at hlogger
          exact ⟨hlogger, .kept rfl⟩
        · rw [hreply] at hlogger
          obtain ⟨hbefore, hkept | hkilled⟩ := logger_handleCommand hreply hlogger
          · exact ⟨hbefore, .kept hkept⟩
          · exact ⟨hbefore, .finished hkilled⟩
      · obtain ⟨sched, hfinish, heq⟩ := h.commit_eq hphase
        rw [heq] at hlogger ⊢
        refine ⟨(funcAt_finishTask hfinish idx).symm.trans hlogger, ?_⟩
        by_cases hi : i = idx
        · exact .goesOn (hi ▸ hphase)
        · exact .kept ((stateAt_finishTask idx hfinish).trans (if_neg hi))
      all_goals exact ⟨hlogger, .kept rfl⟩

theorem logging_boot :
    Logging System.boot where
  alone := by
    intro idx h
    have hlt : idx < 8 := lt_of_funcAt h
    interval_cases idx <;> first | rfl | cases h
  running := by
    intro idx ctx h
    cases h

theorem Logging.step
    (h : Logging s)
    (halive : Alive s) :
    Logging (s.step profile report growth a) where
  alone := fun _ hlogger => h.alone _ (logger_step profile report growth a halive hlogger).1
  running := by
    intro idx ctx hphase' hlogger
    have hholds := halive.phase
    cases returns_step profile report growth a halive hphase' with
    | waits hphase hsched =>
        rw [hsched] at hlogger ⊢
        exact h.running idx ctx hphase hlogger
    | body hphase hsched =>
        rw [hphase] at hholds
        rw [hsched]
        exact hholds.2.1
    | command hphase =>
        -- the shell's slot holds no logger
        rw [hphase] at hholds
        obtain ⟨rfl, -, -⟩ := hholds
        obtain ⟨hbefore, -⟩ := logger_step profile report growth a halive hlogger
        cases h.alone shellSlot hbefore

theorem logging_run
    (h : Run (System.Step profile report growth) System.boot tr s) :
    Logging s := by
  induction h with
  | nil => exact logging_boot
  | snoc before last ih =>
      obtain rfl := last
      exact ih.step (alive_run before)

/-- A step keeps finished loggers finished. -/
theorem Retired.step
    (h : Retired s)
    (halive : Alive s)
    (hlogging : Logging s) :
    Retired (s.step profile report growth a) := by
  intro idx hlogger
  obtain ⟨hbefore, hstep⟩ := logger_step profile report growth a halive hlogger
  have hfinished := h idx hbefore
  cases hstep with
  | kept hstate => exact hstate.trans hfinished
  | finished hstate => exact hstate
  | dispatched hready => cases hready.symm.trans hfinished
  | goesOn hphase => cases (hlogging.running idx _ hphase hbefore).symm.trans hfinished

/-- A commit of a finished context leaves no logger behind but finished ones. -/
theorem retired_commit
    (halive : Alive s)
    (hhonest : Honest s)
    (hlogging : Logging s)
    {idx : Nat} {ctx : TaskContext}
    (hphase : s.phase = .returned idx ctx)
    (hfinished : ctx.finished = true) :
    Retired (s.commit idx ctx) := by
  intro j hlogger
  obtain ⟨sched, hfinish, heq⟩ := halive.commit_eq hphase
  rw [heq] at hlogger ⊢
  have hat : funcAt s.shell.sched j = some .loggerTask :=
    (funcAt_finishTask hfinish j).symm.trans hlogger
  have hidx : idx = j :=
    (hlogging.alone idx (hhonest idx ctx hphase hfinished)).trans (hlogging.alone j hat).symm
  exact (stateAt_finishTask j hfinish).trans (by rw [if_pos hidx, hfinished]; rfl)

/-- The turn that finishes the logger goes on until its commit. -/
theorem Finishing.step
    (h : Finishing s)
    (halive : Alive s)
    (hhonest : Honest s)
    (hlogging : Logging s) :
    Finishing (s.step profile report growth a) ∨ Retired (s.step profile report growth a) := by
  have hwoken : s.phase.woken = s.phase := by
    rcases h with ⟨idx, ctx, hphase, -⟩ | ⟨idx, ctx, hphase, -⟩ <;> rw [hphase] <;> rfl
  have hwaits : ∀ t : System, t.phase = s.phase.woken → Finishing t := by
    intro t ht
    rw [Finishing, ht, hwoken]
    exact h
  cases a with
  | key event => cases event <;> exact Or.inl (hwaits _ rfl)
  | timer => exact Or.inl (hwaits _ rfl)
  | main =>
      show Finishing (s.advance profile report) ∨ Retired (s.advance profile report)
      rcases h with ⟨idx, ctx, hphase, hlate⟩ | ⟨idx, ctx, hphase, hfinished⟩
      · have hbody : s.advance profile report = { s with phase := .returned idx ctx.finish } := by
          rw [System.advance, hphase]
          simp only [System.runBody, loggerTask]
          rw [if_pos hlate]
        rw [hbody]
        exact Or.inl (Or.inr ⟨idx, ctx.finish, rfl, rfl⟩)
      · rw [System.advance, hphase]
        exact Or.inr (retired_commit halive hhonest hlogging hphase hfinished)

/-- A task function is called with the tick of its scan. -/
theorem tick_of_body
    (halive : Alive s)
    {idx : Nat} {func : TaskFn} {ctx : TaskContext}
    (hphase' : (s.step profile report growth a).phase = .body idx func ctx) :
    s.phase = .body idx func ctx ∨ ctx.tick = s.ticks := by
  have hwoken : ∀ phase : Phase, phase.woken = .body idx func ctx → phase = .body idx func ctx := by
    intro phase h
    rcases phase with _ | _ | _ | _ | _ | _ | _ <;> first | exact h | cases h
  cases a with
  | key event => cases event <;> exact Or.inl (hwoken _ hphase')
  | timer => exact Or.inl (hwoken _ hphase')
  | main =>
      have hstep : s.step profile report growth .main = s.advance profile report := rfl
      rw [hstep, System.advance] at hphase'
      rcases hphase : s.phase with _ | ⟨i, func₀, ctx₀⟩ | ⟨i, ctx₀, line⟩ | ⟨i, ctx₀⟩ | _ | _ | _ <;>
        simp only [hphase] at hphase'
      · obtain ⟨_, _, _, _, -, -, -, -, hprep, heq⟩ := halive.prepare_eq hphase
        rw [heq] at hphase'
        cases hphase'
        rcases Scheduler.prepareNext_eq_ok hprep with ⟨hnone, -⟩ | ⟨_, _, -, -, -, hsome, -⟩
        · cases hnone
        · rw [Option.some.injEq, Prod.mk.injEq, Prod.mk.injEq] at hsome
          rw [hsome.2.2]
          exact Or.inr rfl
      · cases func₀ with
        | shellTask =>
            rw [System.runBody] at hphase'
            rcases hpop : s.input.popLine with ⟨_ | line, input⟩ <;> rw [hpop] at hphase' <;>
              cases hphase'
        | other addr =>
            rw [System.runBody, hphase] at hphase'
            exact Or.inl hphase'
        | _ => cases hphase'
      · rw [System.runCommand] at hphase'
        split at hphase' <;> cases hphase'
      · obtain ⟨_, -, heq⟩ := halive.commit_eq hphase
        rw [heq] at hphase'
        cases hphase'
      all_goals cases hphase'

/-- What dispatches the logger finds it Ready, and calls it with the present tick. -/
theorem of_logs
    (profile : Profile) (report : UInt64 → Str → Str → ShellState → List Str) (growth : Growth)
    (h : Alive s)
    (hlogs : logs (s, a) = true) :
    (∃ idx, funcAt s.shell.sched idx = some .loggerTask ∧
      s.shell.sched.stateAt idx = some .Ready) ∧ s.phase = .scan ∧
    ∃ idx ctx, (s.step profile report growth a).phase = .body idx .loggerTask ctx ∧
      ctx.tick = s.ticks := by
  cases a with
  | key event => cases hlogs
  | timer => cases hlogs
  | main =>
      rcases hphase : s.phase with _ | _ | _ | _ | _ | _ | _
      · obtain ⟨idx, task, ctx, sched, hnext, hslot, -, -, -, heq⟩ := h.prepare_eq hphase
        obtain ⟨_, -, -, hready, -⟩ := Scheduler.nextRunnableFrom_eq_some hnext
        have hlogger : funcAt s.shell.sched idx = some .loggerTask := by
          simpa [logs, hphase, hnext] using hlogs
        have hfunc : task.func = .loggerTask := by
          rw [funcAt, hslot] at hlogger
          exact Option.some.inj hlogger
        have hbody : (s.step profile report growth .main).phase = .body idx .loggerTask ctx := by
          show (s.advance profile report).phase = _
          rw [System.advance, hphase]
          show s.prepare.phase = _
          rw [heq, ← hfunc]
          rfl
        refine ⟨⟨idx, hlogger, hready⟩, rfl, idx, ctx, hbody, ?_⟩
        rcases tick_of_body h hbody with hcalled | htick
        · cases hphase.symm.trans hcalled
        · exact htick
      all_goals simp [logs, hphase] at hlogs

/-- The logger has had its last dispatch. -/
def LastLogged (s : System) : Prop :=
  Finishing s ∨ Retired s

theorem LastLogged.step
    (h : LastLogged s)
    (halive : Alive s)
    (hhonest : Honest s)
    (hlogging : Logging s) :
    LastLogged (s.step profile report growth a) := by
  rcases h with hfinishing | hretired
  · exact hfinishing.step halive hhonest hlogging
  · exact Or.inr (hretired.step halive hlogging)

theorem LastLogged.not_logs
    (profile : Profile) (report : UInt64 → Str → Str → ShellState → List Str) (growth : Growth)
    (h : LastLogged s)
    (halive : Alive s) :
    logs (s, a) = false := by
  by_contra hlogs
  obtain ⟨⟨idx, hlogger, hready⟩, hphase, -⟩ :=
    of_logs profile report growth halive (by simpa using hlogs)
  rcases h with (⟨_, _, hbody, -⟩ | ⟨_, _, hreturned, -⟩) | hretired
  · cases hphase.symm.trans hbody
  · cases hphase.symm.trans hreturned
  · cases hready.symm.trans (hretired idx hlogger)

/-- After tick 128 the logger is dispatched at most once. -/
theorem countP_logs_le
    {before : List (System × Action)}
    (hbefore : Run (System.Step profile report growth) System.boot before s)
    (h : Run (System.Step profile report growth) s tr t)
    (hlate : ∀ x ∈ tr, 128 < x.1.ticks) :
    tr.countP logs ≤ 1 ∧ (1 ≤ tr.countP logs → LastLogged t) := by
  induction h with
  | nil => exact ⟨Nat.zero_le _, fun hone => absurd hone (by simp)⟩
  | @snoc t u a tr before' last ih =>
      obtain rfl := last
      have hto := hbefore.append before'
      obtain ⟨hle, hlast⟩ := ih fun x hx => hlate x (List.mem_append_left _ hx)
      rw [List.countP_append, List.countP_singleton]
      cases hlogs : logs (t, a) with
      | false =>
          exact ⟨hle, fun hone =>
            (hlast hone).step (alive_run hto) (honest_run hto) (logging_run hto)⟩
      | true =>
          obtain ⟨-, -, idx, ctx, hbody, htick⟩ :=
            of_logs profile report growth (alive_run hto) hlogs
          have hnow : 128 < t.ticks := hlate (t, a) (by simp)
          have hnone : ¬ 1 ≤ tr.countP logs := by
            intro hone
            have hnot := (hlast hone).not_logs profile report growth (alive_run hto) (a := a)
            exact Bool.noConfusion (hlogs.symm.trans hnot)
          refine ⟨?_, fun _ => Or.inl (Or.inl ⟨idx, ctx, hbody, htick ▸ hnow⟩)⟩
          simp only [if_true]
          omega

theorem Retired.run
    {before : List (System × Action)}
    (hs : Retired s)
    (hbefore : Run (System.Step profile report growth) System.boot before s)
    (h : Run (System.Step profile report growth) s tr t) :
    Retired t := by
  induction h with
  | nil => exact hs
  | snoc before' last ih =>
      obtain rfl := last
      exact ih.step (alive_run (hbefore.append before')) (logging_run (hbefore.append before'))

/-- A logger that is not finished is Ready at a scan. -/
theorem ready_of_not_retired
    {before : List (System × Action)}
    (hbefore : Run (System.Step profile report growth) System.boot before s)
    (hphase : s.phase = .scan)
    (h : ¬ Retired s) :
    funcAt s.shell.sched loggerSlot = some .loggerTask ∧
      s.shell.sched.stateAt loggerSlot = some .Ready := by
  obtain ⟨idx, hlogger, hstate⟩ : ∃ idx, funcAt s.shell.sched idx = some .loggerTask ∧
      s.shell.sched.stateAt idx ≠ some .Finished := by
    simpa [Retired] using h
  obtain rfl := (logging_run hbefore).alone idx hlogger
  refine ⟨hlogger, ?_⟩
  obtain ⟨task, hslot, -⟩ := Option.map_eq_some_iff.1 hlogger
  have hat : s.shell.sched.stateAt loggerSlot = some task.state := by
    rw [Scheduler.stateAt, hslot]
    rfl
  have hoccupies : Occupies s.shell.sched loggerSlot task.name task.func :=
    ⟨task, hslot, rfl, rfl, fun hfinished => hstate (hfinished ▸ hat)⟩
  exact hoccupies.ready (slotInvariant_run hbefore) hphase

/-- The last scan of a trace. -/
theorem exists_last_scan
    (tr : List (System × Action))
    (h : 0 < scans tr) :
    ∃ tr₁ u tr₂, tr = tr₁ ++ (u, .main) :: tr₂ ∧ u.phase = .scan ∧ scans tr = scans tr₁ + 1 := by
  induction tr using List.reverseRecOn with
  | nil => cases h
  | append_singleton tr x ih =>
      obtain ⟨u, a⟩ := x
      have hsum : scans (tr ++ [(u, a)]) = scans tr + (scanned (u, a)).length := by
        rw [scans_append]
        simp [scans]
      rcases scanned_cases u a with hnone | ⟨rfl, hphase, hone⟩
      · rw [hnone] at hsum
        obtain ⟨tr₁, u', tr₂, rfl, hphase, hcount⟩ := ih (lt_of_lt_of_eq h hsum)
        exact ⟨tr₁, u', tr₂ ++ [(u, a)], by simp, hphase, hsum.trans hcount⟩
      · exact ⟨tr, u, [], rfl, hphase, by rw [hsum, hone]; rfl⟩

/-- Nine scans after tick 128 leave no logger behind but finished ones. -/
theorem retired_of_scans
    {before : List (System × Action)}
    (hbefore : Run (System.Step profile report growth) System.boot before s)
    (h : Run (System.Step profile report growth) s tr t)
    (hlate : ∀ x ∈ tr, 128 < x.1.ticks)
    (hscans : 9 ≤ scans tr) :
    Retired t := by
  by_contra hlives
  obtain ⟨tr₁, u, tr₂, rfl, hphase, hcount⟩ := exists_last_scan tr (by omega)
  obtain ⟨u', hrun₁, hrun₂⟩ := Run.split h
  obtain ⟨rfl, -⟩ := Run.of_cons hrun₂
  have hready : ∀ x ∈ tr₁, x.1.phase = .scan →
      funcAt x.1.shell.sched loggerSlot = some .loggerTask ∧
        x.1.shell.sched.stateAt loggerSlot = some .Ready := by
    intro x hx hscan
    obtain ⟨_, _, _, -, hfirst, hstep, hrest⟩ := Run.exists_before hrun₁ hx
    refine ready_of_not_retired (hbefore.append hfirst) hscan fun hretired => hlives ?_
    exact hretired.run (hbefore.append hfirst) (Run.cons hstep (hrest.append hrun₂))
  have hfinds : ∀ y ∈ tr₁.flatMap scanned, y.1.sched.stateAt loggerSlot = some .Ready := by
    intro y hy
    obtain ⟨⟨v, a⟩, hx, hmem⟩ := List.mem_flatMap.1 hy
    rcases scanned_cases v a with hnone | ⟨-, hscan, hone⟩
    · rw [hnone] at hmem
      cases hmem
    · rw [hone] at hmem
      obtain rfl := List.mem_singleton.1 hmem
      exact (hready _ hx hscan).2
  -- eight scans that find the logger Ready dispatch it
  have height : MAX_TASKS ≤ scans tr₁ := by
    rw [hcount] at hscans
    exact Nat.le_of_succ_le_succ hscans
  obtain ⟨y, hy, hdispatch⟩ :=
    exists_dispatch (alive_run hbefore) (slotInvariant_run hbefore) hrun₁ hfinds height
  obtain ⟨⟨v, a⟩, hx, hmem⟩ := List.mem_flatMap.1 hy
  have hlogs : logs (v, a) = true := by
    rcases scanned_cases v a with hnone | ⟨rfl, hscan, hone⟩
    · rw [hnone] at hmem
      cases hmem
    · rw [hone] at hmem
      obtain rfl := List.mem_singleton.1 hmem
      have hnext := Event.prepareNext.inj hdispatch
      simp [logs, hscan, hnext, (hready _ hx hscan).1]
  have hlast := (countP_logs_le hbefore hrun₁ fun x hx => hlate x (List.mem_append_left _ hx)).2
    (List.countP_pos_iff.2 ⟨_, hx, hlogs⟩)
  rcases hlast with (⟨_, _, hbody, -⟩ | ⟨_, _, hreturned, -⟩) | hretired
  · cases hphase.symm.trans hbody
  · cases hphase.symm.trans hreturned
  · exact hlives (hretired.run (hbefore.append hrun₁) hrun₂)

/-- No turn of the loop has come past tick 128. -/
structure Early (s : System) : Prop where
  body : ∀ idx func ctx, s.phase = .body idx func ctx → ctx.tick ≤ 128
  returned : ∀ idx ctx, s.phase = .returned idx ctx → ctx.finished = false

theorem early_boot :
    Early System.boot where
  body := by
    intro idx func ctx h
    cases h
  returned := by
    intro idx ctx h
    cases h

theorem Early.step
    (h : Early s)
    (halive : Alive s)
    (hearly : s.ticks ≤ 128) :
    Early (s.step profile report growth a) where
  body := by
    intro idx func ctx hphase'
    rcases tick_of_body halive hphase' with hphase | htick
    · exact h.body idx func ctx hphase
    · exact htick ▸ hearly
  returned := by
    intro idx ctx hphase'
    cases returns_step profile report growth a halive hphase' with
    | waits hphase => exact h.returned idx ctx hphase
    | @body func ctx₀ hphase _ hfinished =>
        by_contra hnot
        exact UInt64.not_lt.2 (h.body idx func ctx₀ hphase) (hfinished (by simpa using hnot)).2
    | command _ hgoes => exact hgoes

/-- Up to tick 128 the logger stays unless a line kills it. -/
theorem logger_stays
    (h : Run (System.Step profile report growth) System.boot tr s)
    (hearly : ∀ x ∈ tr, x.1.ticks ≤ 128)
    (hspared : ∀ line ∈ executed tr, ¬ Kills loggerSlot line) :
    Early s ∧ Occupies s.shell.sched loggerSlot "worker-b" .loggerTask := by
  induction h with
  | nil => exact ⟨early_boot, Task.new "worker-b" .loggerTask, rfl, rfl, rfl, TaskState.noConfusion⟩
  | @snoc s t a tr before last ih =>
      obtain rfl := last
      obtain ⟨hgoes, hoccupies⟩ := ih (fun x hx => hearly x (List.mem_append_left _ hx))
        (fun line hline => hspared line (by
          rw [executed, List.flatMap_append]
          exact List.mem_append_left _ hline))
      refine ⟨hgoes.step (alive_run before) (hearly (s, a) (by simp)), ?_⟩
      refine hoccupies.step (alive_run before) (hgoes.returned loggerSlot) fun line hline => ?_
      refine hspared line ?_
      rw [executed, List.flatMap_append]
      exact List.mem_append_right _ (by simpa using hline)

/--
The two halves of the logger's life, in every run.  As long as the ticks are at
most 128 and no line kills pid 2, the logger is in slot 2 and has not finished.
From any state on, if the ticks stay above 128, it is dispatched at most once,
and after nine scans no slot holds a logger that has not finished.
-/
theorem logger_lifetime
    (profile : Profile) (report : UInt64 → Str → Str → ShellState → List Str) (growth : Growth)
    (before after : List (System × Action)) (s t : System)
    (hbefore : Run (System.Step profile report growth) System.boot before s)
    (hafter : Run (System.Step profile report growth) s after t) :
    ((∀ x ∈ before, x.1.ticks ≤ 128) → (∀ line ∈ executed before, ¬ Kills 2 line) →
      ∃ task, s.shell.sched.slot 2 = some task ∧ task.func = .loggerTask ∧
        task.state ≠ .Finished) ∧
    ((∀ x ∈ after, 128 < x.1.ticks) →
      after.countP logs ≤ 1 ∧
      (9 ≤ scans after → ∀ idx task, t.shell.sched.slot idx = some task →
        task.func = .loggerTask → task.state = .Finished)) := by
  refine ⟨fun hearly hspared => ?_, fun hlate => ⟨(countP_logs_le hbefore hafter hlate).1, ?_⟩⟩
  · obtain ⟨task, hslot, -, hfunc, hstate⟩ := (logger_stays hbefore hearly hspared).2
    exact ⟨task, hslot, hfunc, hstate⟩
  · intro hscans idx task hslot hfunc
    have hretired := retired_of_scans hbefore hafter hlate hscans idx
      (by rw [funcAt, hslot, ← hfunc]; rfl)
    rw [Scheduler.stateAt, hslot] at hretired
    exact Option.some.inj hretired

/-- Ticks before the first scan change nothing but the tick count. -/
theorem foldl_timer
    (n : Nat) :
    (List.replicate n .timer).foldl (System.step profile report growth) System.boot =
      { System.boot with ticks := UInt64.ofNat n } := by
  induction n with
  | zero => rfl
  | succ n ih =>
      rw [List.replicate_succ', List.foldl_append, ih, UInt64.ofNat_add]
      rfl

/-- Nine turns from tick 129 on finish the logger. -/
theorem logger_lifetime_late :
    ∃ task, ((List.replicate 9 [.main, .main, .main, .timer]).flatten.foldl
      (System.step .dev (fun _ _ _ _ => []) .doubling)
      { System.boot with ticks := 129 }).shell.sched.slot 2 = some task ∧
      task.state = .Finished := by
  have hbefore := Run.run_trail (System.step .dev (fun _ _ _ _ => []) .doubling) System.boot
    (List.replicate 129 .timer)
  rw [foldl_timer] at hbefore
  have hafter := Run.run_trail (System.step .dev (fun _ _ _ _ => []) .doubling)
    { System.boot with ticks := 129 } (List.replicate 9 [.main, .main, .main, .timer]).flatten
  have hticks : (Run.trail (System.step .dev (fun _ _ _ _ => []) .doubling)
      { System.boot with ticks := 129 } (List.replicate 9 [.main, .main, .main, .timer]).flatten).all
      (fun x => 128 < x.1.ticks) = true := rfl
  have hnine : scans (Run.trail (System.step .dev (fun _ _ _ _ => []) .doubling)
      { System.boot with ticks := 129 }
      (List.replicate 9 [.main, .main, .main, .timer]).flatten) = 9 := rfl
  obtain ⟨-, hlast⟩ := (logger_lifetime .dev (fun _ _ _ _ => []) .doubling _ _ _ _ hbefore hafter).2
    (fun x hx => of_decide_eq_true (List.all_eq_true.1 hticks x hx))
  exact ⟨_, rfl, hlast hnine.ge 2 _ rfl rfl⟩

end Steps

end MainLoop
end OpenKernel
