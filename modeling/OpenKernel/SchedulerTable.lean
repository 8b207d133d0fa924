import Mathlib.Data.Vector.Basic
import Mathlib.Tactic

/-!
# The scheduler's task table

This module translates the data and the operations of `src/scheduler.rs`: the
table of eight task slots, the cyclic search for a Ready task, the two halves
of a dispatch (`prepare_next` and `finish_task`) and the two calls a running
task may make on the table (`kill_task` and `spawn_task`).

`panic!` and `expect` are the error branch of `Except Panic`; an index outside
the table is an error too.  `runs : u64` is a machine word.  The values of
`BOOT_TICK_COUNT` reach the table through `prepare_next` only and are an
argument of it.

The second half describes every operation slot by slot.  Later modules use
these descriptions and never unfold the operations.
-/

namespace OpenKernel
namespace Scheduling

/-- `MAX_TASKS`. -/
def MAX_TASKS : Nat := 8

inductive TaskState where
  | Ready
  | Running
  | Finished
deriving DecidableEq, Repr

structure TaskContext where
  task_id : Nat
  tick : UInt64
  yielded : Bool
  finished : Bool
deriving DecidableEq, Repr

namespace TaskContext

def yieldNow (ctx : TaskContext) : TaskContext :=
  { ctx with yielded := true }

def finish (ctx : TaskContext) : TaskContext :=
  { ctx with finished := true }

end TaskContext

/-- `TaskFn`: the task functions of the repository, and any other one. -/
inductive TaskFn where
  | idleTask
  | workerTask
  | loggerTask
  | shellTask
  | other (addr : Nat)
deriving DecidableEq, Repr

structure Task where
  name : String
  func : TaskFn
  state : TaskState
  runs : UInt64
deriving DecidableEq, Repr

def Task.new (name : String) (func : TaskFn) : Task where
  name := name
  func := func
  state := .Ready
  runs := 0

structure Scheduler where
  tasks : Vector (Option Task) MAX_TASKS
  current : Nat
deriving DecidableEq, Repr

/-- The ways in which an operation on the table can stop the kernel. -/
inductive Panic where
  | taskTableFull
  | taskMissing
  | indexOutOfBounds
deriving DecidableEq, Repr

namespace Scheduler

def new : Scheduler where
  tasks := Vector.replicate MAX_TASKS none
  current := 0

/-- `self.tasks[idx]`, with no task at an index outside the table. -/
def slot (s : Scheduler) (idx : Nat) : Option Task :=
  s.tasks[idx]?.join

/-- `self.tasks[idx] = Some(task)`. -/
def setSlot (s : Scheduler) (idx : Nat) (task : Task) : Scheduler :=
  { s with tasks := s.tasks.setIfInBounds idx (some task) }

/-- `self.tasks[idx].as_mut().expect("task missing")`. -/
def taskMut (s : Scheduler) (idx : Nat) : Except Panic Task :=
  match s.tasks[idx]? with
  | none => .error .indexOutOfBounds
  | some none => .error .taskMissing
  | some (some task) => .ok task

/-- The state of the task in a slot, if there is a task. -/
def stateAt (s : Scheduler) (idx : Nat) : Option TaskState :=
  (s.slot idx).map Task.state

/-- The scan `for (idx, slot) in self.tasks.iter_mut().enumerate()` for the
first slot that satisfies a test. -/
def firstSlot (s : Scheduler) (test : Option Task → Bool) : Option Nat :=
  (List.range MAX_TASKS).find? (fun idx => test (s.slot idx))

def addTask
    (s : Scheduler) (name : String) (func : TaskFn) :
    Except Panic (Nat × Scheduler) :=
  match s.firstSlot (fun slot => slot.isNone) with
  | some idx => .ok (idx, s.setSlot idx (Task.new name func))
  | none => .error .taskTableFull

def nextRunnableFrom (s : Scheduler) (start : Nat) : Option Nat :=
  (List.range MAX_TASKS).findSome? (fun offset =>
    let idx := (start + offset) % MAX_TASKS
    if s.stateAt idx = some .Ready then some idx else none)

def prepareNext
    (s : Scheduler) (tick : UInt64) :
    Except Panic (Option (Nat × TaskFn × TaskContext) × Scheduler) :=
  match s.nextRunnableFrom s.current with
  | none => .ok (none, s)
  | some idx =>
      match s.taskMut idx with
      | .error e => .error e
      | .ok task =>
          let task := { task with state := .Running, runs := task.runs + 1 }
          let ctx : TaskContext :=
            { task_id := idx, tick := tick, yielded := false, finished := false }
          .ok (some (idx, task.func, ctx), s.setSlot idx task)

def finishTask
    (s : Scheduler) (idx : Nat) (ctx : TaskContext) :
    Except Panic Scheduler :=
  match s.taskMut idx with
  | .error e => .error e
  | .ok task =>
      let task := { task with state := if ctx.finished then .Finished else .Ready }
      .ok { s.setSlot idx task with
        current := if ctx.yielded then (idx + 1) % MAX_TASKS else idx }

end Scheduler

/-- `kill_task`, under the lock of `SCHEDULER`. -/
def killTask (sched : Scheduler) (id : Nat) : Bool × Scheduler :=
  if id < MAX_TASKS ∧ (sched.slot id).isSome then
    match sched.slot id with
    | some task => (true, sched.setSlot id { task with state := .Finished })
    | none => (false, sched)
  else
    (false, sched)

/-- `spawn_task`, under the lock of `SCHEDULER`. -/
def spawnTask (sched : Scheduler) (name : String) : Option Nat × Scheduler :=
  match sched.firstSlot
      (fun slot => slot.isNone || slot.map Task.state == some .Finished) with
  | some idx => (some idx, sched.setSlot idx (Task.new name .workerTask))
  | none => (none, sched)

structure TaskInfo where
  id : Nat
  name : String
  state : TaskState
  runs : UInt64
deriving DecidableEq

/-- `snapshot_tasks`: what `visit` is called with, in order. -/
def snapshotTasks (sched : Scheduler) : List TaskInfo :=
  (List.range MAX_TASKS).filterMap fun id =>
    (sched.slot id).map fun task => ⟨id, task.name, task.state, task.runs⟩

def idleTask (ctx : TaskContext) : TaskContext :=
  ctx.yieldNow

def workerTask (ctx : TaskContext) : TaskContext :=
  ctx.yieldNow

def loggerTask (ctx : TaskContext) : TaskContext :=
  if ctx.tick > 128 then
    ctx.finish
  else
    ctx.yieldNow

/-- The `add_task` calls of `init`. -/
def initJobs : List (String × TaskFn) :=
  [("idle", .idleTask), ("worker-a", .workerTask),
    ("worker-b", .loggerTask), ("shell", .shellTask)]

namespace Scheduler

section Slots

variable (s : Scheduler)

@[simp] theorem slot_new
    (idx : Nat) :
    new.slot idx = none := by
  simp only [slot, new, Vector.getElem?_replicate]
  split <;> rfl

@[simp] theorem current_new :
    new.current = 0 := rfl

@[simp] theorem current_setSlot
    (idx : Nat) (task : Task) :
    (s.setSlot idx task).current = s.current := rfl

theorem slot_setSlot
    (idx j : Nat) (task : Task) :
    (s.setSlot idx task).slot j =
      if idx = j ∧ j < MAX_TASKS then some task else s.slot j := by
  simp only [slot, setSlot, Vector.getElem?_setIfInBounds]
  by_cases hij : idx = j
  · subst hij
    by_cases hlt : idx < MAX_TASKS
    · simp [hlt]
    · simp [hlt]
  · simp [hij]

@[simp] theorem slot_setSlot_ne
    {idx j : Nat} (task : Task)
    (h : idx ≠ j) :
    (s.setSlot idx task).slot j = s.slot j := by
  simp [slot_setSlot, h]

@[simp] theorem slot_setSlot_self
    {idx : Nat} (task : Task)
    (h : idx < MAX_TASKS) :
    (s.setSlot idx task).slot idx = some task := by
  simp [slot_setSlot, h]

/-- Only the indices of the table hold tasks. -/
theorem lt_of_slot
    {s : Scheduler} {idx : Nat} {task : Task}
    (h : s.slot idx = some task) :
    idx < MAX_TASKS := by
  by_contra hge
  simp [slot, Vector.getElem?_eq_none (Nat.le_of_not_lt hge)] at h

theorem taskMut_eq_ok_iff
    {s : Scheduler} {idx : Nat} {task : Task} :
    s.taskMut idx = .ok task ↔ s.slot idx = some task := by
  unfold taskMut slot
  rcases hget : s.tasks[idx]? with _ | _ | t <;> simp

theorem stateAt_eq_some_iff
    {s : Scheduler} {idx : Nat} {st : TaskState} :
    s.stateAt idx = some st ↔
      ∃ task, s.slot idx = some task ∧ task.state = st := by
  simp [stateAt]

/-- A task that has not finished is in the way of `spawn_task`. -/
theorem not_free_of_slot
    {s : Scheduler} {idx : Nat} {task : Task}
    (hslot : s.slot idx = some task)
    (hstate : task.state ≠ .Finished) :
    ¬ (s.slot idx = none ∨ s.stateAt idx = some .Finished) := by
  rintro (hempty | hfinished)
  · rw [hempty] at hslot
    cases hslot
  · rw [stateAt, hslot] at hfinished
    exact hstate (Option.some.inj hfinished)

theorem firstSlot_eq_some
    {s : Scheduler} {test : Option Task → Bool} {idx : Nat}
    (h : s.firstSlot test = some idx) :
    idx < MAX_TASKS ∧ test (s.slot idx) = true := by
  have hmem := List.mem_of_find?_eq_some h
  exact ⟨List.mem_range.1 hmem, by simpa using List.find?_some h⟩

theorem firstSlot_eq_none_iff
    {s : Scheduler} {test : Option Task → Bool} :
    s.firstSlot test = none ↔
      ∀ idx, idx < MAX_TASKS → test (s.slot idx) = false := by
  simp [firstSlot]

/-- The slots that the scan of `next_runnable_from` skips are not Ready. -/
theorem nextRunnableFrom_eq_some
    {s : Scheduler} {start idx : Nat}
    (h : s.nextRunnableFrom start = some idx) :
    ∃ offset, offset < MAX_TASKS ∧
      idx = (start + offset) % MAX_TASKS ∧
      s.stateAt idx = some .Ready ∧
      ∀ o, o < offset →
        s.stateAt ((start + o) % MAX_TASKS) ≠ some .Ready := by
  unfold nextRunnableFrom at h
  obtain ⟨l₁, offset, l₂, hsplit, hhit, hskip⟩ := List.findSome?_eq_some_iff.1 h
  have hlen : (l₁ ++ offset :: l₂).length = MAX_TASKS := by
    rw [← hsplit]; exact List.length_range
  have hget : ∀ o, o < l₁.length + 1 → (l₁ ++ offset :: l₂)[o]? = some o := by
    intro o ho
    rw [← hsplit, List.getElem?_range]
    simp at hlen; omega
  have hoffset : offset = l₁.length := by
    have := hget l₁.length (by omega)
    simpa using this
  refine ⟨offset, by simp at hlen; omega, ?_⟩
  simp only [Option.ite_none_right_eq_some, Option.some.injEq] at hhit
  refine ⟨hhit.2.symm, hhit.2 ▸ hhit.1, ?_⟩
  intro o ho hready
  have hmem : o ∈ l₁ := by
    have := hget o (by omega)
    rw [List.getElem?_append_left (by omega)] at this
    exact List.mem_of_getElem? this
  have := hskip o hmem
  simp [hready] at this

/-- The scan covers the whole table. -/
theorem nextRunnableFrom_eq_none_iff
    {s : Scheduler} {start : Nat} :
    s.nextRunnableFrom start = none ↔
      ∀ idx, s.stateAt idx ≠ some .Ready := by
  unfold nextRunnableFrom
  simp only [List.findSome?_eq_none_iff, List.mem_range, ite_eq_right_iff,
    reduceCtorEq, imp_false]
  constructor
  · intro h idx hready
    obtain ⟨task, hslot, _⟩ := stateAt_eq_some_iff.1 hready
    have hlt : idx < 8 := lt_of_slot hslot
    -- the offset at which the scan from `start` meets `idx`
    have hmeet : (start + (idx + 8 - start % 8) % 8) % 8 = idx := by omega
    refine h ((idx + 8 - start % 8) % 8) (Nat.mod_lt _ (by decide)) ?_
    show s.stateAt ((start + (idx + 8 - start % 8) % 8) % 8) = _
    rw [hmeet]
    exact hready
  · intro h offset _
    exact h _

end Slots

section Operations

variable {s s' : Scheduler}

theorem addTask_eq_ok
    {name : String} {func : TaskFn} {idx : Nat}
    (h : s.addTask name func = .ok (idx, s')) :
    idx < MAX_TASKS ∧ s.slot idx = none ∧
      s' = s.setSlot idx (Task.new name func) := by
  unfold addTask at h
  split at h
  · rename_i j hfirst
    obtain ⟨hlt, hnone⟩ := firstSlot_eq_some hfirst
    obtain ⟨rfl, rfl⟩ : j = idx ∧ s.setSlot j (Task.new name func) = s' := by
      simpa using h
    exact ⟨hlt, by simpa using hnone, rfl⟩
  · cases h

/-- Everything that a successful `prepare_next` can do. -/
theorem prepareNext_eq_ok
    {tick : UInt64} {r : Option (Nat × TaskFn × TaskContext)}
    (h : s.prepareNext tick = .ok (r, s')) :
    (r = none ∧ s' = s ∧ ∀ idx, s.stateAt idx ≠ some .Ready) ∨
    (∃ idx task,
      s.nextRunnableFrom s.current = some idx ∧
      s.slot idx = some task ∧ task.state = .Ready ∧
      r = some (idx, task.func,
        { task_id := idx, tick := tick, yielded := false, finished := false }) ∧
      s' = s.setSlot idx { task with state := .Running, runs := task.runs + 1 }) := by
  unfold prepareNext at h
  split at h
  · rename_i hnone
    obtain ⟨rfl, rfl⟩ : none = r ∧ s = s' := by simpa using h
    exact .inl ⟨rfl, rfl, nextRunnableFrom_eq_none_iff.1 hnone⟩
  · rename_i idx hnext
    obtain ⟨_, _, _, hready, _⟩ := nextRunnableFrom_eq_some hnext
    obtain ⟨task, hslot, hstate⟩ := stateAt_eq_some_iff.1 hready
    rw [taskMut_eq_ok_iff.2 hslot] at h
    simp only [Except.ok.injEq, Prod.mk.injEq] at h
    exact .inr ⟨idx, task, hnext, hslot, hstate, h.1.symm, h.2.symm⟩

/-- `prepare_next` never reaches its `expect`. -/
theorem prepareNext_total
    (s : Scheduler) (tick : UInt64) :
    ∃ r s', s.prepareNext tick = .ok (r, s') := by
  unfold prepareNext
  split
  · exact ⟨_, _, rfl⟩
  · rename_i idx hnext
    obtain ⟨_, _, _, hready, _⟩ := nextRunnableFrom_eq_some hnext
    obtain ⟨task, hslot, _⟩ := stateAt_eq_some_iff.1 hready
    rw [taskMut_eq_ok_iff.2 hslot]
    exact ⟨_, _, rfl⟩

theorem finishTask_eq_ok_iff
    {idx : Nat} {ctx : TaskContext} :
    s.finishTask idx ctx = .ok s' ↔
      ∃ task, s.slot idx = some task ∧
        s' = { s.setSlot idx
                { task with
                  state := if ctx.finished then .Finished else .Ready } with
              current := if ctx.yielded then (idx + 1) % MAX_TASKS else idx } := by
  unfold finishTask
  constructor
  · intro h
    rcases htask : s.taskMut idx with e | task
    · simp [htask] at h
    · rw [htask] at h
      simp only [Except.ok.injEq] at h
      exact ⟨task, taskMut_eq_ok_iff.1 htask, h.symm⟩
  · rintro ⟨task, hslot, rfl⟩
    rw [taskMut_eq_ok_iff.2 hslot]

/-- `finish_task` leaves the table in which only the state of its slot moved. -/
theorem finishTask_slot
    {idx j : Nat} {ctx : TaskContext}
    (h : s.finishTask idx ctx = .ok s') :
    s'.slot j =
      if idx = j then
        (s.slot j).map (fun task =>
          { task with state := if ctx.finished then .Finished else .Ready })
      else s.slot j := by
  obtain ⟨task, hslot, rfl⟩ := finishTask_eq_ok_iff.1 h
  show (s.setSlot idx _).slot j = _
  by_cases hij : idx = j
  · subst hij
    simp [hslot, lt_of_slot hslot]
  · simp [hij]

theorem finishTask_current
    {idx : Nat} {ctx : TaskContext}
    (h : s.finishTask idx ctx = .ok s') :
    s'.current = if ctx.yielded then (idx + 1) % MAX_TASKS else idx := by
  obtain ⟨task, _, rfl⟩ := finishTask_eq_ok_iff.1 h
  rfl

theorem killTask_eq_true_iff
    {id : Nat} :
    killTask s id = (true, s') ↔
      ∃ task, s.slot id = some task ∧
        s' = s.setSlot id { task with state := .Finished } := by
  unfold killTask
  rcases hslot : s.slot id with _ | task
  · simp
  · simp [lt_of_slot hslot, eq_comm]

theorem killTask_eq_false_iff
    {id : Nat} :
    killTask s id = (false, s') ↔ s.slot id = none ∧ s' = s := by
  unfold killTask
  rcases hslot : s.slot id with _ | task
  · simp [eq_comm]
  · simp [lt_of_slot hslot]

theorem spawnTask_eq_some
    {name : String} {idx : Nat}
    (h : spawnTask s name = (some idx, s')) :
    idx < MAX_TASKS ∧
      (s.slot idx = none ∨ s.stateAt idx = some .Finished) ∧
      s' = s.setSlot idx (Task.new name .workerTask) := by
  unfold spawnTask at h
  split at h
  · rename_i j hfirst
    obtain ⟨hlt, htest⟩ := firstSlot_eq_some hfirst
    obtain ⟨rfl, rfl⟩ :
        j = idx ∧ s.setSlot j (Task.new name .workerTask) = s' := by
      simpa using h
    refine ⟨hlt, ?_, rfl⟩
    simpa [stateAt] using htest
  · simp at h

theorem spawnTask_eq_none_iff
    {name : String} :
    spawnTask s name = (none, s') ↔
      s' = s ∧ ∀ idx, idx < MAX_TASKS →
        s.stateAt idx = some .Ready ∨ s.stateAt idx = some .Running := by
  unfold spawnTask
  split
  · rename_i j hfirst
    obtain ⟨hlt, htest⟩ := firstSlot_eq_some hfirst
    simp only [Prod.mk.injEq, reduceCtorEq, false_and, false_iff, not_and]
    rintro - hall
    simp only [stateAt] at hall
    rcases hall j hlt with hst | hst <;> simp [hst] at htest <;> simp [htest] at hst
  · rename_i hnone
    have hall := firstSlot_eq_none_iff.1 hnone
    simp only [Prod.mk.injEq, true_and, eq_comm (a := s)]
    refine ⟨fun h => ⟨h, fun idx hlt => ?_⟩, fun h => h.1⟩
    have hidx := hall idx hlt
    rcases hslot : s.slot idx with _ | task
    · simp [hslot] at hidx
    · cases hstate : task.state <;> simp_all [stateAt]

end Operations

end Scheduler

end Scheduling
end OpenKernel
