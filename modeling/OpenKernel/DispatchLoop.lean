import OpenKernel.RunInvariants
import OpenKernel.SchedulerTable

/-!
# The dispatch loop and its slot invariant

`run` takes the lock of the task table for `prepare_next`, runs the body of
the chosen task with no lock held, and takes the lock again for `finish_task`.
The body is arbitrary code: here it makes any sequence of `kill_task` and
`spawn_task` calls and leaves any context behind.  A kernel state is the task
table together with the place of the loop, and `Step` has one constructor for
each thing that can happen next.

The main results are the slot invariant of every reachable state and the facts
about `spawn_task` that go with it.
-/

namespace OpenKernel
namespace Scheduling

/-- The task table and, while a body runs, its slot and its context. -/
structure Kernel where
  sched : Scheduler
  running : Option (Nat × TaskContext)
deriving DecidableEq, Repr

/-- What happens in one step of `run`, with the result that the code returns. -/
inductive Event where
  | prepareNext (dispatched : Option Nat)
  | killTask (id : Nat) (killed : Bool)
  | spawnTask (name : String) (spawned : Option Nat)
  | setContext (ctx : TaskContext)
  | finishTask
deriving DecidableEq, Repr

namespace Event

/-- The steps taken by the body of a task. -/
def IsBodyCall : Event → Prop
  | killTask _ _ => True
  | spawnTask _ _ => True
  | setContext _ => True
  | prepareNext _ => False
  | finishTask => False

/-- The events that leave the table as it was. -/
def KeepsTable : Event → Prop
  | prepareNext none => True
  | killTask _ false => True
  | spawnTask _ none => True
  | setContext _ => True
  | _ => False

instance : DecidablePred IsBodyCall
  | killTask _ _ => isTrue trivial
  | spawnTask _ _ => isTrue trivial
  | setContext _ => isTrue trivial
  | prepareNext _ => isFalse id
  | finishTask => isFalse id

end Event

inductive Step : Kernel → Event → Kernel → Prop
  | idle {s s' : Scheduler} {tick : UInt64}
      (hprep : s.prepareNext tick = .ok (none, s')) :
      Step ⟨s, none⟩ (.prepareNext none) ⟨s', none⟩
  | dispatch {s s' : Scheduler} {tick : UInt64}
      {idx : Nat} {func : TaskFn} {ctx : TaskContext}
      (hprep : s.prepareNext tick = .ok (some (idx, func, ctx), s')) :
      Step ⟨s, none⟩ (.prepareNext (some idx)) ⟨s', some (idx, ctx)⟩
  | kill {s s' : Scheduler} {body : Nat × TaskContext}
      {id : Nat} {killed : Bool}
      (hkill : killTask s id = (killed, s')) :
      Step ⟨s, some body⟩ (.killTask id killed) ⟨s', some body⟩
  | spawn {s s' : Scheduler} {body : Nat × TaskContext}
      {name : String} {spawned : Option Nat}
      (hspawn : spawnTask s name = (spawned, s')) :
      Step ⟨s, some body⟩ (.spawnTask name spawned) ⟨s', some body⟩
  | context {s : Scheduler} {idx : Nat} {ctx ctx' : TaskContext} :
      Step ⟨s, some (idx, ctx)⟩ (.setContext ctx') ⟨s, some (idx, ctx')⟩
  | finish {s s' : Scheduler} {idx : Nat} {ctx : TaskContext}
      (hfinish : s.finishTask idx ctx = .ok s') :
      Step ⟨s, some (idx, ctx)⟩ .finishTask ⟨s', none⟩

/-- The state after an event, if the code can produce that event at tick 0. -/
def Kernel.after (k : Kernel) : Event → Option Kernel
  | .prepareNext dispatched =>
      match k.running, k.sched.prepareNext 0 with
      | none, .ok (none, s') =>
          if dispatched = none then some ⟨s', none⟩ else none
      | none, .ok (some (idx, _, ctx), s') =>
          if dispatched = some idx then some ⟨s', some (idx, ctx)⟩ else none
      | _, _ => none
  | .killTask id killed =>
      match k.running with
      | some body =>
          if (killTask k.sched id).1 = killed then
            some ⟨(killTask k.sched id).2, some body⟩
          else none
      | none => none
  | .spawnTask name spawned =>
      match k.running with
      | some body =>
          if (spawnTask k.sched name).1 = spawned then
            some ⟨(spawnTask k.sched name).2, some body⟩
          else none
      | none => none
  | .setContext ctx =>
      match k.running with
      | some (idx, _) => some ⟨k.sched, some (idx, ctx)⟩
      | none => none
  | .finishTask =>
      match k.running with
      | some (idx, ctx) =>
          match k.sched.finishTask idx ctx with
          | .ok s' => some ⟨s', none⟩
          | .error _ => none
      | none => none

/-- Replay a list of events, keeping the states that it leaves. -/
def Kernel.replay (k : Kernel) : List Event → Option (List (Kernel × Event) × Kernel)
  | [] => some ([], k)
  | e :: es =>
      match k.after e with
      | some k' => (k'.replay es).map (fun r => ((k, e) :: r.1, r.2))
      | none => none

/-- The `add_task` calls of the boot, on an empty table. -/
def fill (jobs : List (String × TaskFn)) : Except Panic Scheduler :=
  jobs.foldlM (fun s job => (s.addTask job.1 job.2).map Prod.snd) Scheduler.new

/-- The kernel as `run` finds it after the boot. -/
def Booted (k : Kernel) : Prop :=
  ∃ jobs s, fill jobs = .ok s ∧ k = ⟨s, none⟩

def Reachable (k : Kernel) : Prop :=
  ∃ k₀ tr, Booted k₀ ∧ Run Step k₀ tr k

namespace Reachable

theorem of_booted
    {k : Kernel}
    (h : Booted k) :
    Reachable k :=
  ⟨k, [], h, Run.nil k⟩

theorem run
    {k k' : Kernel} {tr : List (Kernel × Event)}
    (h : Reachable k)
    (hrun : Run Step k tr k') :
    Reachable k' := by
  obtain ⟨k₀, tr₀, hboot, hrun₀⟩ := h
  exact ⟨k₀, tr₀ ++ tr, hboot, hrun₀.append hrun⟩

theorem step
    {k k' : Kernel} {e : Event}
    (h : Reachable k)
    (hstep : Step k e k') :
    Reachable k' :=
  h.run (Run.single hstep)

end Reachable

theorem step_of_after
    {k k' : Kernel} {e : Event}
    (h : k.after e = some k') :
    Step k e k' := by
  obtain ⟨s, running⟩ := k
  cases e with
  | prepareNext dispatched =>
      cases running with
      | some body => simp [Kernel.after] at h
      | none =>
          rcases hprep : s.prepareNext 0 with err | ⟨_ | ⟨idx, func, ctx⟩, s'⟩
          · simp [Kernel.after, hprep] at h
          · simp only [Kernel.after, hprep, Option.ite_none_right_eq_some,
              Option.some.injEq] at h
            obtain ⟨rfl, rfl⟩ := h
            exact Step.idle hprep
          · simp only [Kernel.after, hprep, Option.ite_none_right_eq_some,
              Option.some.injEq] at h
            obtain ⟨rfl, rfl⟩ := h
            exact Step.dispatch hprep
  | killTask id killed =>
      cases running with
      | none => simp [Kernel.after] at h
      | some body =>
          simp only [Kernel.after, Option.ite_none_right_eq_some,
            Option.some.injEq] at h
          obtain ⟨rfl, rfl⟩ := h
          exact Step.kill rfl
  | spawnTask name spawned =>
      cases running with
      | none => simp [Kernel.after] at h
      | some body =>
          simp only [Kernel.after, Option.ite_none_right_eq_some,
            Option.some.injEq] at h
          obtain ⟨rfl, rfl⟩ := h
          exact Step.spawn rfl
  | setContext ctx =>
      rcases running with _ | ⟨idx, ctx'⟩
      · simp [Kernel.after] at h
      · simp only [Kernel.after, Option.some.injEq] at h
        subst h
        exact Step.context
  | finishTask =>
      rcases running with _ | ⟨idx, ctx⟩
      · simp [Kernel.after] at h
      · rcases hfin : s.finishTask idx ctx with err | s'
        · simp [Kernel.after, hfin] at h
        · simp only [Kernel.after, hfin, Option.some.injEq] at h
          subst h
          exact Step.finish hfin

/-- A replay is a run with the given events. -/
theorem run_of_replay
    (es : List Event)
    {k k' : Kernel} {tr : List (Kernel × Event)}
    (h : k.replay es = some (tr, k')) :
    Run Step k tr k' ∧ tr.map Prod.snd = es := by
  induction es generalizing k tr with
  | nil =>
      simp only [Kernel.replay, Option.some.injEq, Prod.mk.injEq] at h
      obtain ⟨rfl, rfl⟩ := h
      exact ⟨Run.nil k, rfl⟩
  | cons e es ih =>
      rcases hafter : k.after e with _ | k₁
      · simp [Kernel.replay, hafter] at h
      · simp only [Kernel.replay, hafter, Option.map_eq_some_iff] at h
        obtain ⟨⟨tr', k₂⟩, hrest, hr⟩ := h
        simp only [Prod.mk.injEq] at hr
        obtain ⟨rfl, rfl⟩ := hr
        obtain ⟨hrun, hes⟩ := ih hrest
        exact ⟨Run.cons (step_of_after hafter) hrun, by simp [hes]⟩

/-- The trace and the last state of a replay. -/
def Kernel.replayed (k : Kernel) (es : List Event) : List (Kernel × Event) × Kernel :=
  (k.replay es).getD ([], k)

/-- A replay that goes through, as a run. -/
theorem run_replayed
    (k : Kernel) (es : List Event)
    (h : (k.replay es).isSome) :
    Run Step k (k.replayed es).1 (k.replayed es).2 ∧
      (k.replayed es).1.map Prod.snd = es := by
  obtain ⟨⟨tr, k'⟩, hreplay⟩ := Option.isSome_iff_exists.1 h
  rw [Kernel.replayed, hreplay]
  exact run_of_replay es hreplay

/-- The kernel after the `add_task` calls of `init`. -/
def initKernel : Kernel where
  sched :=
    { tasks := #v[some (Task.new "idle" .idleTask),
        some (Task.new "worker-a" .workerTask),
        some (Task.new "worker-b" .loggerTask),
        some (Task.new "shell" .shellTask), none, none, none, none]
      current := 0 }
  running := none

theorem booted_initKernel :
    Booted initKernel :=
  ⟨initJobs, initKernel.sched, by decide, rfl⟩

/-- The context that `ctx.yield_now()` leaves in a fresh dispatch. -/
def yieldedContext (idx : Nat) : TaskContext :=
  TaskContext.yieldNow
    { task_id := idx, tick := 0, yielded := false, finished := false }

/-- A dispatch whose body makes the given calls and then yields. -/
def yieldingDispatch (idx : Nat) (calls : List Event) : List Event :=
  .prepareNext (some idx) :: calls ++
    [.setContext (yieldedContext idx), .finishTask]

/-- What every reachable kernel state satisfies. -/
structure SlotInvariant (k : Kernel) : Prop where
  /-- Only the dispatched slot is Running. -/
  running_dispatched : ∀ idx, k.sched.stateAt idx = some .Running →
    ∃ ctx, k.running = some (idx, ctx)
  /-- The dispatched slot still holds a task. -/
  dispatched_occupied : ∀ idx ctx, k.running = some (idx, ctx) →
    ∃ task, k.sched.slot idx = some task
  current_lt : k.sched.current < MAX_TASKS

section Boot

/-- Every slot of a freshly filled table is empty or Ready. -/
def Fresh (s : Scheduler) : Prop :=
  s.current = 0 ∧ ∀ idx task, s.slot idx = some task → task.state = .Ready

theorem fresh_addTask
    {s s' : Scheduler} {name : String} {func : TaskFn} {idx : Nat}
    (h : Fresh s)
    (hadd : s.addTask name func = .ok (idx, s')) :
    Fresh s' := by
  obtain ⟨hlt, _, rfl⟩ := Scheduler.addTask_eq_ok hadd
  refine ⟨h.1, ?_⟩
  intro j task hslot
  by_cases hij : idx = j
  · subst hij
    rw [Scheduler.slot_setSlot_self _ _ hlt] at hslot
    cases hslot
    rfl
  · rw [Scheduler.slot_setSlot_ne _ _ hij] at hslot
    exact h.2 j task hslot

theorem fresh_foldlM
    (jobs : List (String × TaskFn))
    {s s' : Scheduler}
    (h : Fresh s)
    (hfold : jobs.foldlM
      (fun s job => (s.addTask job.1 job.2).map Prod.snd) s = .ok s') :
    Fresh s' := by
  induction jobs generalizing s with
  | nil =>
      simp only [List.foldlM_nil, pure, Except.pure, Except.ok.injEq] at hfold
      exact hfold ▸ h
  | cons job jobs ih =>
      rcases hadd : s.addTask job.1 job.2 with e | ⟨idx, t⟩
      · simp [hadd, Except.map, bind, Except.bind] at hfold
      · simp only [List.foldlM_cons, hadd, Except.map, bind, Except.bind] at hfold
        exact ih (fresh_addTask h hadd) hfold

theorem fresh_fill
    {jobs : List (String × TaskFn)} {s : Scheduler}
    (h : fill jobs = .ok s) :
    Fresh s :=
  fresh_foldlM jobs ⟨rfl, by simp⟩ h

theorem slotInvariant_booted
    {k : Kernel}
    (h : Booted k) :
    SlotInvariant k := by
  obtain ⟨jobs, s, hfill, rfl⟩ := h
  obtain ⟨hcurrent, hready⟩ := fresh_fill hfill
  refine ⟨?_, ?_, ?_⟩
  · intro idx hrun
    obtain ⟨task, hslot, hstate⟩ := Scheduler.stateAt_eq_some_iff.1 hrun
    rw [hready idx task hslot] at hstate
    cases hstate
  · intro idx ctx hrunning
    cases hrunning
  · show s.current < MAX_TASKS
    rw [hcurrent]
    decide

end Boot

section Steps

variable {k k' : Kernel} {e : Event}

open Scheduler

theorem stateAt_setSlot
    (s : Scheduler) {idx : Nat} (j : Nat) (task : Task)
    (h : idx < MAX_TASKS) :
    (s.setSlot idx task).stateAt j =
      if idx = j then some task.state else s.stateAt j := by
  unfold stateAt
  by_cases hij : idx = j
  · subst hij
    simp [h]
  · simp [hij]

theorem stateAt_finishTask
    {s s' : Scheduler} {idx : Nat} {ctx : TaskContext} (j : Nat)
    (h : s.finishTask idx ctx = .ok s') :
    s'.stateAt j =
      if idx = j then some (if ctx.finished then .Finished else .Ready)
      else s.stateAt j := by
  obtain ⟨task, hslot, _⟩ := finishTask_eq_ok_iff.1 h
  unfold stateAt
  rw [finishTask_slot h]
  by_cases hij : idx = j
  · subst hij
    simp [hslot]
  · simp [hij]

/-- What a step writes to the table. -/
theorem Step.table_cases
    (h : Step k e k') :
    (e.KeepsTable ∧ k'.sched = k.sched) ∨
    (∃ idx task, e = .prepareNext (some idx) ∧
      k.sched.slot idx = some task ∧ task.state = .Ready ∧
      k'.sched =
        k.sched.setSlot idx { task with state := .Running, runs := task.runs + 1 }) ∨
    (∃ idx task, e = .killTask idx true ∧ k.sched.slot idx = some task ∧
      k'.sched = k.sched.setSlot idx { task with state := .Finished }) ∨
    (∃ name idx, e = .spawnTask name (some idx) ∧ idx < MAX_TASKS ∧
      (k.sched.slot idx = none ∨ k.sched.stateAt idx = some .Finished) ∧
      k'.sched = k.sched.setSlot idx (Task.new name .workerTask)) ∨
    (∃ idx ctx, e = .finishTask ∧ k.running = some (idx, ctx) ∧
      k.sched.finishTask idx ctx = .ok k'.sched) := by
  cases h with
  | idle hprep =>
      rcases prepareNext_eq_ok hprep with ⟨_, rfl, _⟩ | ⟨_, _, _, _, _, hr, _⟩
      · exact .inl ⟨trivial, rfl⟩
      · cases hr
  | @dispatch s s' tick j func ctx hprep =>
      rcases prepareNext_eq_ok hprep with
        ⟨hr, _, _⟩ | ⟨j', task, _, hslot, hstate, hr, rfl⟩
      · cases hr
      · obtain rfl : j = j' := by simp at hr; exact hr.1
        exact .inr (.inl ⟨j, task, rfl, hslot, hstate, rfl⟩)
  | @kill s s' body id killed hkill =>
      cases killed with
      | true =>
          obtain ⟨task, hslot, rfl⟩ := killTask_eq_true_iff.1 hkill
          exact .inr (.inr (.inl ⟨id, task, rfl, hslot, rfl⟩))
      | false =>
          obtain ⟨_, rfl⟩ := killTask_eq_false_iff.1 hkill
          exact .inl ⟨trivial, rfl⟩
  | @spawn s s' body name spawned hspawn =>
      cases spawned with
      | some j =>
          obtain ⟨hlt, hfree, rfl⟩ := spawnTask_eq_some hspawn
          exact .inr (.inr (.inr (.inl ⟨name, j, rfl, hlt, hfree, rfl⟩)))
      | none =>
          obtain ⟨rfl, _⟩ := spawnTask_eq_none_iff.1 hspawn
          exact .inl ⟨trivial, rfl⟩
  | context => exact .inl ⟨trivial, rfl⟩
  | @finish s s' idx ctx hfinish =>
      exact .inr (.inr (.inr (.inr ⟨idx, ctx, rfl, rfl, hfinish⟩)))

/-- A slot once occupied never becomes empty. -/
theorem Step.occupied
    (h : Step k e k')
    {idx : Nat}
    (hocc : (k.sched.slot idx).isSome) :
    (k'.sched.slot idx).isSome := by
  have hset : ∀ (j : Nat) (task : Task),
      ((k.sched.setSlot j task).slot idx).isSome := by
    intro j task
    rw [slot_setSlot]
    split <;> simp [hocc]
  rcases h.table_cases with
    ⟨_, hsame⟩ | ⟨_, _, _, _, _, ht⟩ | ⟨_, _, _, _, ht⟩ | ⟨_, _, _, _, _, ht⟩ |
      ⟨_, _, _, _, hfinish⟩
  · exact hsame ▸ hocc
  · exact ht ▸ hset _ _
  · exact ht ▸ hset _ _
  · exact ht ▸ hset _ _
  · rw [finishTask_slot hfinish]
    split
    · simpa using hocc
    · exact hocc

/-- The states that a step can give to a slot. -/
theorem Step.stateAt_cases
    (h : Step k e k')
    (idx : Nat) :
    k'.sched.stateAt idx = k.sched.stateAt idx ∨
    (e = .prepareNext (some idx) ∧ k.sched.stateAt idx = some .Ready ∧
      k'.sched.stateAt idx = some .Running) ∨
    (e = .killTask idx true ∧ k'.sched.stateAt idx = some .Finished) ∨
    (∃ name, e = .spawnTask name (some idx) ∧
      (k.sched.slot idx = none ∨ k.sched.stateAt idx = some .Finished) ∧
      k'.sched.slot idx = some (Task.new name .workerTask)) ∨
    (∃ ctx, e = .finishTask ∧ k.running = some (idx, ctx) ∧
      k'.sched.stateAt idx =
        some (if ctx.finished then .Finished else .Ready)) := by
  rcases h.table_cases with
    ⟨_, hsame⟩ | ⟨j, task, rfl, hslot, hstate, ht⟩ | ⟨j, task, rfl, hslot, ht⟩ |
      ⟨name, j, rfl, hlt, hfree, ht⟩ | ⟨j, ctx, rfl, hrunning, hfinish⟩
  · exact .inl (by rw [hsame])
  · have hst := stateAt_setSlot k.sched idx
      { task with state := .Running, runs := task.runs + 1 } (lt_of_slot hslot)
    rw [ht]
    by_cases hij : j = idx
    · subst hij
      have hready := stateAt_eq_some_iff.2 ⟨task, hslot, hstate⟩
      exact .inr (.inl ⟨rfl, hready, hst.trans (if_pos rfl)⟩)
    · exact .inl (hst.trans (if_neg hij))
  · have hst := stateAt_setSlot k.sched idx
      { task with state := .Finished } (lt_of_slot hslot)
    rw [ht]
    by_cases hij : j = idx
    · subst hij
      exact .inr (.inr (.inl ⟨rfl, hst.trans (if_pos rfl)⟩))
    · exact .inl (hst.trans (if_neg hij))
  · rw [ht]
    by_cases hij : j = idx
    · subst hij
      have hnew := slot_setSlot_self k.sched (Task.new name .workerTask) hlt
      exact .inr (.inr (.inr (.inl ⟨name, rfl, hfree, hnew⟩)))
    · exact .inl ((stateAt_setSlot k.sched idx _ hlt).trans (if_neg hij))
  · have hst := stateAt_finishTask idx hfinish
    by_cases hij : j = idx
    · subst hij
      exact .inr (.inr (.inr (.inr ⟨ctx, rfl, hrunning, hst.trans (if_pos rfl)⟩)))
    · exact .inl (hst.trans (if_neg hij))

/-- Where the loop stands after a step. -/
theorem Step.running_cases
    (h : Step k e k') :
    (k.running = none ∧ k'.running = none ∧ e = .prepareNext none) ∨
    (∃ idx ctx, k.running = none ∧ k'.running = some (idx, ctx) ∧
      e = .prepareNext (some idx) ∧ k'.sched.stateAt idx = some .Running) ∨
    (∃ idx ctx ctx', k.running = some (idx, ctx) ∧
      k'.running = some (idx, ctx') ∧ e.IsBodyCall) ∨
    (∃ idx ctx, k.running = some (idx, ctx) ∧ k'.running = none ∧
      e = .finishTask ∧
      k'.sched.stateAt idx =
        some (if ctx.finished then .Finished else .Ready)) := by
  cases h with
  | idle => exact .inl ⟨rfl, rfl, rfl⟩
  | @dispatch s s' tick j func ctx hprep =>
      refine .inr (.inl ⟨j, ctx, rfl, rfl, rfl, ?_⟩)
      rcases prepareNext_eq_ok hprep with
        ⟨hr, _, _⟩ | ⟨j', task, _, hslot, _, hr, rfl⟩
      · cases hr
      · obtain rfl : j = j' := by simp at hr; exact hr.1
        exact (stateAt_setSlot s j _ (lt_of_slot hslot)).trans (if_pos rfl)
  | @kill s s' body id killed hkill =>
      exact .inr (.inr (.inl ⟨body.1, body.2, body.2, rfl, rfl, trivial⟩))
  | @spawn s s' body name spawned hspawn =>
      exact .inr (.inr (.inl ⟨body.1, body.2, body.2, rfl, rfl, trivial⟩))
  | @context s idx ctx ctx' =>
      exact .inr (.inr (.inl ⟨idx, ctx, ctx', rfl, rfl, trivial⟩))
  | @finish s s' idx ctx hfinish =>
      refine .inr (.inr (.inr ⟨idx, ctx, rfl, rfl, rfl, ?_⟩))
      exact (stateAt_finishTask idx hfinish).trans (if_pos rfl)

/-- `current` moves in `finish_task` only. -/
theorem Step.current_cases
    (h : Step k e k') :
    k'.sched.current = k.sched.current ∨
    ∃ idx ctx, k.running = some (idx, ctx) ∧ idx < MAX_TASKS ∧
      k'.sched.current =
        if ctx.yielded then (idx + 1) % MAX_TASKS else idx := by
  rcases h.table_cases with
    ⟨_, hsame⟩ | ⟨_, _, _, _, _, ht⟩ | ⟨_, _, _, _, ht⟩ | ⟨_, _, _, _, _, ht⟩ |
      ⟨idx, ctx, _, hrunning, hfinish⟩
  · exact .inl (by rw [hsame])
  · exact .inl (by rw [ht, current_setSlot])
  · exact .inl (by rw [ht, current_setSlot])
  · exact .inl (by rw [ht, current_setSlot])
  · obtain ⟨task, hslot, _⟩ := finishTask_eq_ok_iff.1 hfinish
    exact .inr ⟨idx, ctx, hrunning, lt_of_slot hslot, finishTask_current hfinish⟩

theorem slotInvariant_step
    (hinv : SlotInvariant k)
    (h : Step k e k') :
    SlotInvariant k' := by
  refine ⟨?_, ?_, ?_⟩
  · intro idx hrun
    rcases h.stateAt_cases idx with
      hsame | ⟨rfl, _, _⟩ | ⟨_, hst⟩ | ⟨_, _, _, hst⟩ | ⟨ctx, _, _, hst⟩
    · -- a Running slot that did not move is the dispatched one, still running
      obtain ⟨ctx, hctx⟩ := hinv.running_dispatched idx (hsame ▸ hrun)
      rcases h.running_cases with
        ⟨hnone, _⟩ | ⟨_, _, hnone, _⟩ | ⟨j, _, ctx', hj, hj', _⟩ | ⟨j, ctx', hj, _, _, hst⟩
      · simp [hctx] at hnone
      · simp [hctx] at hnone
      · obtain ⟨rfl, _⟩ : idx = j ∧ _ := by simpa [hctx] using hj
        exact ⟨ctx', hj'⟩
      · obtain ⟨rfl, _⟩ : idx = j ∧ _ := by simpa [hctx] using hj
        rw [hrun] at hst
        split at hst <;> cases hst
    · rcases h.running_cases with
        ⟨_, _, he⟩ | ⟨j, ctx, _, hj, he, _⟩ | ⟨_, _, _, _, _, hbody⟩ | ⟨_, _, _, _, he, _⟩
      · cases he
      · cases he
        exact ⟨ctx, hj⟩
      · exact hbody.elim
      · cases he
    · rw [hrun] at hst
      cases hst
    · rw [stateAt, hst] at hrun
      cases hrun
    · rw [hrun] at hst
      split at hst <;> cases hst
  · intro idx ctx hrunning
    rcases h.running_cases with
      ⟨_, hnone, _⟩ | ⟨j, ctx', _, hj, _, hst⟩ | ⟨j, ctx', _, hj, hj', _⟩ | ⟨_, _, _, hnone, _⟩
    · simp [hrunning] at hnone
    · obtain ⟨rfl, _⟩ : idx = j ∧ _ := by simpa [hrunning] using hj
      obtain ⟨task, hslot, _⟩ := stateAt_eq_some_iff.1 hst
      exact ⟨task, hslot⟩
    · obtain ⟨rfl, _⟩ : idx = j ∧ _ := by simpa [hrunning] using hj'
      obtain ⟨task, hslot⟩ := hinv.dispatched_occupied idx ctx' hj
      exact Option.isSome_iff_exists.1 (h.occupied (by simp [hslot]))
    · simp [hrunning] at hnone
  · rcases h.current_cases with hcur | ⟨idx, ctx, _, hlt, hcur⟩
    · rw [hcur]
      exact hinv.current_lt
    · rw [hcur]
      split
      · exact Nat.mod_lt _ (by decide)
      · exact hlt

/-- The slot invariant is kept along every run. -/
theorem SlotInvariant.run
    {tr : List (Kernel × Event)}
    (hinv : SlotInvariant k)
    (hrun : Run Step k tr k') :
    SlotInvariant k' := by
  have hkeep : ∀ s a t, SlotInvariant s → Step s a t → SlotInvariant t :=
    fun _ _ _ hinv hst => slotInvariant_step hinv hst
  exact Run.invariant hkeep hrun hinv

/-- The slot invariant holds in every reachable kernel state. -/
theorem Reachable.slotInvariant
    (h : Reachable k) :
    SlotInvariant k := by
  obtain ⟨k₀, tr, hboot, hrun⟩ := h
  exact (slotInvariant_booted hboot).run hrun

/-- The occupied slots only grow along a run. -/
theorem occupied_run
    {tr : List (Kernel × Event)}
    (hrun : Run Step k tr k')
    {idx : Nat}
    (hocc : (k.sched.slot idx).isSome) :
    (k'.sched.slot idx).isSome := by
  have hkeep : ∀ (s : Kernel) a t, (s.sched.slot idx).isSome →
      Step s a t → (t.sched.slot idx).isSome :=
    fun _ _ _ hs hst => hst.occupied hs
  exact Run.invariant hkeep hrun hocc

end Steps

section SlotTheorem

open Scheduler

/-- The slots that `spawn_task` takes are neither Ready nor Running. -/
theorem not_active_of_free
    {s : Scheduler} {idx : Nat}
    (h : s.slot idx = none ∨ s.stateAt idx = some .Finished) :
    s.stateAt idx ≠ some .Ready ∧ s.stateAt idx ≠ some .Running := by
  rcases h with hempty | hfinished
  · simp [stateAt, hempty]
  · simp [hfinished]

/-- `spawn_task` as its callers see it. -/
theorem spawnTask_spec
    (s : Scheduler) (name : String) :
    (∃ idx s', spawnTask s name = (some idx, s') ∧ idx < MAX_TASKS ∧
      s.stateAt idx ≠ some .Ready ∧ s.stateAt idx ≠ some .Running ∧
      s'.slot idx = some (Task.new name .workerTask) ∧
      ∀ j, j ≠ idx → s'.slot j = s.slot j) ∨
    (spawnTask s name = (none, s) ∧
      ∀ idx, idx < MAX_TASKS →
        s.stateAt idx = some .Ready ∨ s.stateAt idx = some .Running) := by
  rcases hspawn : spawnTask s name with ⟨_ | idx, s'⟩
  · obtain ⟨rfl, hfull⟩ := spawnTask_eq_none_iff.1 hspawn
    exact .inr ⟨rfl, hfull⟩
  · obtain ⟨hlt, hfree, rfl⟩ := spawnTask_eq_some hspawn
    obtain ⟨hready, hrunning⟩ := not_active_of_free hfree
    refine .inl ⟨idx, _, rfl, hlt, hready, hrunning, slot_setSlot_self _ _ hlt, ?_⟩
    intro j hj
    exact slot_setSlot_ne _ _ (Ne.symm hj)

/--
In every state that the dispatch loop reaches from a filled table: a Running
slot is the dispatched one, occupied slots stay occupied, neither half of a
dispatch reaches its `expect`, `current` is an index of the table, and
`spawn_task` takes only a slot that is neither Ready nor Running, failing
exactly when there is none.
-/
theorem dispatch_loop_slot_invariant
    (k : Kernel)
    (h : Reachable k) :
    (k.running = none → ∀ idx, k.sched.stateAt idx ≠ some .Running) ∧
    (∀ idx ctx, k.running = some (idx, ctx) →
      ∀ j, j ≠ idx → k.sched.stateAt j ≠ some .Running) ∧
    (∀ tr k', Run Step k tr k' → ∀ idx,
      (k.sched.slot idx).isSome → (k'.sched.slot idx).isSome) ∧
    (k.running = none → ∀ tick, ∃ r s', k.sched.prepareNext tick = .ok (r, s')) ∧
    (∀ idx ctx, k.running = some (idx, ctx) →
      ∃ s', k.sched.finishTask idx ctx = .ok s') ∧
    k.sched.current < MAX_TASKS ∧
    (∀ name idx s', spawnTask k.sched name = (some idx, s') →
      k.sched.stateAt idx ≠ some .Ready ∧ k.sched.stateAt idx ≠ some .Running ∧
      (∃ task, s'.slot idx = some task ∧ task.state = .Ready ∧ task.runs = 0) ∧
      ∀ j, j ≠ idx → s'.slot j = k.sched.slot j) ∧
    (∀ name, (spawnTask k.sched name).1 = none ↔
      ∀ idx, idx < MAX_TASKS →
        k.sched.stateAt idx = some .Ready ∨ k.sched.stateAt idx = some .Running) := by
  have hinv := h.slotInvariant
  refine ⟨?_, ?_, ?_, ?_, ?_, hinv.current_lt, ?_, ?_⟩
  · intro hnone idx hrun
    obtain ⟨ctx, hctx⟩ := hinv.running_dispatched idx hrun
    simp [hnone] at hctx
  · intro idx ctx hrunning j hj hrun
    obtain ⟨ctx', hctx'⟩ := hinv.running_dispatched j hrun
    obtain ⟨rfl, _⟩ : idx = j ∧ _ := by simpa [hrunning] using hctx'
    exact hj rfl
  · intro tr k' hrun idx hocc
    exact occupied_run hrun hocc
  · intro _ tick
    exact prepareNext_total k.sched tick
  · intro idx ctx hrunning
    obtain ⟨task, hslot⟩ := hinv.dispatched_occupied idx ctx hrunning
    exact ⟨_, finishTask_eq_ok_iff.2 ⟨task, hslot, rfl⟩⟩
  · intro name idx s' hspawn
    rcases spawnTask_spec k.sched name with
      ⟨j, t, hj, _, hready, hrunning, hslot, hframe⟩ | ⟨hnone, _⟩
    · obtain ⟨rfl, rfl⟩ : j = idx ∧ t = s' := by simpa [hj] using hspawn
      exact ⟨hready, hrunning, ⟨_, hslot, rfl, rfl⟩, hframe⟩
    · simp [hnone] at hspawn
  · intro name
    rcases spawnTask_spec k.sched name with
      ⟨j, t, hj, hlt, hready, hrunning, _⟩ | ⟨hnone, hfull⟩
    · rw [hj]
      simp only [reduceCtorEq, false_iff, not_forall]
      refine ⟨j, hlt, ?_⟩
      rintro (hst | hst)
      · exact hready hst
      · exact hrunning hst
    · rw [hnone]
      simpa using hfull

/-- The boot of the repository, until the shell has replaced the idle task. -/
def shellReplacesIdle : List Event :=
  yieldingDispatch 0 [] ++ yieldingDispatch 1 [] ++ yieldingDispatch 2 [] ++
    [.prepareNext (some 3), .killTask 0 true, .spawnTask "user-worker" (some 0)]

theorem dispatch_loop_slot_invariant_init :
    (initKernel.replayed shellReplacesIdle).2.sched.current < MAX_TASKS ∧
    (initKernel.replayed shellReplacesIdle).2.sched.stateAt 2 ≠ some .Running ∧
    ∃ s' task,
      spawnTask (initKernel.replayed shellReplacesIdle).2.sched "user-worker" =
        (some 4, s') ∧
      s'.slot 4 = some task ∧ task.state = .Ready ∧ task.runs = 0 := by
  have hrun := (run_replayed initKernel shellReplacesIdle (by decide)).1
  have hall := dispatch_loop_slot_invariant _
    ((Reachable.of_booted booted_initKernel).run hrun)
  obtain ⟨-, hbody, -, -, -, hcurrent, hspawn, -⟩ := hall
  refine ⟨hcurrent, ?_, ?_⟩
  · exact hbody 3 { task_id := 3, tick := 0, yielded := false, finished := false }
      (by decide) 2 (by decide)
  · obtain ⟨-, -, ⟨task, hslot, hready, hruns⟩, -⟩ :=
      hspawn "user-worker" 4 _ rfl
    exact ⟨_, task, rfl, hslot, hready, hruns⟩

end SlotTheorem

end Scheduling
end OpenKernel
