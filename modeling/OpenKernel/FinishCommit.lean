import OpenKernel.DispatchLoop

/-!
# What `finish_task` commits

`finish_task` identifies the task it commits by its slot alone.  While a body
runs, `kill_task` may have marked that slot Finished, and `spawn_task` may have
put a new task there.  Two properties of the dispatch loop depend on it.

* A killed task instance is never dispatched again.  This fails when a body
  kills its own slot: the commit makes the slot Ready.  It holds for every run
  in which no `finish_task` with an unfinished context meets a Finished slot.
* A task spawned during a body is Ready with no runs after the commit.  This
  fails when the new task stands in the dispatched slot and the context is
  finished, and only then.

Both are stated on the events of a run and proved from what a step can do to
one slot.  In between stands what `kill_task` reports: its answer is right
except for a task that is Finished already (`kill_truthful_iff`).
-/

namespace OpenKernel
namespace Scheduling

open Scheduler

/-- The events of a run, without the states. -/
def events (tr : List (Kernel × Event)) : List Event :=
  tr.map Prod.snd

@[simp] theorem events_append
    (tr₁ tr₂ : List (Kernel × Event)) :
    events (tr₁ ++ tr₂) = events tr₁ ++ events tr₂ :=
  List.map_append

@[simp] theorem events_cons
    (x : Kernel × Event) (tr : List (Kernel × Event)) :
    events (x :: tr) = x.2 :: events tr := rfl

@[simp] theorem events_nil :
    events [] = [] := rfl

section KillFinality

/--
After a successful `kill_task(id)` the slot is dispatched again only if
`spawn_task` has put a new task there in between.
-/
def KillFinal (es : List Event) : Prop :=
  ∀ before id between after,
    es = before ++ .killTask id true :: between ++ .prepareNext (some id) :: after →
    ∃ name, Event.spawnTask name (some id) ∈ between

/-- A commit that leaves a Finished slot Finished. -/
def KeepsFinished (k : Kernel) (e : Event) : Prop :=
  e = .finishTask → ∀ body ∈ k.running,
    k.sched.stateAt body.1 = some .Finished → body.2.finished = true

instance (k : Kernel) (e : Event) : Decidable (KeepsFinished k e) :=
  inferInstanceAs (Decidable (_ → _))

/-- A Finished slot stays Finished until `spawn_task` takes it. -/
theorem finished_step
    {k k' : Kernel} {e : Event} {id : Nat}
    (h : Step k e k')
    (hkeep : KeepsFinished k e)
    (hfin : k.sched.stateAt id = some .Finished) :
    k'.sched.stateAt id = some .Finished ∨
      ∃ name, e = .spawnTask name (some id) := by
  rcases h.stateAt_cases id with
    hsame | ⟨_, hready, _⟩ | ⟨_, hst⟩ | ⟨name, he, _⟩ | ⟨ctx, he, hrunning, hst⟩
  · exact .inl (hsame.trans hfin)
  · rw [hfin] at hready
    cases hready
  · exact .inl hst
  · exact .inr ⟨name, he⟩
  · left
    rw [hst, hkeep he (id, ctx) hrunning hfin]
    rfl

/-- The same along a run of such commits. -/
theorem finished_run
    {k k' : Kernel} {tr : List (Kernel × Event)} {id : Nat}
    (h : Run Step k tr k')
    (hkeep : ∀ x ∈ tr, KeepsFinished x.1 x.2)
    (hfin : k.sched.stateAt id = some .Finished) :
    k'.sched.stateAt id = some .Finished ∨
      ∃ name, Event.spawnTask name (some id) ∈ events tr := by
  induction h with
  | nil => exact .inl hfin
  | @snoc t u a tr before last ih =>
      rcases ih (fun x hx => hkeep x (List.mem_append_left _ hx)) with
        hmid | ⟨name, hmem⟩
      · have hlast : KeepsFinished t a := hkeep (t, a) (by simp)
        rcases finished_step last hlast hmid with hdone | ⟨name, rfl⟩
        · exact .inl hdone
        · exact .inr ⟨name, by simp⟩
      · exact .inr ⟨name, by simp [hmem]⟩

/-- The parts of a run that passes through two given events. -/
theorem events_eq_two
    {tr : List (Kernel × Event)} {k₀ k : Kernel}
    {before between after : List Event} {e₁ e₂ : Event}
    (hrun : Run Step k₀ tr k)
    (hes : events tr = before ++ e₁ :: between ++ e₂ :: after) :
    ∃ tr₁ mid tr₂ k₁ k₂ k₃ k₄,
      tr = tr₁ ++ (k₁, e₁) :: mid ++ (k₃, e₂) :: tr₂ ∧
      events mid = between ∧
      Run Step k₀ tr₁ k₁ ∧ Step k₁ e₁ k₂ ∧ Run Step k₂ mid k₃ ∧
      Step k₃ e₂ k₄ := by
  obtain ⟨front, back, rfl, hfront, hback⟩ := List.map_eq_append_iff.1 hes
  obtain ⟨tr₁, rest, rfl, -, hrest⟩ := List.map_eq_append_iff.1 hfront
  obtain ⟨⟨k₁, a₁⟩, mid, rfl, rfl, hmid⟩ := List.map_eq_cons_iff.1 hrest
  obtain ⟨⟨k₃, a₂⟩, tr₂, rfl, rfl, -⟩ := List.map_eq_cons_iff.1 hback
  obtain ⟨k₃', hmost, hlast⟩ := Run.split hrun
  obtain ⟨rfl, k₄, hstep₂, -⟩ := Run.of_cons hlast
  obtain ⟨k₁', hfirst, hmore⟩ := Run.split hmost
  obtain ⟨rfl, k₂, hstep₁, hmidrun⟩ := Run.of_cons hmore
  exact ⟨tr₁, mid, tr₂, k₁, k₂, k₃, k₄, rfl, hmid, hfirst, hstep₁,
    hmidrun, hstep₂⟩

/-- A successful kill leaves its slot Finished. -/
theorem finished_of_kill
    {k k' : Kernel} {id : Nat}
    (h : Step k (.killTask id true) k') :
    k'.sched.stateAt id = some .Finished := by
  rcases h.table_cases with
    ⟨hkeeps, _⟩ | ⟨_, _, he, _⟩ | ⟨_, task, he, hslot, ht⟩ | ⟨_, _, he, _⟩ | ⟨_, _, he, _⟩
  · exact hkeeps.elim
  · cases he
  · cases he
    rw [ht, stateAt_setSlot _ id _ (lt_of_slot hslot), if_pos rfl]
  · cases he
  · cases he

/-- Only a Ready slot is dispatched. -/
theorem ready_of_dispatch
    {k k' : Kernel} {id : Nat}
    (h : Step k (.prepareNext (some id)) k') :
    k.sched.stateAt id = some .Ready := by
  rcases h.table_cases with
    ⟨hkeeps, _⟩ | ⟨_, task, he, hslot, hstate, _⟩ | ⟨_, _, he, _⟩ | ⟨_, _, he, _⟩ | ⟨_, _, he, _⟩
  · exact hkeeps.elim
  · cases he
    exact stateAt_eq_some_iff.2 ⟨task, hslot, hstate⟩
  · cases he
  · cases he
  · cases he

/-- Killing is final in every run whose commits keep Finished slots Finished. -/
theorem killFinal_of_keepsFinished
    (k₀ k : Kernel) (tr : List (Kernel × Event))
    (hrun : Run Step k₀ tr k)
    (hkeep : ∀ x ∈ tr, KeepsFinished x.1 x.2) :
    KillFinal (events tr) := by
  intro before id between after hes
  obtain ⟨tr₁, mid, tr₂, k₁, k₂, k₃, k₄, rfl, rfl, -, hkill, hmid, hdisp⟩ :=
    events_eq_two hrun hes
  have hfin := finished_of_kill hkill
  have hmidkeep : ∀ x ∈ mid, KeepsFinished x.1 x.2 := by
    intro x hx
    exact hkeep x (by simp [hx])
  rcases finished_run hmid hmidkeep hfin with hstill | hspawn
  · rw [ready_of_dispatch hdisp] at hstill
    cases hstill
  · exact hspawn

/-- `kill 3` in the shell, which itself runs as task 3. -/
def shellKillsItself : List Event :=
  yieldingDispatch 0 [] ++ yieldingDispatch 1 [] ++ yieldingDispatch 2 [] ++
    yieldingDispatch 3 [.killTask 3 true] ++
    yieldingDispatch 0 [] ++ yieldingDispatch 1 [] ++ yieldingDispatch 2 [] ++
    [.prepareNext (some 3)]

/-- The shell is dispatched again after it has killed itself. -/
theorem kill_not_final :
    ¬ ∀ (k₀ k : Kernel) (tr : List (Kernel × Event)),
      Booted k₀ → Run Step k₀ tr k → KillFinal (events tr) := by
  intro hfinal
  obtain ⟨hrun, hes⟩ := run_replayed initKernel shellKillsItself (by decide)
  have hkill := hfinal initKernel _ _ booted_initKernel hrun
  rw [events, hes] at hkill
  obtain ⟨name, hmem⟩ := hkill
    (yieldingDispatch 0 [] ++ yieldingDispatch 1 [] ++ yieldingDispatch 2 [] ++
      [.prepareNext (some 3)]) 3
    ([.setContext (yieldedContext 3), .finishTask] ++ yieldingDispatch 0 [] ++
      yieldingDispatch 1 [] ++ yieldingDispatch 2 []) [] rfl
  simp [yieldingDispatch] at hmem

/-- `kill 1` in the shell; a later `spawn` takes the slot. -/
def shellKillsWorker : List Event :=
  yieldingDispatch 0 [] ++ yieldingDispatch 1 [] ++ yieldingDispatch 2 [] ++
    yieldingDispatch 3 [.killTask 1 true] ++
    yieldingDispatch 0 [] ++ yieldingDispatch 2 [] ++
    yieldingDispatch 3 [.spawnTask "user-worker" (some 1)] ++
    yieldingDispatch 0 [] ++ [.prepareNext (some 1)]

theorem killFinal_of_keepsFinished_worker :
    (initKernel.replay shellKillsWorker).isSome ∧ KillFinal shellKillsWorker := by
  obtain ⟨hrun, hes⟩ := run_replayed initKernel shellKillsWorker (by decide)
  have hkill := killFinal_of_keepsFinished initKernel _ _ hrun (by decide)
  rw [events, hes] at hkill
  exact ⟨by decide, hkill⟩

end KillFinality

section KillReports

/-- `kill_task(id)` reports and ends a task that is not yet Finished, and does nothing
in every other case. -/
def KillTruthful (s : Scheduler) (id : Nat) : Prop :=
  (∀ task, s.slot id = some task → task.state ≠ .Finished →
    killTask s id = (true, s.setSlot id { task with state := .Finished })) ∧
  ((¬ ∃ task, s.slot id = some task ∧ task.state ≠ .Finished) → killTask s id = (false, s))

/-- The answer is wrong for Finished tasks, and only for them: `kill_task` ends them again. -/
theorem kill_truthful_iff
    (s : Scheduler) (id : Nat) :
    KillTruthful s id ↔ s.stateAt id ≠ some .Finished := by
  constructor
  · rintro ⟨-, hother⟩ hfinished
    obtain ⟨task, hslot, hstate⟩ := stateAt_eq_some_iff.1 hfinished
    have hno : ¬ ∃ task, s.slot id = some task ∧ task.state ≠ .Finished := by
      rintro ⟨task', hslot', hstate'⟩
      rw [hslot] at hslot'
      cases hslot'
      exact hstate' hstate
    have hkill : killTask s id = (true, s.setSlot id { task with state := .Finished }) :=
      killTask_eq_true_iff.2 ⟨task, hslot, rfl⟩
    rw [hother hno] at hkill
    cases hkill
  · intro hstate
    refine ⟨fun task hslot _ => killTask_eq_true_iff.2 ⟨task, hslot, rfl⟩, ?_⟩
    intro hno
    have hfree : s.slot id = none := by
      by_contra hsome
      obtain ⟨task, hslot⟩ := Option.ne_none_iff_exists'.1 hsome
      exact hno ⟨task, hslot, fun hfin => hstate (stateAt_eq_some_iff.2 ⟨task, hslot, hfin⟩)⟩
    exact killTask_eq_false_iff.2 ⟨hfree, rfl⟩

/-- `kill 1` in the shell of the booted kernel. -/
def shellKillsOnce : List Event :=
  yieldingDispatch 0 [] ++ yieldingDispatch 1 [] ++ yieldingDispatch 2 [] ++
    [.prepareNext (some 3), .killTask 1 true]

/-- A second `kill 1` is answered with success as well. -/
theorem kill_reports_twice :
    ∃ k, Reachable k ∧ k.sched.stateAt 1 = some .Finished ∧
      (killTask k.sched 1).1 = true ∧ ¬ KillTruthful k.sched 1 := by
  have hrun := (run_replayed initKernel shellKillsOnce (by decide)).1
  refine ⟨(initKernel.replayed shellKillsOnce).2,
    (Reachable.of_booted booted_initKernel).run hrun, by decide, by decide, ?_⟩
  rintro ⟨-, hother⟩
  have hkill := hother (by decide)
  exact absurd (congrArg Prod.fst hkill) (by decide)

end KillReports

section SpawnedTasks

/-- The body has spawned `name` into `slot` and not killed it afterwards. -/
def SpawnedAlive (body : List Event) (name : String) (slot : Nat) : Prop :=
  ∃ before after, body = before ++ .spawnTask name (some slot) :: after ∧
    Event.killTask slot true ∉ after

/-- Every task that the body spawned and did not kill is Ready and has no runs. -/
def CommitsOnlyItsTask (body : List Event) (final : Scheduler) : Prop :=
  ∀ name slot, SpawnedAlive body name slot →
    ∃ task, final.slot slot = some task ∧ task.name = name ∧
      task.state = .Ready ∧ task.runs = 0

/-- A body call moves a slot only by a kill or a spawn at that slot. -/
theorem body_slot_cases
    {k k' : Kernel} {e : Event}
    (h : Step k e k')
    (hbody : e.IsBodyCall)
    (idx : Nat) :
    (k'.sched.slot idx = k.sched.slot idx ∧ e ≠ .killTask idx true ∧
      ∀ name, e ≠ .spawnTask name (some idx)) ∨
    (e = .killTask idx true ∧ k'.sched.stateAt idx = some .Finished) ∨
    (∃ name, e = .spawnTask name (some idx) ∧ k.sched.stateAt idx ≠ some .Ready ∧
      k'.sched.slot idx = some (Task.new name .workerTask)) := by
  rcases h.table_cases with
    ⟨hkeeps, hsame⟩ | ⟨_, _, rfl, _⟩ | ⟨j, task, rfl, hslot, ht⟩ |
      ⟨name, j, rfl, hlt, hfree, ht⟩ | ⟨_, _, rfl, _⟩
  · refine .inl ⟨by rw [hsame], ?_, ?_⟩
    · rintro rfl
      exact hkeeps
    · rintro name rfl
      exact hkeeps
  · exact hbody.elim
  · by_cases hij : j = idx
    · subst hij
      refine .inr (.inl ⟨rfl, ?_⟩)
      rw [ht, stateAt_setSlot _ j _ (lt_of_slot hslot), if_pos rfl]
    · exact .inl ⟨by rw [ht, slot_setSlot_ne _ _ hij], by simp [hij], by simp⟩
  · by_cases hij : j = idx
    · subst hij
      refine .inr (.inr ⟨name, rfl, (not_active_of_free hfree).1, ?_⟩)
      rw [ht, slot_setSlot_self _ _ hlt]
    · exact .inl ⟨by rw [ht, slot_setSlot_ne _ _ hij], by simp, by simp [hij]⟩
  · exact hbody.elim

variable {k k' : Kernel} {tr : List (Kernel × Event)}

/-- A new task stays as it is until the body kills it. -/
theorem new_task_stays
    {name : String} {idx : Nat}
    (h : Run Step k tr k')
    (hbody : ∀ x ∈ tr, x.2.IsBodyCall)
    (hnew : k.sched.slot idx = some (Task.new name .workerTask))
    (hkill : Event.killTask idx true ∉ events tr) :
    k'.sched.slot idx = some (Task.new name .workerTask) := by
  induction h with
  | nil => exact hnew
  | @snoc t u a tr before last ih =>
      simp only [events_append, events_cons, events_nil, List.mem_append,
        List.mem_singleton, not_or] at hkill
      have hmid := ih (fun x hx => hbody x (List.mem_append_left _ hx)) hkill.1
      rcases body_slot_cases last (hbody (t, a) (by simp)) idx with
        ⟨hsame, -⟩ | ⟨rfl, -⟩ | ⟨_, _, hready, _⟩
      · exact hsame.trans hmid
      · exact absurd rfl hkill.2
      · exact absurd (stateAt_eq_some_iff.2 ⟨_, hmid, rfl⟩) hready

/-- A spawned task that the body has not killed stands in its slot. -/
theorem spawnedAlive_slot
    {name : String} {idx : Nat}
    (h : Run Step k tr k')
    (hbody : ∀ x ∈ tr, x.2.IsBodyCall)
    (halive : SpawnedAlive (events tr) name idx) :
    k'.sched.slot idx = some (Task.new name .workerTask) := by
  obtain ⟨before, after, hes, hkill⟩ := halive
  obtain ⟨tr₁, rest, rfl, -, hrest⟩ := List.map_eq_append_iff.1 hes
  obtain ⟨⟨k₁, a⟩, tr₂, rfl, rfl, rfl⟩ := List.map_eq_cons_iff.1 hrest
  obtain ⟨k₁', -, hmore⟩ := Run.split h
  obtain ⟨rfl, k₂, hspawn, htail⟩ := Run.of_cons hmore
  have hcall : ∀ x ∈ tr₂, x.2.IsBodyCall := by
    intro x hx
    exact hbody x (by simp [hx])
  refine new_task_stays htail hcall ?_ hkill
  rcases body_slot_cases hspawn trivial idx with ⟨_, _, hne⟩ | ⟨he, _⟩ | ⟨n, he, _, hslot⟩
  · exact absurd rfl (hne name)
  · cases he
  · obtain rfl : name = n := by simpa using he
    exact hslot

/-- A slot that the body made Ready holds a task that it spawned there. -/
theorem spawnedAlive_of_ready
    {idx : Nat}
    (h : Run Step k tr k')
    (hbody : ∀ x ∈ tr, x.2.IsBodyCall)
    (hstart : k.sched.stateAt idx ≠ some .Ready)
    (hready : k'.sched.stateAt idx = some .Ready) :
    ∃ name, SpawnedAlive (events tr) name idx := by
  induction h with
  | nil => exact absurd hready hstart
  | @snoc t u a tr before last ih =>
      rcases body_slot_cases last (hbody (t, a) (by simp)) idx with
        ⟨hsame, hkill, -⟩ | ⟨-, hfin⟩ | ⟨name, rfl, -, -⟩
      · have hmid : t.sched.stateAt idx = some .Ready := by
          rw [stateAt, ← hsame]
          exact hready
        obtain ⟨name, front, back, hes, hnot⟩ :=
          ih (fun x hx => hbody x (List.mem_append_left _ hx)) hmid
        refine ⟨name, front, back ++ [a], by simp [hes], ?_⟩
        simp [hnot, Ne.symm hkill]
      · rw [hready] at hfin
        cases hfin
      · exact ⟨name, events tr, [], by simp, by simp⟩

/--
The commit of a dispatch spares every task that its body spawned, exactly when
it does not mark Finished a slot that the body has made Ready.
-/
theorem finish_commits_iff
    (k₀ k₁ k₂ k₃ : Kernel) (body : List (Kernel × Event))
    (idx : Nat) (ctx : TaskContext)
    (hprep : Step k₀ (.prepareNext (some idx)) k₁)
    (hrun : Run Step k₁ body k₂)
    (hbody : ∀ x ∈ body, x.2.IsBodyCall)
    (hctx : k₂.running = some (idx, ctx))
    (hfinish : Step k₂ .finishTask k₃) :
    CommitsOnlyItsTask (events body) k₃.sched ↔
      (ctx.finished = true → k₂.sched.stateAt idx ≠ some .Ready) := by
  have hstart : k₁.sched.stateAt idx ≠ some .Ready := by
    rcases hprep.running_cases with
      ⟨_, _, he⟩ | ⟨j, _, _, _, he, hst⟩ | ⟨_, _, _, _, _, hcall⟩ | ⟨_, _, _, _, he, _⟩
    · cases he
    · cases he
      simp [hst]
    · exact hcall.elim
    · cases he
  have hslot : ∀ j, k₃.sched.slot j =
      if idx = j then
        (k₂.sched.slot j).map (fun task =>
          { task with state := if ctx.finished then .Finished else .Ready })
      else k₂.sched.slot j := by
    intro j
    cases hfinish with
    | finish hfin =>
        cases hctx
        exact finishTask_slot hfin
  constructor
  · intro hcommit hfin hready
    obtain ⟨name, halive⟩ := spawnedAlive_of_ready hrun hbody hstart hready
    obtain ⟨task, htask, -, hstate, -⟩ := hcommit name idx halive
    rw [hslot, if_pos rfl, Option.map_eq_some_iff] at htask
    obtain ⟨old, -, rfl⟩ := htask
    simp [hfin] at hstate
  · intro hcond name slot halive
    have hnew := spawnedAlive_slot hrun hbody halive
    rw [hslot, hnew]
    by_cases hij : idx = slot
    · subst hij
      have hunfinished : ctx.finished = false := by
        by_contra hfin
        have hready : k₂.sched.stateAt idx = some .Ready :=
          stateAt_eq_some_iff.2 ⟨_, hnew, rfl⟩
        exact hcond (by simpa using hfin) hready
      exact ⟨_, if_pos rfl, rfl, by simp [hunfinished], rfl⟩
    · exact ⟨_, if_neg hij, rfl, rfl, rfl⟩

/-- The first dispatch of the repository's boot: the kernel while its body runs. -/
def firstBody : Kernel :=
  (initKernel.replayed [.prepareNext (some 0)]).2

/-- The context of the first dispatch, finished. -/
def finishedContext : TaskContext :=
  TaskContext.finish
    { task_id := 0, tick := 0, yielded := false, finished := false }

/-- A body that replaces the given task and finishes. -/
def replaceTask (slot : Nat) : List Event :=
  [.killTask slot true, .spawnTask "user-worker" (some slot),
    .setContext finishedContext]

/-- A body that replaces its own task and finishes loses the new task. -/
theorem finish_commits_to_new_task :
    ¬ ∀ (k₀ k₁ k₂ k₃ : Kernel) (body : List (Kernel × Event)) (idx : Nat),
      Reachable k₀ → Step k₀ (.prepareNext (some idx)) k₁ →
      Run Step k₁ body k₂ → (∀ x ∈ body, x.2.IsBodyCall) →
      Step k₂ .finishTask k₃ →
      CommitsOnlyItsTask (events body) k₃.sched := by
  intro hcommit
  obtain ⟨hbody, hes⟩ := run_replayed firstBody (replaceTask 0) (by decide)
  have hprep : Step initKernel (.prepareNext (some 0)) firstBody :=
    step_of_after (by decide)
  have hfinish : Step (firstBody.replayed (replaceTask 0)).2 .finishTask
      (firstBody.replayed (replaceTask 0 ++ [.finishTask])).2 :=
    step_of_after (by decide)
  have hlost := hcommit _ _ _ _ _ 0 (Reachable.of_booted booted_initKernel)
    hprep hbody (by decide) hfinish
  obtain ⟨task, htask, -, hstate, -⟩ := hlost "user-worker" 0
    ⟨[.killTask 0 true], [.setContext finishedContext], hes, by simp⟩
  have hready : (firstBody.replayed (replaceTask 0 ++ [.finishTask])).2.sched.stateAt 0 =
      some .Ready :=
    stateAt_eq_some_iff.2 ⟨task, htask, hstate⟩
  exact absurd hready (by decide)

/-- The same body on another slot: the new task there is spared. -/
theorem finish_commits_iff_worker :
    CommitsOnlyItsTask (replaceTask 1)
      (firstBody.replayed (replaceTask 1 ++ [.finishTask])).2.sched := by
  obtain ⟨hbody, hes⟩ := run_replayed firstBody (replaceTask 1) (by decide)
  have hprep : Step initKernel (.prepareNext (some 0)) firstBody :=
    step_of_after (by decide)
  have hfinish : Step (firstBody.replayed (replaceTask 1)).2 .finishTask
      (firstBody.replayed (replaceTask 1 ++ [.finishTask])).2 :=
    step_of_after (by decide)
  have hiff := finish_commits_iff initKernel firstBody _ _ _ 0 finishedContext
    hprep hbody (by decide) (by decide) hfinish
  rw [events, hes] at hiff
  exact hiff.2 (by decide)

end SpawnedTasks

end Scheduling
end OpenKernel
