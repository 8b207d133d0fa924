import OpenKernel.MainLoop

/-!
# The loop refines the dispatch loop, and answers

`System.kernel` forgets what the dispatch loop does not know: the input buffer,
the file system and where in a task function the main context stands.  Every
step of the loop is then a short run of the dispatch loop with the same scans
(`loop_refines_dispatch`), so its invariants and its fairness hold here.

Between two polls of the queue by the shell there are at most eight scans: seven
that pass over it and the one that dispatches it.  So a line with `k` lines
ahead of it leaves the queue within `8 * (k + 1)` more scans
(`line_taken_in_time`).
-/

namespace OpenKernel
namespace MainLoop

open Vfs Scheduling Shell Input

/-- The slot whose task function runs, and its context. -/
def Phase.inBody : Phase → Option (Nat × TaskContext)
  | .body idx _ ctx => some (idx, ctx)
  | .command idx ctx _ => some (idx, ctx)
  | .returned idx ctx => some (idx, ctx)
  | .stopped idx ctx _ => some (idx, ctx)
  | _ => none

/-- The state of the dispatch loop. -/
def System.kernel (s : System) : Kernel :=
  ⟨s.shell.sched, s.phase.inBody⟩

/-- The `prepare_next` call of a step, as the dispatch loop sees it. -/
def scanned : System × Action → List (Kernel × Event)
  | (s, .main) =>
      match s.phase with
      | .scan =>
          [(s.kernel, .prepareNext (s.shell.sched.nextRunnableFrom s.shell.sched.current))]
      | _ => []
  | _ => []

def scans (tr : List (System × Action)) : Nat :=
  (tr.flatMap scanned).length

/-- The step is a `pop_line` of the shell. -/
def polls : System × Action → Bool
  | (s, .main) =>
      match s.phase with
      | .body _ .shellTask _ => true
      | _ => false
  | _ => false

section Refinement

variable {profile : Profile} {report : UInt64 → Str → Str → ShellState → List Str}
variable {growth : Growth} {s t : System} {a : Action} {tr : List (System × Action)}

/-- A run of the dispatch loop that shows the scans of a step. -/
def Matches (s : System) (a : Action) (t : System) : Prop :=
  ∃ ktr, Run Scheduling.Step s.kernel ktr t.kernel ∧
    (∀ y ∈ ktr, YieldsOrFinishes y.1 y.2) ∧
    ktr.filter (fun y => isPrepare y.2) = scanned (s, a)

/-- The dispatch loop does not see the step. -/
theorem Matches.stutter
    (hkernel : t.kernel = s.kernel)
    (hscanned : scanned (s, a) = []) :
    Matches s a t :=
  ⟨[], hkernel ▸ Run.nil _, by simp, hscanned.symm⟩

/-- The dispatch loop takes one step. -/
theorem Matches.single
    {e : Event}
    (hstep : Scheduling.Step s.kernel e t.kernel)
    (hyield : YieldsOrFinishes s.kernel e)
    (hscanned : [(s.kernel, e)].filter (fun y => isPrepare y.2) = scanned (s, a)) :
    Matches s a t := by
  refine ⟨[(s.kernel, e)], Run.single hstep, ?_, hscanned⟩
  intro y hy
  obtain rfl := List.mem_singleton.1 hy
  exact hyield

theorem yieldsOrFinishes_of_ne
    {k : Kernel} {e : Event}
    (h : e ≠ .finishTask) :
    YieldsOrFinishes k e :=
  fun heq => absurd heq h

/-- The body of a task leaves a context behind. -/
theorem Matches.context
    {idx : Nat} {ctx ctx' : TaskContext}
    (hinBody : s.phase.inBody = some (idx, ctx))
    (hinBody' : t.phase.inBody = some (idx, ctx'))
    (hsched : t.shell.sched = s.shell.sched)
    (hscanned : scanned (s, a) = []) :
    Matches s a t := by
  have hs : s.kernel = ⟨s.shell.sched, some (idx, ctx)⟩ := by rw [System.kernel, hinBody]
  have ht : t.kernel = ⟨s.shell.sched, some (idx, ctx')⟩ := by
    rw [System.kernel, hinBody', hsched]
  have hstep : Scheduling.Step s.kernel (.setContext ctx') t.kernel := by
    rw [hs, ht]
    exact Scheduling.Step.context
  exact .single hstep (yieldsOrFinishes_of_ne Event.noConfusion) hscanned.symm

/-- The body of a task makes one call on the table and leaves a context behind. -/
theorem Matches.call
    {idx : Nat} {ctx ctx' : TaskContext} {e : Event}
    (hinBody : s.phase.inBody = some (idx, ctx))
    (hinBody' : t.phase.inBody = some (idx, ctx'))
    (hbody : e.IsBodyCall)
    (hstep : Scheduling.Step ⟨s.shell.sched, some (idx, ctx)⟩ e ⟨t.shell.sched, some (idx, ctx)⟩)
    (hscanned : scanned (s, a) = []) :
    Matches s a t := by
  have hs : s.kernel = ⟨s.shell.sched, some (idx, ctx)⟩ := by rw [System.kernel, hinBody]
  have ht : t.kernel = ⟨t.shell.sched, some (idx, ctx')⟩ := by rw [System.kernel, hinBody']
  have hquiet : isPrepare e = false ∧ e ≠ .finishTask := by
    cases e <;> first | exact hbody.elim | exact ⟨rfl, Event.noConfusion⟩
  have hleave : Scheduling.Step ⟨t.shell.sched, some (idx, ctx)⟩ (.setContext ctx')
      ⟨t.shell.sched, some (idx, ctx')⟩ := Scheduling.Step.context
  rw [Matches, hs, ht]
  refine ⟨_, Run.append (Run.single hstep) (Run.single hleave), ?_, ?_⟩
  · intro y hy
    rcases List.mem_append.1 hy with hy | hy
    · obtain rfl := List.mem_singleton.1 hy
      exact yieldsOrFinishes_of_ne hquiet.2
    · obtain rfl := List.mem_singleton.1 hy
      exact yieldsOrFinishes_of_ne Event.noConfusion
  · rw [hscanned]
    have hcontext : isPrepare (.setContext ctx') = false := rfl
    simp [hquiet.1, hcontext]

theorem kernel_woken
    (s : System) (input : InputBuffer) (ticks : UInt64) :
    System.kernel ⟨s.shell, input, ticks, s.phase.woken⟩ = s.kernel := by
  rw [System.kernel, System.kernel]
  rcases s.phase with _ | _ | _ | _ | _ | _ | _ <;> rfl

theorem matches_prepare
    (h : Alive s)
    (hphase : s.phase = .scan) :
    Matches s .main s.prepare := by
  obtain ⟨idx, task, ctx, sched, hnext, -, -, -, hprep, heq⟩ := h.prepare_eq hphase
  have hscanned : scanned (s, .main) = [(s.kernel, .prepareNext (some idx))] := by
    simp only [scanned, hphase, hnext]
  have hs : s.kernel = ⟨s.shell.sched, none⟩ := by rw [System.kernel, hphase]; rfl
  have hstep : Scheduling.Step s.kernel (.prepareNext (some idx)) s.prepare.kernel := by
    rw [hs, heq]
    exact Scheduling.Step.dispatch hprep
  exact .single hstep (yieldsOrFinishes_of_ne Event.noConfusion) hscanned.symm

theorem matches_runBody
    {idx : Nat} {func : TaskFn} {ctx : TaskContext}
    (hphase : s.phase = .body idx func ctx) :
    Matches s .main (s.runBody idx func ctx) := by
  have hscanned : scanned (s, .main) = [] := by simp only [scanned, hphase]
  have hinBody : s.phase.inBody = some (idx, ctx) := by rw [hphase]; rfl
  cases func with
  | shellTask =>
      rw [System.runBody]
      rcases s.input.popLine with ⟨_ | line, input⟩
      · exact .context hinBody rfl rfl hscanned
      · refine .stutter ?_ hscanned
        rw [System.kernel, System.kernel, hinBody]
        rfl
  | other addr => exact .stutter rfl hscanned
  | _ => exact .context hinBody rfl rfl hscanned

theorem matches_runCommand
    {idx : Nat} {ctx : TaskContext} {line : Str}
    (hphase : s.phase = .command idx ctx line) :
    Matches s .main (s.runCommand profile report idx ctx line) := by
  have hscanned : scanned (s, .main) = [] := by simp only [scanned, hphase]
  have hinBody : s.phase.inBody = some (idx, ctx) := by rw [hphase]; rfl
  rw [System.runCommand]
  rcases hreply : handleCommand profile (report s.ticks) s.shell (trim line) with
    panic | ⟨texts, shell⟩
  · refine .stutter ?_ hscanned
    rw [System.kernel, System.kernel, hinBody]
    rfl
  · rcases sched_handleCommand hreply with
      ⟨-, hsame⟩ | ⟨-, spawned, hspawn⟩ | ⟨-, pid, killed, -, hkill⟩
    · exact .context hinBody rfl hsame hscanned
    · exact .call hinBody rfl (e := .spawnTask "user-worker" spawned) trivial
        (Scheduling.Step.spawn hspawn) hscanned
    · exact .call hinBody rfl (e := .killTask pid killed) trivial
        (Scheduling.Step.kill hkill) hscanned

theorem matches_commit
    (h : Alive s)
    {idx : Nat} {ctx : TaskContext}
    (hphase : s.phase = .returned idx ctx) :
    Matches s .main (s.commit idx ctx) := by
  have hscanned : scanned (s, .main) = [] := by simp only [scanned, hphase]
  obtain ⟨sched, hfinish, heq⟩ := h.commit_eq hphase
  have hholds := h.phase
  rw [hphase] at hholds
  have hs : s.kernel = ⟨s.shell.sched, some (idx, ctx)⟩ := by rw [System.kernel, hphase]; rfl
  have hstep : Scheduling.Step s.kernel .finishTask (s.commit idx ctx).kernel := by
    rw [hs, heq]
    exact Scheduling.Step.finish hfinish
  refine .single hstep ?_ hscanned.symm
  rintro - body hbody
  rw [hs] at hbody
  obtain rfl := Option.mem_some.1 hbody
  exact hholds.2.1

/-- Every step of the loop is a short run of the dispatch loop. -/
theorem matches_step
    (h : Alive s) :
    Matches s a (s.step profile report growth a) := by
  cases a with
  | key event =>
      cases event with
      | none => exact .stutter (kernel_woken s s.input s.ticks) rfl
      | some event => exact .stutter (kernel_woken s _ s.ticks) rfl
  | timer => exact .stutter (kernel_woken s s.input _) rfl
  | main =>
      show Matches s .main (s.advance profile report)
      rw [System.advance]
      rcases hphase : s.phase with _ | ⟨idx, func, ctx⟩ | ⟨idx, ctx, line⟩ | ⟨idx, ctx⟩ | _ | _ | _
      · exact matches_prepare h hphase
      · exact matches_runBody hphase
      · exact matches_runCommand hphase
      · exact matches_commit h hphase
      all_goals exact .stutter rfl (by simp only [scanned, hphase])

/-- A run of the loop is a run of the dispatch loop with the same scans. -/
theorem simulated_run
    (h : Run (System.Step profile report growth) s tr t)
    (hs : Alive s) :
    ∃ ktr, Run Scheduling.Step s.kernel ktr t.kernel ∧
      (∀ y ∈ ktr, YieldsOrFinishes y.1 y.2) ∧ prepares ktr = tr.flatMap scanned := by
  have hmatch : ∀ s a t, Alive s → System.Step profile report growth s a t → Matches s a t := by
    rintro s a t hs rfl
    exact matches_step hs
  exact Run.simulates System.kernel (fun y => YieldsOrFinishes y.1 y.2)
    (fun y => isPrepare y.2) scanned (alive_of_step profile report growth) hmatch h hs

theorem kernel_boot :
    System.boot.kernel = initKernel := rfl

/--
Every run of the loop from the boot on, with all its keys and ticks, is a run of
the dispatch loop from the filled table: with the same `prepare_next` calls, in
the same states, and with bodies that all yield or finish.
-/
theorem loop_refines_dispatch
    (profile : Profile) (report : UInt64 → Str → Str → ShellState → List Str) (growth : Growth)
    (tr : List (System × Action)) (s : System)
    (h : Run (System.Step profile report growth) System.boot tr s) :
    ∃ ktr, Run Scheduling.Step initKernel ktr s.kernel ∧
      (∀ y ∈ ktr, YieldsOrFinishes y.1 y.2) ∧ prepares ktr = tr.flatMap scanned := by
  rw [← kernel_boot]
  exact simulated_run h alive_boot

/-- The first turn of the shell in a run that ends with a typed `panic`. -/
theorem loop_refines_dispatch_panic :
    ∃ tr : List (System × Action), tr.map Prod.snd = typing "panic" ++ throughShell ∧
      ∃ ktr k, Run Scheduling.Step initKernel ktr k ∧ prepares ktr = tr.flatMap scanned := by
  obtain ⟨tr, hrun, hactions⟩ :=
    Run.exists_foldl (System.step .dev (fun _ _ _ _ => []) .doubling) System.boot
      (typing "panic" ++ throughShell)
  obtain ⟨ktr, hkrun, -, hprepares⟩ :=
    loop_refines_dispatch .dev (fun _ _ _ _ => []) .doubling tr _ hrun
  exact ⟨tr, hactions, ktr, _, hkrun, hprepares⟩

end Refinement

section Response

variable {profile : Profile} {report : UInt64 → Str → Str → ShellState → List Str}
variable {growth : Growth} {s t : System} {a : Action} {tr : List (System × Action)}

/-- The lines that the shell takes off the queue in a step. -/
def popped : System × Action → List Str
  | (s, .main) =>
      match s.phase with
      | .body _ .shellTask _ => s.input.leaving .popLine
      | _ => []
  | _ => []

/-- The lines that an Enter pushes off a full queue. -/
def evicted : System × Action → List Str
  | (s, .key (some .Enter)) => s.input.leaving .commitLine
  | _ => []

/-- The lines that an Enter puts on the queue. -/
def committed : System × Action → List Str
  | (s, .key (some .Enter)) => s.input.entering .commitLine
  | _ => []

def pollCount (tr : List (System × Action)) : Nat :=
  tr.countP polls

theorem scans_append
    (tr₁ tr₂ : List (System × Action)) :
    scans (tr₁ ++ tr₂) = scans tr₁ + scans tr₂ := by
  rw [scans, List.flatMap_append, List.length_append, scans, scans]

/-- What a step scans. -/
theorem scanned_cases
    (s : System) (a : Action) :
    scanned (s, a) = [] ∨
      (a = .main ∧ s.phase = .scan ∧ scanned (s, a) =
        [(s.kernel, .prepareNext (s.shell.sched.nextRunnableFrom s.shell.sched.current))]) := by
  cases a with
  | main =>
      rcases hphase : s.phase with _ | _ | _ | _ | _ | _ | _
      · exact Or.inr ⟨rfl, rfl, by simp only [scanned, hphase]⟩
      all_goals exact Or.inl (by simp only [scanned, hphase])
  | _ => exact Or.inl rfl

/-- The scans of a run find the shell Ready. -/
theorem ready_of_scanned
    (h : Run (System.Step profile report growth) s tr t)
    (hs : Alive s)
    {y : Kernel × Event}
    (hy : y ∈ tr.flatMap scanned) :
    y.1.sched.stateAt shellSlot = some .Ready := by
  obtain ⟨⟨s', a⟩, hx, hy⟩ := List.mem_flatMap.1 hy
  have halive : Alive s' := Run.invariant_mem (alive_of_step profile report growth) h hs hx
  rcases scanned_cases s' a with hnone | ⟨-, hphase, hone⟩
  · rw [hnone] at hy
    cases hy
  · rw [hone] at hy
    obtain rfl := List.mem_singleton.1 hy
    have hholds := halive.phase
    rw [hphase] at hholds
    exact hholds

/-- Fewer than eight scans in a row pass over the shell. -/
theorem scans_lt_of_passing
    (h : Run (System.Step profile report growth) s tr t)
    (hs : Alive s) (hslots : SlotInvariant s.kernel)
    (hpass : ∀ y ∈ tr.flatMap scanned, y.2 ≠ .prepareNext (some shellSlot)) :
    scans tr < MAX_TASKS := by
  obtain ⟨ktr, hkrun, hyield, hprepares⟩ := simulated_run h hs
  have hpassed := passedSoFar_run hslots hkrun hyield (fun y hy => by
    rw [hprepares] at hy
    exact ⟨ready_of_scanned h hs hy, hpass y hy⟩)
  rw [hprepares] at hpassed
  rcases hpassed with hzero | hpassed
  · rw [scans, hzero]
    decide
  · exact hpassed.count_lt

/-- The scan that dispatches the shell leads to its poll. -/
theorem body_of_dispatch
    (h : Alive s)
    (hphase : s.phase = .scan)
    (hnext : s.shell.sched.nextRunnableFrom s.shell.sched.current = some shellSlot) :
    ∃ ctx, s.prepare.phase = .body shellSlot .shellTask ctx := by
  obtain ⟨idx, task, ctx, sched, hnext', hslot, -, -, -, heq⟩ := h.prepare_eq hphase
  obtain rfl : shellSlot = idx := Option.some.inj (hnext.symm.trans hnext')
  have hfunc : task.func = .shellTask := by
    have hat := h.seated.shell
    rw [funcAt, hslot] at hat
    exact Option.some.inj hat
  exact ⟨ctx, by rw [heq, ← hfunc]; rfl⟩

/-- There are at most eight scans without a poll: seven that pass over the shell,
and the one that dispatches it. -/
theorem scans_le_of_not_polls
    (h : Run (System.Step profile report growth) s tr t)
    (hs : Alive s) (hslots : SlotInvariant s.kernel)
    (hquiet : ∀ x ∈ tr, polls x = false) :
    scans tr ≤ MAX_TASKS := by
  suffices hcases : (scans tr ≤ MAX_TASKS ∧ ∃ ctx, t.phase = .body shellSlot .shellTask ctx) ∨
      ∀ y ∈ tr.flatMap scanned, y.2 ≠ .prepareNext (some shellSlot) by
    rcases hcases with ⟨hle, -⟩ | hpass
    · exact hle
    · exact Nat.le_of_lt (scans_lt_of_passing h hs hslots hpass)
  induction h with
  | nil => exact Or.inr (by simp)
  | @snoc t u a tr before last ih =>
      obtain rfl := last
      have hlast : polls (t, a) = false := hquiet (t, a) (by simp)
      have hcases := ih (fun x hx => hquiet x (List.mem_append_left _ hx))
      have hsum : scans (tr ++ [(t, a)]) = scans tr + (scanned (t, a)).length := by
        rw [scans_append]
        simp [scans]
      rcases hcases with ⟨hle, ctx, hbody⟩ | hpass
      · -- dispatched and not yet at its poll
        left
        cases a with
        | main => simp [polls, hbody] at hlast
        | key event =>
            refine ⟨hsum ▸ hle, ctx, ?_⟩
            show t.phase.woken = _
            rw [hbody]
            rfl
        | timer =>
            refine ⟨hsum ▸ hle, ctx, ?_⟩
            show t.phase.woken = _
            rw [hbody]
            rfl
      · have hkeep : ∀ s a t, Alive s → System.Step profile report growth s a t → Alive t := by
          rintro s a t hs rfl
          exact hs.step
        have hlt := scans_lt_of_passing before hs hslots hpass
        rcases scanned_cases t a with hnone | ⟨rfl, hphase, hone⟩
        · right
          rw [List.flatMap_append, List.flatMap_singleton, hnone, List.append_nil]
          exact hpass
        · by_cases hnext : t.shell.sched.nextRunnableFrom t.shell.sched.current = some shellSlot
          · left
            have hstep : t.step profile report growth .main = t.prepare := by
              show t.advance profile report = _
              rw [System.advance, hphase]
            refine ⟨by rw [hsum, hone]; exact hlt, ?_⟩
            rw [hstep]
            exact body_of_dispatch (hs.run before) hphase hnext
          · right
            rw [List.flatMap_append, List.flatMap_singleton, hone]
            intro y hy
            rcases List.mem_append.1 hy with hy | hy
            · exact hpass y hy
            · obtain rfl := List.mem_singleton.1 hy
              exact fun heq => hnext (Event.prepareNext.inj heq)

/-- The dispatch loop keeps its slot invariant in every run of the loop. -/
theorem slotInvariant_run
    (h : Run (System.Step profile report growth) System.boot tr s) :
    SlotInvariant s.kernel := by
  obtain ⟨ktr, hkrun, -⟩ := simulated_run h alive_boot
  exact ((Reachable.of_booted booted_initKernel).run hkrun).slotInvariant

/-- A step that polls scans nothing. -/
theorem scanned_of_polls
    (h : polls (s, a) = true) :
    scanned (s, a) = [] := by
  rcases scanned_cases s a with hnone | ⟨rfl, hphase, -⟩
  · exact hnone
  · simp [polls, hphase] at h

/-- The scans since the last poll are at most eight, and there are at most eight
for each poll before. -/
theorem scans_since_poll
    (h : Run (System.Step profile report growth) s tr t)
    (hs : Alive s) (hslots : SlotInvariant s.kernel) :
    ∃ tr₁ tr₂ m, tr = tr₁ ++ tr₂ ∧ Run (System.Step profile report growth) s tr₁ m ∧
      Run (System.Step profile report growth) m tr₂ t ∧ (∀ x ∈ tr₂, polls x = false) ∧
      scans tr₁ ≤ MAX_TASKS * pollCount tr₁ := by
  induction h with
  | nil => exact ⟨[], [], _, rfl, Run.nil _, Run.nil _, by simp, Nat.zero_le _⟩
  | @snoc t u a tr before last ih =>
      obtain ⟨tr₁, tr₂, m, rfl, hrun₁, hrun₂, hquiet, hle⟩ := ih
      cases hpolls : polls (t, a) with
      | true =>
          refine ⟨(tr₁ ++ tr₂) ++ [(t, a)], [], u, by simp, Run.snoc before last, Run.nil u,
            by simp, ?_⟩
          obtain ⟨ktr, hkrun, -⟩ := simulated_run hrun₁ hs
          have hlast := scans_le_of_not_polls hrun₂ (hs.run hrun₁)
            (hslots.run hkrun) hquiet
          have hnone : scans [(t, a)] = 0 := by
            simp [scans, scanned_of_polls hpolls]
          have hcount : pollCount ((tr₁ ++ tr₂) ++ [(t, a)]) =
              pollCount tr₁ + pollCount tr₂ + 1 := by
            rw [pollCount, List.countP_append, List.countP_append, List.countP_singleton,
              if_pos hpolls]
            rfl
          rw [scans_append, scans_append, hnone, hcount, Nat.mul_add, Nat.mul_add]
          omega
      | false =>
          refine ⟨tr₁, tr₂ ++ [(t, a)], m, by simp, hrun₁, Run.snoc hrun₂ last, ?_, hle⟩
          intro x hx
          rcases List.mem_append.1 hx with hx | hx
          · exact hquiet x hx
          · obtain rfl := List.mem_singleton.1 hx
            exact hpolls

/-- The shell polls once in eight scans. -/
theorem scans_le
    (h : Run (System.Step profile report growth) s tr t)
    (hs : Alive s) (hslots : SlotInvariant s.kernel) :
    scans tr ≤ MAX_TASKS * (pollCount tr + 1) := by
  obtain ⟨tr₁, tr₂, m, rfl, hrun₁, hrun₂, hquiet, hle⟩ := scans_since_poll h hs hslots
  obtain ⟨ktr, hkrun, -⟩ := simulated_run hrun₁ hs
  have hlast := scans_le_of_not_polls hrun₂ (hs.run hrun₁)
    (hslots.run hkrun) hquiet
  have hmono : MAX_TASKS * pollCount tr₁ ≤ MAX_TASKS * pollCount (tr₁ ++ tr₂) :=
    Nat.mul_le_mul_left _ (by simp [pollCount])
  rw [scans_append, Nat.mul_add]
  omega

/-- The lines that leave the queue in a step. -/
def departed (x : System × Action) : List Str :=
  popped x ++ evicted x

/-- A step takes lines off the front of the queue or puts one at its end. -/
theorem queue_step
    (profile : Profile) (report : UInt64 → Str → Str → ShellState → List Str) (growth : Growth)
    (s : System) (a : Action) :
    s.input.readyLines.items ++ committed (s, a) =
      departed (s, a) ++ (s.step profile report growth a).input.readyLines.items := by
  cases a with
  | key event =>
      rcases event with _ | ch | _ | _
      · exact List.append_nil _
      · exact InputBuffer.call_readyLines growth s.input (.pushChar ch)
      · exact InputBuffer.call_readyLines growth s.input .backspace
      · exact InputBuffer.call_readyLines growth s.input .commitLine
  | timer => exact List.append_nil _
  | main =>
      have hkeeps : ∀ t : System, t.input = s.input → popped (s, .main) = [] →
          s.input.readyLines.items ++ committed (s, .main) =
            departed (s, .main) ++ t.input.readyLines.items := by
        intro t ht hpopped
        rw [departed, hpopped, ht]
        exact List.append_nil _
      show _ = _ ++ (s.advance profile report).input.readyLines.items
      rw [System.advance]
      rcases hphase : s.phase with _ | ⟨idx, func, ctx⟩ | ⟨idx, ctx, line⟩ | ⟨idx, ctx⟩ | _ | _ | _
      · refine hkeeps _ ?_ (by simp only [popped, hphase])
        show s.prepare.input = s.input
        rw [System.prepare]
        split <;> rfl
      · cases func with
        | shellTask =>
            have hpopped : departed (s, .main) = s.input.leaving .popLine := by
              simp only [departed, popped, hphase, evicted, List.append_nil]
            rw [hpopped]
            refine (InputBuffer.call_readyLines growth s.input .popLine).trans ?_
            show _ = _ ++ (s.runBody idx .shellTask ctx).input.readyLines.items
            rw [System.runBody]
            rcases hpop : s.input.popLine with ⟨_ | line, input⟩ <;>
              simp only [InputBuffer.call, hpop]
        | _ => exact hkeeps _ rfl (by simp only [popped, hphase])
      · refine hkeeps _ ?_ (by simp only [popped, hphase])
        show (s.runCommand profile report idx ctx line).input = s.input
        rw [System.runCommand]
        split <;> rfl
      · refine hkeeps _ ?_ (by simp only [popped, hphase])
        show (s.commit idx ctx).input = s.input
        rw [System.commit]
        split <;> rfl
      all_goals exact hkeeps s rfl (by simp only [popped, hphase])

theorem queue_run
    (h : Run (System.Step profile report growth) s tr t) :
    s.input.readyLines.items ++ tr.flatMap committed =
      tr.flatMap departed ++ t.input.readyLines.items := by
  have hstep : ∀ s a t, System.Step profile report growth s a t →
      s.input.readyLines.items ++ committed (s, a) =
        departed (s, a) ++ t.input.readyLines.items := by
    rintro s a t rfl
    exact queue_step profile report growth s a
  exact Run.conserves (fun s => s.input.readyLines.items) committed departed hstep h

/-- A poll takes a line if one waits. -/
theorem length_departed_of_polls
    (hpolls : polls (s, a) = true)
    (hwaiting : s.input.readyLines.items ≠ []) :
    (departed (s, a)).length = 1 := by
  cases a with
  | key event => cases hpolls
  | timer => cases hpolls
  | main =>
      rcases hphase : s.phase with _ | ⟨idx, func, ctx⟩ | _ | _ | _ | _ | _
      · simp [polls, hphase] at hpolls
      · cases func with
        | shellTask =>
            obtain ⟨line, rest, hlines⟩ := List.exists_cons_of_ne_nil hwaiting
            simp [departed, popped, evicted, hphase, InputBuffer.leaving, InputBuffer.popLine,
              hlines]
        | _ => simp [polls, hphase] at hpolls
      all_goals simp [polls, hphase] at hpolls

/-- Each poll takes a line, until none is left of those that waited. -/
theorem min_le_departed
    (h : Run (System.Step profile report growth) s tr t) :
    min (pollCount tr) s.input.readyLines.items.length ≤ (tr.flatMap departed).length := by
  induction h with
  | nil => simp [pollCount]
  | @snoc t u a tr before last ih =>
      rw [List.flatMap_append, List.flatMap_singleton, List.length_append, pollCount,
        List.countP_append, List.countP_singleton]
      change min (pollCount tr + _) _ ≤ _
      cases hpolls : polls (t, a) with
      | false =>
          simp only [Bool.false_eq_true, if_false, Nat.add_zero]
          omega
      | true =>
          simp only [if_true]
          by_cases hempty : t.input.readyLines.items = []
          · -- nothing waits any more, so all has left
            have hqueue := congrArg List.length (queue_run before)
            rw [hempty, List.append_nil, List.length_append] at hqueue
            omega
          · have hone := length_departed_of_polls hpolls hempty
            omega

/--
In every run from a state that the loop reaches, a line with `k` lines ahead of
it is the next but `k` to leave the queue, within `8 * (k + 1)` scans; and when
no Enter meets a full queue the shell has taken it.
-/
theorem line_taken_in_time
    (profile : Profile) (report : UInt64 → Str → Str → ShellState → List Str) (growth : Growth)
    (before after : List (System × Action)) (s t : System)
    (hbefore : Run (System.Step profile report growth) System.boot before s)
    (hafter : Run (System.Step profile report growth) s after t)
    (k : Nat) (line : Str)
    (hline : s.input.readyLines.items[k]? = some line)
    (htime : 8 * (k + 1) < scans after) :
    (after.flatMap departed)[k]? = some line ∧
      ((∀ x ∈ after, evicted x = []) → (after.flatMap popped)[k]? = some line) := by
  have hk : k < s.input.readyLines.items.length := (List.getElem?_eq_some_iff.1 hline).1
  have hscans := scans_le hafter (alive_run hbefore) (slotInvariant_run hbefore)
  have hpolls : k < pollCount after := by
    have height : MAX_TASKS = 8 := rfl
    rw [height] at hscans
    omega
  have hleft := min_le_departed hafter
  have hdeparted : (after.flatMap departed)[k]? = some line := by
    rw [← List.getElem?_append_left (by omega), ← queue_run hafter,
      List.getElem?_append_left hk, hline]
  refine ⟨hdeparted, fun hroom => ?_⟩
  have hsame : after.flatMap departed = after.flatMap popped := by
    refine List.flatMap_congr ?_
    intro x hx
    rw [departed, hroom x hx, List.append_nil]
  rw [← hsame]
  exact hdeparted

/-- The tasks before the shell have no more than eight scans to make. -/
theorem line_taken_in_time_pwd :
    ((Run.trail (System.step .dev (fun _ _ _ _ => []) .doubling)
      (System.after .dev (fun _ _ _ _ => []) .doubling (typing "pwd"))
      (List.replicate 9 [.main, .main, .main, .main, .timer]).flatten).flatMap departed)[0]? =
        some "pwd".toList := by
  have hbefore := Run.run_trail (System.step .dev (fun _ _ _ _ => []) .doubling) System.boot
    (typing "pwd")
  have hafter := Run.run_trail (System.step .dev (fun _ _ _ _ => []) .doubling)
    (System.after .dev (fun _ _ _ _ => []) .doubling (typing "pwd"))
    (List.replicate 9 [.main, .main, .main, .main, .timer]).flatten
  have hnine : scans (Run.trail (System.step .dev (fun _ _ _ _ => []) .doubling)
      (System.after .dev (fun _ _ _ _ => []) .doubling (typing "pwd"))
      (List.replicate 9 [.main, .main, .main, .main, .timer]).flatten) = 9 := rfl
  exact (line_taken_in_time .dev (fun _ _ _ _ => []) .doubling _ _ _ _ hbefore hafter 0
    "pwd".toList rfl (by rw [hnine]; decide)).1

end Response

end MainLoop
end OpenKernel
