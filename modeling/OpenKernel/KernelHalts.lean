import OpenKernel.Network
import OpenKernel.TaskReports

/-!
# How the kernel halts

The main loop with what `MainLoop` and `Shell` leave to a build and to a heap of
256 KiB: the development build checks `task.runs += 1`, and a request for memory
may be refused, which `alloc_error` turns into a panic.  The allocator is not
modelled.  Each event says whether it serves the requests made in it, so the
runs below are those of every allocator.

A command that panics leaves the system in the phase `stopped`; after any other
panic there is no system left (`none`).  `decides_run` is about the former,
`intact_or_lost` about the latter, and `kernel_halts_iff` puts them together.
-/

namespace OpenKernel
namespace MainLoop

open Vfs Scheduling Shell Input

section Requests

/-- The handling of an event asks for memory; to give some back cannot fail. -/
def RequestsKey (buf : InputBuffer) : KeyEvent → Prop
  | .Char _ => buf.line.items.length < MAX_LINE_LEN ∧ buf.line.items.length = buf.line.cap
  | .Backspace => False
  | .Enter =>
      buf.line.items ≠ [] ∨ buf.evictReady.2.items.length = buf.evictReady.2.cap

/-- A step asks for memory: every command does before it returns, the prompt's copy of
`CURRENT_DIR` at the latest, and only `panic` stops before it has asked. -/
def Requests (s : System) : Action → Prop
  | .key (some event) => RequestsKey s.input event
  | .key none => False
  | .timer => False
  | .main => ∃ idx ctx line, s.phase = .command idx ctx line ∧
      (splitFirstSpace (trim line)).1 ≠ "panic".toList

/-- `task.runs += 1` of a dispatch panics. -/
def RunsOverflow (profile : Profile) (s : System) (a : Action) : Prop :=
  ∃ idx task, dispatches idx (s, a) = true ∧ s.shell.sched.slot idx = some task ∧
    profile.addU64 task.runs 1 = .error .overflow

end Requests

/-- A step of the kernel; the Boolean says that the allocator serves its requests. -/
inductive KernelStep
    (profile : Profile) (report : UInt64 → Str → Str → ShellState → List Str) (growth : Growth) :
    Option System → Action × Bool → Option System → Prop
  | served {s : System} {a : Action}
      (hruns : ¬ RunsOverflow profile s a) :
      KernelStep profile report growth (some s) (a, true) (some (s.step profile report growth a))
  | overflow {s : System} {a : Action}
      (hruns : RunsOverflow profile s a) :
      KernelStep profile report growth (some s) (a, true) none
  /-- `alloc_error`. -/
  | refused {s : System} {a : Action}
      (hrequests : Requests s a) :
      KernelStep profile report growth (some s) (a, false) none
  | halted (x : Action × Bool) :
      KernelStep profile report growth none x none

/-- The kernel has panicked. -/
def Halted : Option System → Prop
  | none => True
  | some s => Stopped s

/-- The steps whose requests were served, with the states before them. -/
def served (tr : List (Option System × Action × Bool)) : List (System × Action) :=
  tr.filterMap fun x => if x.2.2 then x.1.map fun s => (s, x.2.1) else none

/-- At some moment a slot has had 2^64 dispatches since the last spawn into it. -/
def RunsOver (tr : List (System × Action)) : Prop :=
  ∃ idx before, before <+: tr ∧ 2 ^ 64 ≤ countSince (spawns idx) (dispatches idx) before

section Commands

variable {profile : Profile} {report : UInt64 → Str → Str → ShellState → List Str}
variable {growth : Growth} {s t : System} {a : Action} {tr : List (System × Action)}

/-- A step runs a line in the phase `command` only. -/
theorem running_cases
    (s : System) (a : Action) :
    running (s, a) = [] ∨
    ∃ idx ctx line, a = .main ∧ s.phase = .command idx ctx line ∧
      running (s, a) = [trim line] := by
  cases a with
  | main =>
      rcases hphase : s.phase with _ | _ | ⟨idx, ctx, line⟩ | _ | _ | _ | _
      · exact Or.inl (by simp only [running, hphase])
      · exact Or.inl (by simp only [running, hphase])
      · exact Or.inr ⟨idx, ctx, line, rfl, rfl, by simp only [running, hphase]⟩
      all_goals exact Or.inl (by simp only [running, hphase])
  | _ => exact Or.inl rfl

/-- A step that runs no line leaves the network stack alone. -/
theorem net_step
    (h : running (s, a) = []) :
    (s.step profile report growth a).shell.net = s.shell.net := by
  cases a with
  | key event => cases event <;> rfl
  | timer => rfl
  | main =>
      show (s.advance profile report).shell.net = _
      rw [System.advance]
      rcases hphase : s.phase with _ | ⟨idx, func, ctx⟩ | ⟨idx, ctx, line⟩ | ⟨idx, ctx⟩ | _ | _ | _
      · dsimp only
        rw [System.prepare]
        rcases s.shell.sched.prepareNext s.ticks with panic | ⟨_ | ⟨idx, func, ctx⟩, sched⟩ <;> rfl
      · dsimp only
        cases func with
        | shellTask =>
            rw [System.runBody]
            rcases s.input.popLine with ⟨_ | line, input⟩ <;> rfl
        | _ => rfl
      · simp [running, hphase] at h
      · dsimp only
        rw [System.commit]
        rcases s.shell.sched.finishTask idx ctx with panic | sched <;> rfl
      all_goals rfl

/-- A line that has not stopped the kernel has counted its hits. -/
theorem net_runCommand
    {idx n m : Nat} {ctx : TaskContext} {line : Str}
    (hnet : s.shell.net = Net.NetworkStack.after n m)
    (hroom : profile = .release ∨
      Net.HasRoom (n + Net.localPings [trim line]) (m + Net.ethPings [trim line]))
    (h : ¬ Stopped (s.runCommand profile report idx ctx line)) :
    (s.runCommand profile report idx ctx line).shell.net =
      Net.NetworkStack.after (n + Net.localPings [trim line]) (m + Net.ethPings [trim line]) := by
  rw [System.runCommand] at h ⊢
  rcases hreply : handleCommand profile (report s.ticks) s.shell (trim line) with
    panic | ⟨texts, shell⟩
  · rw [hreply] at h
    exact absurd ⟨idx, ctx, panic, rfl⟩ h
  · exact Net.net_of_handleCommand hnet hroom hreply

/-- The counters fit, or the build does not check them. -/
def Settled (profile : Profile) (lines : List Str) : Prop :=
  profile = .release ∨ Net.HasRoom (Net.localPings lines) (Net.ethPings lines)

theorem not_settled_iff
    {lines : List Str} :
    ¬ Settled profile lines ↔
      profile = .dev ∧ ¬ Net.HasRoom (Net.localPings lines) (Net.ethPings lines) := by
  cases profile <;> simp [Settled]

/-- The lines so far decide whether the kernel has stopped, and else what the counters are. -/
structure Decides (profile : Profile) (lines : List Str) (s : System) : Prop where
  stopped : Stopped s ↔ (∃ line ∈ lines, StopsKernel profile line) ∨ ¬ Settled profile lines
  net : ¬ Stopped s →
    s.shell.net = Net.NetworkStack.after (Net.localPings lines) (Net.ethPings lines)

theorem decides_boot
    (profile : Profile) :
    Decides profile [] System.boot where
  stopped := by
    refine iff_of_false (by rintro ⟨_, _, _, ⟨⟩⟩) ?_
    rintro (⟨line, hin, -⟩ | hfull)
    · cases hin
    · exact hfull (Or.inr Net.hasRoom_zero)
  net := fun _ => Net.after_zero.symm

/-- A step that runs no line decides nothing. -/
theorem Decides.idle
    {lines : List Str}
    (h : Decides profile lines s)
    (halive : Alive s)
    (hrunning : running (s, a) = []) :
    Decides profile lines (s.step profile report growth a) := by
  have hsame : Stopped (s.step profile report growth a) ↔ Stopped s := by
    rw [stopped_step_iff halive, hrunning]
    simp
  exact ⟨hsame.trans h.stopped, fun hgoes => (net_step hrunning).trans (h.net (hgoes ∘ hsame.2))⟩

/-- A line is decided by itself and by the counters that the lines before it have left. -/
theorem Decides.command
    {lines : List Str} {idx : Nat} {ctx : TaskContext} {line : Str}
    (h : Decides profile lines s)
    (hphase : s.phase = .command idx ctx line) :
    Decides profile (lines ++ [trim line]) (s.runCommand profile report idx ctx line) := by
  have hgoing : ¬ Stopped s := by
    rintro ⟨_, _, _, hstopped⟩
    rw [hphase] at hstopped
    cases hstopped
  obtain ⟨hclean, hsettled⟩ := not_or.1 (h.stopped.not.1 hgoing)
  have hroom : Settled profile lines := not_not.1 hsettled
  have hnet := h.net hgoing
  obtain ⟨hlocal, heth⟩ := Net.pings_append lines [trim line]
  have hstops : Stopped (s.runCommand profile report idx ctx line) ↔
      StopsKernel profile (trim line) ∨ ¬ Settled profile (lines ++ [trim line]) := by
    rw [stopped_runCommand_iff, Stops, hnet, Net.pingStops_iff hroom, not_settled_iff, hlocal, heth]
  refine ⟨hstops.trans (or_congr_left ?_), ?_⟩
  · simp [or_and_right, exists_or, hclean]
  · intro hgoes
    have hnext : Settled profile (lines ++ [trim line]) :=
      not_not.1 (not_or.1 (hstops.not.1 hgoes)).2
    rw [Settled, hlocal, heth] at hnext
    rw [hlocal, heth]
    exact net_runCommand hnet hnext hgoes

theorem Decides.step
    {lines : List Str}
    (h : Decides profile lines s)
    (halive : Alive s) :
    Decides profile (lines ++ running (s, a)) (s.step profile report growth a) := by
  rcases running_cases s a with hrunning | ⟨idx, ctx, line, rfl, hphase, hrunning⟩
  · rw [hrunning, List.append_nil]
    exact h.idle halive hrunning
  · rw [hrunning]
    show Decides profile _ (s.advance profile report)
    rw [System.advance, hphase]
    exact h.command hphase

/--
A run of the loop whose requests are all served stops iff a line stops the kernel
by itself or the lines together leave a counter no room; until then the counters
are those of the lines.
-/
theorem decides_run
    (h : Run (System.Step profile report growth) System.boot tr s) :
    Decides profile (executed tr) s := by
  induction h with
  | nil => exact decides_boot profile
  | snoc before last ih =>
      obtain rfl := last
      rw [executed, List.flatMap_append, List.flatMap_singleton]
      exact ih.step (alive_run before)

end Commands

section Dispatches

variable {profile : Profile} {report : UInt64 → Str → Str → ShellState → List Str}
variable {growth : Growth} {s : System} {a : Action} {tr : List (System × Action)}

/-- Only the development build checks the sum, and only the last word has none. -/
theorem addU64_one_eq_error_iff
    {runs : UInt64} :
    profile.addU64 runs 1 = .error .overflow ↔ profile = .dev ∧ 2 ^ 64 ≤ runs.toNat + 1 := by
  have hone : (1 : UInt64).toNat = 1 := rfl
  unfold Profile.addU64 Profile.u64
  rw [hone]
  by_cases hlt : runs.toNat + 1 < 2 ^ 64
  · rw [if_pos hlt]
    exact iff_of_false (by rintro ⟨⟩) (fun h => Nat.not_le.2 hlt h.2)
  · rw [if_neg hlt]
    cases profile with
    | dev => exact iff_of_true rfl ⟨rfl, Nat.not_lt.1 hlt⟩
    | release => exact iff_of_false (by rintro ⟨⟩) (by rintro ⟨⟨⟩, -⟩)

/-- A dispatch is no spawn. -/
theorem spawns_of_dispatches
    {idx : Nat}
    (h : dispatches idx (s, a) = true) :
    spawns idx (s, a) = false := by
  cases a with
  | main =>
      cases hphase : s.phase with
      | scan => simp only [spawns, hphase]
      | _ => simp [dispatches, hphase] at h
  | _ => rfl

/-- A dispatch finds a task in its slot. -/
theorem Alive.slot_of_dispatches
    {idx : Nat}
    (halive : Alive s)
    (h : dispatches idx (s, a) = true) :
    ∃ task, s.shell.sched.slot idx = some task := by
  cases a with
  | main =>
      cases hphase : s.phase with
      | scan =>
          obtain ⟨idx', task, _, _, hnext, hslot, -⟩ := halive.prepare_eq hphase
          simp only [dispatches, hphase, hnext] at h
          obtain rfl : idx' = idx := by simpa using h
          exact ⟨task, hslot⟩
      | _ => simp [dispatches, hphase] at h
  | _ => cases h

/-- The dispatch that the build does not survive is the one that makes 2^64. -/
theorem runsOverflow_iff
    (h : Run (System.Step profile report growth) System.boot tr s) :
    RunsOverflow profile s a ↔ profile = .dev ∧ ∃ idx, dispatches idx (s, a) = true ∧
      2 ^ 64 ≤ countSince (spawns idx) (dispatches idx) tr % 2 ^ 64 + 1 := by
  have hruns : ∀ idx task, s.shell.sched.slot idx = some task →
      task.runs.toNat = countSince (spawns idx) (dispatches idx) tr % 2 ^ 64 := by
    intro idx task hslot
    refine runs_run h ?_
    rw [runsAt, hslot]
    rfl
  constructor
  · rintro ⟨idx, task, hdispatch, hslot, hover⟩
    obtain ⟨hdev, hfull⟩ := addU64_one_eq_error_iff.1 hover
    rw [hruns idx task hslot] at hfull
    exact ⟨hdev, idx, hdispatch, hfull⟩
  · rintro ⟨hdev, idx, hdispatch, hfull⟩
    obtain ⟨task, hslot⟩ := (alive_run h).slot_of_dispatches hdispatch
    rw [← hruns idx task hslot] at hfull
    exact ⟨idx, task, hdispatch, hslot, addU64_one_eq_error_iff.2 ⟨hdev, hfull⟩⟩

/-- The count of a slot reaches 2^64 in a step iff a dispatch of it does. -/
theorem runsOver_concat_iff
    (hbefore : ¬ RunsOver tr) :
    RunsOver (tr ++ [(s, a)]) ↔ ∃ idx, dispatches idx (s, a) = true ∧
      2 ^ 64 ≤ countSince (spawns idx) (dispatches idx) tr % 2 ^ 64 + 1 := by
  have hlt : ∀ idx before, before <+: tr →
      countSince (spawns idx) (dispatches idx) before < 2 ^ 64 :=
    fun idx before hprefix => Nat.not_le.1 fun hfull => hbefore ⟨idx, before, hprefix, hfull⟩
  have hmod : ∀ idx, countSince (spawns idx) (dispatches idx) tr % 2 ^ 64 =
      countSince (spawns idx) (dispatches idx) tr :=
    fun idx => Nat.mod_eq_of_lt (hlt idx tr (List.prefix_refl tr))
  simp only [hmod]
  constructor
  · rintro ⟨idx, before, hprefix, hfull⟩
    rcases List.prefix_concat_iff.1 hprefix with rfl | hprefix
    · refine ⟨idx, ?_⟩
      have hnow := hlt idx tr (List.prefix_refl tr)
      rw [countSince_concat] at hfull
      cases hspawns : spawns idx (s, a) <;> cases hdispatch : dispatches idx (s, a) <;>
        simp [hspawns, hdispatch] at hfull ⊢ <;> omega
    · exact absurd hfull (Nat.not_le.2 (hlt idx before hprefix))
  · rintro ⟨idx, hdispatch, hfull⟩
    refine ⟨idx, _, List.prefix_refl _, ?_⟩
    rw [countSince_concat, spawns_of_dispatches hdispatch, hdispatch]
    exact hfull

end Dispatches

section Halting

variable {profile : Profile} {report : UInt64 → Str → Str → ShellState → List Str}
variable {growth : Growth} {s : System} {a : Action} {k : Option System}
variable {tr : List (Option System × Action × Bool)}

theorem served_concat
    (tr : List (Option System × Action × Bool)) (x : Option System × Action × Bool) :
    served (tr ++ [x]) = served tr ++ served [x] :=
  List.filterMap_append

/-- The steps of the loop as steps of the kernel with an allocator that never refuses. -/
def allServed (tr : List (System × Action)) : List (Option System × Action × Bool) :=
  tr.map fun x => (some x.1, x.2, true)

theorem served_allServed
    (tr : List (System × Action)) :
    served (allServed tr) = tr := by
  rw [served, allServed, List.filterMap_map]
  exact List.filterMap_some

theorem requests_allServed
    {tr : List (System × Action)}
    (x : Option System × Action × Bool) (hx : x ∈ allServed tr) :
    x.2.2 = true := by
  obtain ⟨y, -, rfl⟩ := List.mem_map.1 hx
  rfl

/-- The runs of the loop are the kernel's as long as memory and dispatches suffice. -/
theorem kernel_run
    {tr : List (System × Action)}
    (h : Run (System.Step profile report growth) System.boot tr s)
    (hruns : profile = .dev → ¬ RunsOver tr) :
    Run (KernelStep profile report growth) (some System.boot) (allServed tr) (some s) := by
  induction h with
  | nil => exact Run.nil _
  | @snoc s t a tr before last ih =>
      have hbefore : profile = .dev → ¬ RunsOver tr := by
        rintro hdev ⟨idx, first, hprefix, hfull⟩
        exact hruns hdev ⟨idx, first, hprefix.trans (List.prefix_append tr _), hfull⟩
      obtain rfl := last
      rw [allServed, List.map_append]
      refine Run.snoc (ih hbefore) (.served fun hover => ?_)
      obtain ⟨hdev, hfull⟩ := (runsOverflow_iff before).1 hover
      exact hruns hdev ((runsOver_concat_iff (hbefore hdev)).2 hfull)

/-- A kernel that goes on has lost no request and no dispatch. -/
structure Intact
    (profile : Profile) (report : UInt64 → Str → Str → ShellState → List Str) (growth : Growth)
    (tr : List (Option System × Action × Bool)) (s : System) : Prop where
  run : Run (System.Step profile report growth) System.boot (served tr) s
  requests : ∀ x ∈ tr, x.2.2 = true
  runs : profile = .dev → ¬ RunsOver (served tr)

/-- What has ended a kernel without a system. -/
def Lost (profile : Profile) (tr : List (Option System × Action × Bool)) : Prop :=
  (profile = .dev ∧ RunsOver (served tr)) ∨ ∃ x ∈ tr, x.2.2 = false

theorem intact_boot
    (profile : Profile) (report : UInt64 → Str → Str → ShellState → List Str) (growth : Growth) :
    Intact profile report growth [] System.boot where
  run := Run.nil _
  requests := by simp
  runs := by
    rintro - ⟨idx, before, hprefix, hfull⟩
    obtain rfl : before = [] := List.prefix_nil.1 hprefix
    exact absurd hfull (Nat.not_le.2 (Nat.two_pow_pos 64))

theorem Intact.serve
    (h : Intact profile report growth tr s)
    (hruns : ¬ RunsOverflow profile s a) :
    Intact profile report growth (tr ++ [(some s, a, true)]) (s.step profile report growth a) where
  run := by
    rw [served_concat]
    exact Run.snoc h.run rfl
  requests := by
    intro x hx
    rcases List.mem_append.1 hx with hx | hx
    · exact h.requests x hx
    · rw [List.mem_singleton.1 hx]
  runs := by
    intro hdev hover
    rw [served_concat] at hover
    exact hruns ((runsOverflow_iff h.run).2 ⟨hdev, (runsOver_concat_iff (h.runs hdev)).1 hover⟩)

theorem Intact.overflow
    (h : Intact profile report growth tr s)
    (hruns : RunsOverflow profile s a) :
    Lost profile (tr ++ [(some s, a, true)]) := by
  obtain ⟨hdev, hfull⟩ := (runsOverflow_iff h.run).1 hruns
  refine Or.inl ⟨hdev, ?_⟩
  rw [served_concat]
  exact (runsOver_concat_iff (h.runs hdev)).2 hfull

/-- What a kernel has lost stays lost. -/
theorem Lost.snoc
    (h : Lost profile tr)
    (x : Action × Bool) :
    Lost profile (tr ++ [(none, x)]) := by
  have hserved : served [(none, x)] = [] := by
    rcases x with ⟨a, _ | _⟩ <;> rfl
  rw [Lost, served_concat, hserved, List.append_nil]
  exact h.imp id fun ⟨y, hy, hrefused⟩ => ⟨y, List.mem_append_left _ hy, hrefused⟩

/-- A kernel goes on as long as nothing is lost. -/
theorem intact_or_lost
    (h : Run (KernelStep profile report growth) (some System.boot) tr k) :
    (∃ s, k = some s ∧ Intact profile report growth tr s) ∨ (k = none ∧ Lost profile tr) := by
  induction h with
  | nil => exact Or.inl ⟨System.boot, rfl, intact_boot profile report growth⟩
  | snoc before last ih =>
      rcases ih with ⟨s, rfl, hintact⟩ | ⟨rfl, hlost⟩
      · cases last with
        | served hruns => exact Or.inl ⟨_, rfl, hintact.serve hruns⟩
        | overflow hruns => exact Or.inr ⟨rfl, hintact.overflow hruns⟩
        | refused =>
            exact Or.inr ⟨rfl, Or.inr ⟨_, List.mem_append_right _ (List.mem_singleton_self _), rfl⟩⟩
      · cases last with
        | halted => exact Or.inr ⟨rfl, hlost.snoc _⟩

/--
Whatever keys, ticks and steps come in which order, and whatever the allocator
refuses: the kernel has panicked iff `handle_command` has run the line `panic` or
a calculation that stops the build, or the allocator has refused a request, or in
the development build the pings together leave a counter of the network stack no
room, or a slot has had 2^64 dispatches since the last spawn into it.
-/
theorem kernel_halts_iff
    (profile : Profile) (report : UInt64 → Str → Str → ShellState → List Str) (growth : Growth)
    (tr : List (Option System × Action × Bool)) (k : Option System)
    (h : Run (KernelStep profile report growth) (some System.boot) tr k) :
    Halted k ↔
      (∃ line ∈ executed (served tr), StopsKernel profile line) ∨
      (∃ x ∈ tr, x.2.2 = false) ∨
      (profile = .dev ∧
        (¬ Net.HasRoom (Net.localPings (executed (served tr)))
            (Net.ethPings (executed (served tr))) ∨
          RunsOver (served tr))) := by
  rcases intact_or_lost h with ⟨s, rfl, hintact⟩ | ⟨rfl, hlost⟩
  · have hstopped := (decides_run hintact.run).stopped
    rw [not_settled_iff] at hstopped
    have hrefused : ¬ ∃ x ∈ tr, x.2.2 = false := by
      rintro ⟨x, hx, hfalse⟩
      rw [hintact.requests x hx] at hfalse
      cases hfalse
    refine hstopped.trans (or_congr_right ?_)
    simp only [hrefused, false_or]
    exact and_congr_right fun hdev => by simp only [hintact.runs hdev, or_false]
  · refine iff_of_true trivial ?_
    rcases hlost with ⟨hdev, hover⟩ | hrefused
    · exact Or.inr (Or.inr ⟨hdev, Or.inr hover⟩)
    · exact Or.inr (Or.inl hrefused)

/-- The line `panic`: the kernel goes on until the shell runs it, and not beyond. -/
theorem kernel_halts_iff_panic :
    ¬ Halted (some (System.after .release (fun _ _ _ _ => []) .doubling
      (typing "panic" ++ throughShell.take 14))) ∧
    Halted (some (System.after .release (fun _ _ _ _ => []) .doubling
      (typing "panic" ++ throughShell.take 15))) := by
  have hrun := fun actions => kernel_run
    (Run.run_trail (System.step .release (fun _ _ _ _ => []) .doubling) System.boot actions)
    (fun hdev => by cases hdev)
  have hbefore := kernel_halts_iff .release (fun _ _ _ _ => []) .doubling _ _
    (hrun (typing "panic" ++ throughShell.take 14))
  have hafter := kernel_halts_iff .release (fun _ _ _ _ => []) .doubling _ _
    (hrun (typing "panic" ++ throughShell.take 15))
  rw [served_allServed] at hbefore hafter
  constructor
  · refine hbefore.not.2 ?_
    have hnone : executed (Run.trail (System.step .release (fun _ _ _ _ => []) .doubling)
        System.boot (typing "panic" ++ throughShell.take 14)) = [] := rfl
    rw [hnone]
    rintro (⟨line, hin, -⟩ | ⟨x, hx, hrefused⟩ | ⟨hdev, -⟩)
    · cases hin
    · rw [requests_allServed x hx] at hrefused
      cases hrefused
    · cases hdev
  · have hline : "panic".toList ∈ executed (Run.trail
        (System.step .release (fun _ _ _ _ => []) .doubling) System.boot
        (typing "panic" ++ throughShell.take 15)) := List.mem_singleton_self _
    exact hafter.2 (Or.inl ⟨_, hline, Or.inl rfl⟩)

end Halting

end MainLoop
end OpenKernel
