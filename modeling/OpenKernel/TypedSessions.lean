import OpenKernel.LoopRefinement

/-!
# What is typed is what is done

The keys that reach the kernel alone decide which lines are entered (`Editor`
is the line editor as its user knows it), and the lines that the shell runs
alone decide the files, the working directory and the prompt (`View`).  Ticks,
the other tasks and the moments at which keys arrive have no part in either.

* `session_of_keys`: in every run the shell has run some of the entered lines,
  in order and none twice, and its files are those of a sequential session of
  these lines; when no Enter meets a full queue it has run a beginning of them,
  and the others wait;
* `schedule_independence`: two runs with the same keys that have both caught up
  have the same files and the same prompt.
-/

namespace OpenKernel
namespace MainLoop

open Vfs Scheduling Shell Input

section Spec

/-- The line being typed, and the lines entered before it. -/
structure Editor where
  line : Str
  entered : List Str

namespace Editor

def new : Editor where
  line := []
  entered := []

/-- A key changes the line, which holds at most 128 characters, or enters it. -/
def type (editor : Editor) : KeyEvent → Editor
  | .Char ch =>
      { editor with
        line := if editor.line.length < 128 then editor.line ++ [ch] else editor.line }
  | .Backspace => { editor with line := editor.line.dropLast }
  | .Enter => { line := [], entered := editor.entered ++ [editor.line] }

end Editor

/-- The lines entered by a sequence of keys. -/
def enteredLines (keys : List KeyEvent) : List Str :=
  (keys.foldl Editor.type Editor.new).entered

/-- What a session leaves behind: the tree with `CURRENT_DIR`, and the prompt. -/
structure View where
  vfs : Statics
  prompt : Str

/-- One line of a sequential session. -/
def View.run (view : View) (line : Str) : View where
  vfs := vfsAfter view.vfs line
  prompt := promptAfter view.prompt line

/-- A sequential session of lines, from the boot on. -/
def session (lines : List Str) : View :=
  lines.foldl View.run ⟨Statics.init, "root".toList⟩

end Spec

def System.view (s : System) : View :=
  ⟨s.shell.vfs, s.shell.prompt⟩

/-- The event of an action, if it is a key with one. -/
def Action.event? : Action → Option KeyEvent
  | .key event => event
  | _ => none

/-- The keys of a run. -/
def keys (tr : List (System × Action)) : List KeyEvent :=
  tr.filterMap fun x => x.2.event?

/-- The line that the shell has taken and not yet run. -/
def Phase.inHand : Phase → List Str
  | .command _ _ line => [line]
  | _ => []

/-- The lines entered that the shell has not run. -/
def System.waiting (s : System) : List Str :=
  s.phase.inHand ++ s.input.readyLines.items

/-- Every Enter finds room in the queue. -/
def HasRoom (tr : List (System × Action)) : Prop :=
  ∀ x ∈ tr, x.2 = .key (some .Enter) → x.1.input.readyLines.items.length < MAX_QUEUE_DEPTH

variable {profile : Profile} {report : UInt64 → Str → Str → ShellState → List Str}
variable {growth : Growth} {s t : System} {a : Action} {tr : List (System × Action)}

section MainSteps

/-- What a step of the main context outside the shell's task function keeps. -/
theorem advance_cases
    (profile : Profile) (report : UInt64 → Str → Str → ShellState → List Str) (s : System) :
    (∃ idx ctx, s.phase = .body idx .shellTask ctx ∧
      s.advance profile report = s.runBody idx .shellTask ctx) ∨
    (∃ idx ctx line, s.phase = .command idx ctx line ∧
      s.advance profile report = s.runCommand profile report idx ctx line) ∨
    (popped (s, .main) = [] ∧ running (s, .main) = [] ∧
      (s.advance profile report).input = s.input ∧
      (s.advance profile report).view = s.view ∧
      s.phase.inHand = [] ∧ (s.advance profile report).phase.inHand = []) := by
  rw [System.advance]
  rcases hphase : s.phase with _ | ⟨idx, func, ctx⟩ | ⟨idx, ctx, line⟩ | ⟨idx, ctx⟩ | _ |
    ⟨idx, ctx, panic⟩ | panic
  · refine Or.inr (Or.inr ⟨by simp only [popped, hphase], by simp only [running, hphase], ?_⟩)
    show s.prepare.input = _ ∧ s.prepare.view = _ ∧ _ ∧ s.prepare.phase.inHand = _
    rw [System.prepare]
    rcases s.shell.sched.prepareNext s.ticks with panic | ⟨_ | ⟨idx, func, ctx⟩, sched⟩ <;>
      exact ⟨rfl, rfl, rfl, rfl⟩
  · cases func with
    | shellTask => exact Or.inl ⟨idx, ctx, rfl, rfl⟩
    | other addr =>
        refine Or.inr (Or.inr ⟨by simp only [popped, hphase], by simp only [running, hphase],
          rfl, rfl, rfl, ?_⟩)
        show s.phase.inHand = []
        rw [hphase]
        rfl
    | _ =>
        exact Or.inr (Or.inr ⟨by simp only [popped, hphase], by simp only [running, hphase],
          rfl, rfl, rfl, rfl⟩)
  · exact Or.inr (Or.inl ⟨idx, ctx, line, rfl, rfl⟩)
  · refine Or.inr (Or.inr ⟨by simp only [popped, hphase], by simp only [running, hphase], ?_⟩)
    show (s.commit idx ctx).input = _ ∧ (s.commit idx ctx).view = _ ∧ _ ∧
      (s.commit idx ctx).phase.inHand = _
    rw [System.commit]
    rcases s.shell.sched.finishTask idx ctx with panic | sched <;> exact ⟨rfl, rfl, rfl, rfl⟩
  all_goals
    refine Or.inr (Or.inr ⟨by simp only [popped, hphase], by simp only [running, hphase], rfl, rfl,
      rfl, ?_⟩)
    show s.phase.inHand = []
    rw [hphase]
    rfl

theorem inHand_woken
    (phase : Phase) :
    phase.woken.inHand = phase.inHand := by
  rcases phase with _ | _ | _ | _ | _ | _ | _ <;> rfl

/-- The shell runs the lines that it takes. -/
theorem inHand_step
    (profile : Profile) (report : UInt64 → Str → Str → ShellState → List Str) (growth : Growth)
    (s : System) (a : Action) :
    s.phase.inHand.map trim ++ (popped (s, a)).map trim =
      running (s, a) ++ (s.step profile report growth a).phase.inHand.map trim := by
  cases a with
  | key event =>
      show _ = _ ++ s.phase.woken.inHand.map trim
      rw [inHand_woken]
      exact List.append_nil _
  | timer =>
      show _ = _ ++ s.phase.woken.inHand.map trim
      rw [inHand_woken]
      exact List.append_nil _
  | main =>
      show _ = _ ++ (s.advance profile report).phase.inHand.map trim
      rcases advance_cases profile report s with
        ⟨idx, ctx, hphase, heq⟩ | ⟨idx, ctx, line, hphase, heq⟩ |
          ⟨hpopped, hrunning, -, -, hbefore, hafter⟩
      · rw [heq, System.runBody]
        have hpopped : popped (s, .main) = s.input.popLine.1.toList := by
          simp only [popped, hphase, InputBuffer.leaving]
        have hrunning : running (s, .main) = [] := by simp only [running, hphase]
        rw [hpopped, hrunning, hphase]
        rcases s.input.popLine with ⟨_ | line, input⟩ <;> rfl
      · rw [heq, System.runCommand]
        have hpopped : popped (s, .main) = [] := by simp only [popped, hphase]
        have hrunning : running (s, .main) = [trim line] := by simp only [running, hphase]
        rw [hpopped, hrunning, hphase]
        rcases handleCommand profile (report s.ticks) s.shell (trim line) with
          panic | ⟨texts, shell⟩ <;> rfl
      · rw [hpopped, hrunning, hbefore, hafter]
        rfl

/-- The lines run are those taken, up to the one in hand. -/
theorem executed_run
    (h : Run (System.Step profile report growth) s tr t) :
    s.phase.inHand.map trim ++ (tr.flatMap popped).map trim =
      executed tr ++ t.phase.inHand.map trim := by
  have hstep : ∀ s a t, System.Step profile report growth s a t →
      s.phase.inHand.map trim ++ (popped (s, a)).map trim =
        running (s, a) ++ t.phase.inHand.map trim := by
    rintro s a t rfl
    exact inHand_step profile report growth s a
  rw [List.map_flatMap]
  exact Run.conserves (fun s => s.phase.inHand.map trim) (fun x => (popped x).map trim) running
    hstep h

end MainSteps

section Views

/-- A line that stops the kernel changes nothing before. -/
theorem run_of_stops
    {line : Str}
    (view : View)
    (h : Stops profile s line) :
    view.run line = view := by
  have hname : (splitFirstSpace line).1 = "panic".toList ∨
      (splitFirstSpace line).1 = "calc".toList ∨ (splitFirstSpace line).1 = "ping".toList := by
    rcases h with (hpanic | hcalc) | hping
    · exact Or.inl hpanic
    · exact Or.inr (Or.inl hcalc.1)
    · exact Or.inr (Or.inr hping.1)
  have hcall : vfsCall line = none := by
    refine vfsCall_of_not_fileArm ?_ (Prod.mk.eta).symm
    simp only [fileArms, List.forall_mem_cons]
    rcases hname with hname | hname | hname <;> rw [hname] <;> decide
  have hprompt : (splitFirstSpace line).1 ≠ "prompt".toList := by
    rcases hname with hname | hname | hname <;> rw [hname] <;> decide
  rw [View.run, vfsAfter, hcall, promptAfter]
  simp only [hprompt, false_and, if_false]

theorem view_step
    (profile : Profile) (report : UInt64 → Str → Str → ShellState → List Str) (growth : Growth)
    (s : System) (a : Action) :
    (s.step profile report growth a).view = (running (s, a)).foldl View.run s.view := by
  cases a with
  | key event => cases event <;> rfl
  | timer => rfl
  | main =>
      show (s.advance profile report).view = _
      rcases advance_cases profile report s with
        ⟨idx, ctx, hphase, heq⟩ | ⟨idx, ctx, line, hphase, heq⟩ | ⟨-, hrunning, -, hview, -, -⟩
      · have hrunning : running (s, .main) = [] := by simp only [running, hphase]
        rw [heq, System.runBody, hrunning]
        rcases s.input.popLine with ⟨_ | line, input⟩ <;> rfl
      · have hrunning : running (s, .main) = [trim line] := by simp only [running, hphase]
        rw [heq, System.runCommand, hrunning]
        rcases hreply : handleCommand profile (report s.ticks) s.shell (trim line) with
          panic | ⟨texts, shell⟩
        · have hstops := (handleCommand_eq_error_iff profile (report s.ticks) s.shell
            (trim line)).1 ⟨panic, hreply⟩
          exact (run_of_stops s.view hstops).symm
        · show (⟨shell.vfs, shell.prompt⟩ : View) = ⟨_, _⟩
          rw [vfs_handleCommand hreply, prompt_handleCommand hreply]
          rfl
      · rw [hview, hrunning]
        rfl

/-- The files and the prompt are those of a session of the lines run. -/
theorem view_run
    (h : Run (System.Step profile report growth) s tr t) :
    t.view = (executed tr).foldl View.run s.view := by
  induction h with
  | nil => rfl
  | @snoc t u a tr before last ih =>
      obtain rfl := last
      rw [view_step, ih, executed, executed, List.flatMap_append, List.flatMap_singleton,
        List.foldl_append]

end Views

section Keys

/-- The editor after a step. -/
theorem editor_step
    (profile : Profile) (report : UInt64 → Str → Str → ShellState → List Str) (growth : Growth)
    (s : System) (a : Action) (entered : List Str) :
    (⟨(s.step profile report growth a).input.currentLine, entered ++ committed (s, a)⟩ : Editor) =
      a.event?.toList.foldl Editor.type ⟨s.input.currentLine, entered⟩ := by
  cases a with
  | key event =>
      rcases event with _ | ch | _ | _
      · exact congrArg _ (List.append_nil _)
      · have hline := InputBuffer.call_line growth s.input (.pushChar ch)
        exact congrArg₂ Editor.mk hline (List.append_nil _)
      · exact congrArg₂ Editor.mk rfl (List.append_nil _)
      · have hline := InputBuffer.call_line growth s.input .commitLine
        exact congrArg₂ Editor.mk hline rfl
  | timer => exact congrArg _ (List.append_nil _)
  | main =>
      have hline : (s.advance profile report).input.currentLine = s.input.currentLine := by
        rcases advance_cases profile report s with
          ⟨idx, ctx, -, heq⟩ | ⟨idx, ctx, line, -, heq⟩ | ⟨-, -, hinput, -, -, -⟩
        · rw [heq, System.runBody]
          rcases hpop : s.input.popLine with ⟨_ | line, input⟩
          · exact (congrArg InputBuffer.currentLine (congrArg Prod.snd hpop)).symm
          · exact (congrArg InputBuffer.currentLine (congrArg Prod.snd hpop)).symm
        · rw [heq, System.runCommand]
          split <;> rfl
        · rw [hinput]
      exact congrArg₂ Editor.mk hline (List.append_nil _)

/-- The lines committed are those that the keys enter. -/
theorem editor_run
    (h : Run (System.Step profile report growth) System.boot tr s) :
    (⟨s.input.currentLine, tr.flatMap committed⟩ : Editor) =
      (keys tr).foldl Editor.type Editor.new := by
  induction h with
  | nil => rfl
  | @snoc t u a tr before last ih =>
      obtain rfl := last
      have hkeys : keys (tr ++ [(t, a)]) = keys tr ++ a.event?.toList := by
        rw [keys, List.filterMap_append]
        rcases hevent : a.event? with _ | event <;> simp [keys, hevent]
      rw [hkeys, List.foldl_append, ← ih, List.flatMap_append, List.flatMap_singleton]
      exact editor_step profile report growth t a (tr.flatMap committed)

theorem enteredLines_keys
    (h : Run (System.Step profile report growth) System.boot tr s) :
    enteredLines (keys tr) = tr.flatMap committed := by
  rw [enteredLines, ← editor_run h]

end Keys

section Sessions

/-- With room at every Enter no line is pushed off the queue. -/
theorem HasRoom.departed_eq
    (h : HasRoom tr) :
    tr.flatMap departed = tr.flatMap popped := by
  refine List.flatMap_congr ?_
  rintro ⟨s, a⟩ hx
  have hnone : evicted (s, a) = [] := by
    rcases a with ⟨_ | _ | _ | _⟩ | _ | _
    case key.some.Enter =>
      have hroom := h _ hx rfl
      exact if_neg (Nat.not_le_of_lt hroom)
    all_goals rfl
  rw [departed, hnone, List.append_nil]

theorem popped_sublist
    (tr : List (System × Action)) :
    (tr.flatMap popped).Sublist (tr.flatMap departed) := by
  induction tr with
  | nil => exact List.Sublist.refl []
  | cons x tr ih =>
      rw [List.flatMap_cons, List.flatMap_cons]
      exact (List.sublist_append_left _ _).append ih

/--
In every run the lines that the shell has run are among the lines entered by the
keys, in order and none twice, and the file tree, `CURRENT_DIR` and the prompt
are those of a sequential session of these lines.  When every Enter finds room
in the queue they are a beginning of the lines entered, and the rest waits.
-/
theorem session_of_keys
    (profile : Profile) (report : UInt64 → Str → Str → ShellState → List Str) (growth : Growth)
    (tr : List (System × Action)) (s : System)
    (h : Run (System.Step profile report growth) System.boot tr s) :
    (executed tr).Sublist ((enteredLines (keys tr)).map trim) ∧
    s.view = session (executed tr) ∧
    (HasRoom tr → executed tr ++ s.waiting.map trim = (enteredLines (keys tr)).map trim) := by
  have hqueue : tr.flatMap committed = tr.flatMap departed ++ s.input.readyLines.items :=
    queue_run h
  have hexecuted : (tr.flatMap popped).map trim = executed tr ++ s.phase.inHand.map trim :=
    executed_run h
  rw [enteredLines_keys h, hqueue]
  refine ⟨?_, view_run h, fun hroom => ?_⟩
  · have hprefix : (executed tr).Sublist ((tr.flatMap popped).map trim) := by
      rw [hexecuted]
      exact List.sublist_append_left _ _
    refine hprefix.trans (List.Sublist.map trim ?_)
    exact (popped_sublist tr).trans (List.sublist_append_left _ _)
  · rw [hroom.departed_eq, List.map_append, hexecuted, System.waiting, List.map_append,
      List.append_assoc]

/-- Everything entered has been run, and by whom or when does not matter. -/
theorem view_of_settled
    (h : Run (System.Step profile report growth) System.boot tr s)
    (hroom : HasRoom tr)
    (hsettled : s.waiting = []) :
    s.view = session ((enteredLines (keys tr)).map trim) := by
  have hqueue : tr.flatMap committed = tr.flatMap departed ++ s.input.readyLines.items :=
    queue_run h
  have hexecuted : (tr.flatMap popped).map trim = executed tr ++ s.phase.inHand.map trim :=
    executed_run h
  obtain ⟨hhand, hready⟩ := List.append_eq_nil_iff.1 hsettled
  rw [hhand, List.map_nil, List.append_nil] at hexecuted
  rw [enteredLines_keys h, hqueue, hready, List.append_nil, hroom.departed_eq, hexecuted]
  exact view_run h

/--
Two runs with the same keys leave the same files, the same directory and the
same prompt, once every line entered has been run and none was pushed off the
queue: whatever the ticks, the moments of the keys, the steps of the other
tasks and the build.
-/
theorem schedule_independence
    (profile profile' : Profile) (report report' : UInt64 → Str → Str → ShellState → List Str)
    (growth growth' : Growth)
    (tr tr' : List (System × Action)) (s s' : System)
    (h : Run (System.Step profile report growth) System.boot tr s)
    (h' : Run (System.Step profile' report' growth') System.boot tr' s')
    (hkeys : keys tr = keys tr')
    (hroom : HasRoom tr) (hroom' : HasRoom tr')
    (hsettled : s.waiting = []) (hsettled' : s'.waiting = []) :
    s.shell.vfs = s'.shell.vfs ∧ s.shell.prompt = s'.shell.prompt := by
  have hview : s.view = s'.view := by
    rw [view_of_settled h hroom hsettled, view_of_settled h' hroom' hsettled', hkeys]
  exact ⟨congrArg View.vfs hview, congrArg View.prompt hview⟩

/-- The keys come at once, or with ticks and turns of the other tasks in between. -/
def early : List Action :=
  typing "cd bin" ++ throughShell

def late : List Action :=
  [.timer, .main, .main] ++ typing "cd bin" ++ [.key none, .main, .timer] ++ throughShell

theorem session_of_keys_early :
    (System.after .dev (fun _ _ _ _ => []) .doubling early).view =
      session (executed (Run.trail (System.step .dev (fun _ _ _ _ => []) .doubling)
        System.boot early)) := by
  have hrun := Run.run_trail (System.step .dev (fun _ _ _ _ => []) .doubling) System.boot early
  exact (session_of_keys .dev (fun _ _ _ _ => []) .doubling _ _ hrun).2.1

theorem schedule_independence_early_late :
    (System.after .dev (fun _ _ _ _ => []) .doubling early).shell.vfs =
      (System.after .release (fun _ _ _ _ => []) .doubling late).shell.vfs := by
  have hrun := Run.run_trail (System.step .dev (fun _ _ _ _ => []) .doubling) System.boot early
  have hrun' := Run.run_trail (System.step .release (fun _ _ _ _ => []) .doubling) System.boot late
  have hroom : HasRoom (Run.trail (System.step .dev (fun _ _ _ _ => []) .doubling)
      System.boot early) := by
    unfold HasRoom
    decide +kernel
  have hroom' : HasRoom (Run.trail (System.step .release (fun _ _ _ _ => []) .doubling)
      System.boot late) := by
    unfold HasRoom
    decide +kernel
  exact (schedule_independence .dev .release (fun _ _ _ _ => []) (fun _ _ _ _ => []) .doubling
    .doubling _ _ _ _ hrun hrun' (by decide +kernel) hroom hroom' (by decide +kernel)
    (by decide +kernel)).1

end Sessions

end MainLoop
end OpenKernel
