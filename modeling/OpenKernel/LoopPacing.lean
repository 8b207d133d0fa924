import OpenKernel.TaskLifetimes

/-!
# The pace of the loop

`run` sleeps after each dispatch, so it works only when an interrupt has ended
its sleep.  Every wake pays for one scan and for the three steps of a turn, and
every line that the shell takes pays for the step that runs it; nothing else
makes the main context move (`steps_per_wake`).
-/

namespace OpenKernel
namespace MainLoop

open Vfs Scheduling Shell Input

section Pacing

variable {profile : Profile} {report : UInt64 → Str → Str → ShellState → List Str}
variable {growth : Growth} {s t : System} {a : Action} {tr : List (System × Action)}

/-- An interrupt that ends the sleep. -/
def wakes : System × Action → Bool
  | (_, .main) => false
  | (s, _) =>
      match s.phase with
      | .asleep => true
      | _ => false

/-- A step of the main context that does something. -/
def moves : System × Action → Bool
  | (s, .main) =>
      match s.phase with
      | .asleep | .stopped _ _ _ | .failed _ => false
      | _ => true
  | _ => false

/-- The scans that are due before the next sleep. -/
def Phase.due : Phase → Nat
  | .scan => 1
  | _ => 0

/-- The steps that are left before the next sleep, if no line is taken. -/
def Phase.left : Phase → Nat
  | .scan => 3
  | .body _ _ _ | .command _ _ _ => 2
  | .returned _ _ | .stopped _ _ _ => 1
  | .asleep | .failed _ => 0

/-- The scans of a step are paid by the wakes, and its moves by the wakes and the lines. -/
structure Paid (s : System) (a : Action) (t : System) : Prop where
  scan : (scanned (s, a)).length + t.phase.due = (wakes (s, a)).toNat + s.phase.due
  move : (moves (s, a)).toNat + t.phase.left =
    (3 * (wakes (s, a)).toNat + (popped (s, a)).length) + s.phase.left

theorem paid_interrupt
    (ha : a ≠ .main)
    (hphase : t.phase = s.phase.woken) :
    Paid s a t := by
  have hquiet : scanned (s, a) = [] ∧ moves (s, a) = false ∧ popped (s, a) = [] := by
    cases a <;> first | exact absurd rfl ha | exact ⟨rfl, rfl, rfl⟩
  have hwakes : wakes (s, a) = match s.phase with | .asleep => true | _ => false := by
    cases a <;> first | exact absurd rfl ha | rfl
  constructor
  · rw [hquiet.1, hwakes, hphase]
    rcases s.phase with _ | _ | _ | _ | _ | _ | _ <;> rfl
  · rw [hquiet.2.1, hquiet.2.2, hwakes, hphase]
    rcases s.phase with _ | _ | _ | _ | _ | _ | _ <;> rfl

/-- A step of the main context inside a turn. -/
theorem paid_turn
    (hscanned : scanned (s, .main) = [])
    (hdue : t.phase.due = s.phase.due)
    (hleft : (moves (s, .main)).toNat + t.phase.left =
      (popped (s, .main)).length + s.phase.left) :
    Paid s .main t where
  scan := by
    rw [hscanned, hdue]
    rfl
  move := hleft.trans (congrArg (· + s.phase.left) (Nat.zero_add _).symm)

theorem paid_prepare
    (h : Alive s)
    (hphase : s.phase = .scan) :
    Paid s .main s.prepare := by
  obtain ⟨idx, task, ctx, sched, -, -, -, -, -, heq⟩ := h.prepare_eq hphase
  have hscanned : (scanned (s, .main)).length = 1 := by simp [scanned, hphase]
  have hmoves : moves (s, .main) = true := by simp only [moves, hphase]
  have hpopped : popped (s, .main) = [] := by simp only [popped, hphase]
  rw [heq]
  constructor
  · rw [hscanned, hphase]
    rfl
  · rw [hmoves, hpopped, hphase]
    rfl

theorem paid_runBody
    (h : Alive s)
    {idx : Nat} {func : TaskFn} {ctx : TaskContext}
    (hphase : s.phase = .body idx func ctx) :
    Paid s .main (s.runBody idx func ctx) := by
  have hat := h.phase
  rw [hphase] at hat
  have hscanned : scanned (s, .main) = [] := by simp only [scanned, hphase]
  have hmoves : moves (s, .main) = true := by simp only [moves, hphase]
  cases func with
  | shellTask =>
      have hpopped : popped (s, .main) = s.input.popLine.1.toList := by
        simp only [popped, hphase]
        rfl
      rw [System.runBody]
      rcases hpop : s.input.popLine with ⟨_ | line, input⟩
      · refine paid_turn hscanned (by rw [hphase]; rfl) ?_
        rw [hmoves, hpopped, hpop, hphase]
        rfl
      · refine paid_turn hscanned (by rw [hphase]; rfl) ?_
        rw [hmoves, hpopped, hpop, hphase]
        rfl
  | other addr => exact absurd hat.1 (h.seated.known idx addr)
  | _ =>
      have hpopped : popped (s, .main) = [] := by simp only [popped, hphase]
      refine paid_turn hscanned (by rw [hphase]; rfl) ?_
      rw [hmoves, hpopped, hphase]
      rfl

theorem paid_runCommand
    {idx : Nat} {ctx : TaskContext} {line : Str}
    (hphase : s.phase = .command idx ctx line) :
    Paid s .main (s.runCommand profile report idx ctx line) := by
  have hscanned : scanned (s, .main) = [] := by simp only [scanned, hphase]
  have hmoves : moves (s, .main) = true := by simp only [moves, hphase]
  have hpopped : popped (s, .main) = [] := by simp only [popped, hphase]
  rw [System.runCommand]
  split
  all_goals
    refine paid_turn hscanned (by rw [hphase]; rfl) ?_
    rw [hmoves, hpopped, hphase]
    rfl

theorem paid_commit
    (h : Alive s)
    {idx : Nat} {ctx : TaskContext}
    (hphase : s.phase = .returned idx ctx) :
    Paid s .main (s.commit idx ctx) := by
  obtain ⟨_, -, heq⟩ := h.commit_eq hphase
  have hscanned : scanned (s, .main) = [] := by simp only [scanned, hphase]
  have hmoves : moves (s, .main) = true := by simp only [moves, hphase]
  have hpopped : popped (s, .main) = [] := by simp only [popped, hphase]
  rw [heq]
  refine paid_turn hscanned (by rw [hphase]; rfl) ?_
  rw [hmoves, hpopped, hphase]
  rfl

theorem paid_step
    (profile : Profile) (report : UInt64 → Str → Str → ShellState → List Str) (growth : Growth)
    (s : System) (a : Action) (t : System)
    (h : Alive s)
    (hstep : System.Step profile report growth s a t) :
    Paid s a t := by
  obtain rfl := hstep
  cases a with
  | key event => cases event <;> exact paid_interrupt Action.noConfusion rfl
  | timer => exact paid_interrupt Action.noConfusion rfl
  | main =>
      show Paid s .main (s.advance profile report)
      rw [System.advance]
      rcases hphase : s.phase with _ | ⟨idx, func, ctx⟩ | ⟨idx, ctx, line⟩ | ⟨idx, ctx⟩ | _ | _ | _
      · exact paid_prepare h hphase
      · exact paid_runBody h hphase
      · exact paid_runCommand hphase
      · exact paid_commit h hphase
      all_goals
        refine paid_turn (by simp only [scanned, hphase]) rfl ?_
        simp [moves, popped, hphase]

theorem sum_map_toNat
    {α : Type} (p : α → Bool) (xs : List α) :
    (xs.map fun x => (p x).toNat).sum = xs.countP p := by
  induction xs with
  | nil => rfl
  | cons x xs ih =>
      rw [List.map_cons, List.sum_cons, ih, List.countP_cons]
      cases p x <;> simp [Nat.add_comm]

/--
The loop is driven by interrupts: from the boot on it has scanned once for the
boot and once for each interrupt that ended a sleep, a scan that is due apart.
Each of these turns takes three steps of the main context, and each line that
the shell has taken adds one; the loop makes no other step.
-/
theorem steps_per_wake
    (profile : Profile) (report : UInt64 → Str → Str → ShellState → List Str) (growth : Growth)
    (tr : List (System × Action)) (s : System)
    (h : Run (System.Step profile report growth) System.boot tr s) :
    scans tr + s.phase.due = tr.countP wakes + 1 ∧
    tr.countP moves + s.phase.left = 3 * (tr.countP wakes + 1) + (tr.flatMap popped).length := by
  have hscan := Run.balances (fun s => s.phase.due) (fun x => (scanned x).length)
    (fun x => (wakes x).toNat) (alive_of_step profile report growth)
    (fun s a t hs hst => (paid_step profile report growth s a t hs hst).scan) h alive_boot
  have hmove := Run.balances (fun s => s.phase.left) (fun x => (moves x).toNat)
    (fun x => 3 * (wakes x).toNat + (popped x).length) (alive_of_step profile report growth)
    (fun s a t hs hst => (paid_step profile report growth s a t hs hst).move) h alive_boot
  have hdue : System.boot.phase.due = 1 := rfl
  have hleft : System.boot.phase.left = 3 := rfl
  rw [sum_map_toNat, hdue, ← List.length_flatMap] at hscan
  rw [sum_map_toNat, List.sum_map_add, List.sum_map_mul_left, sum_map_toNat,
    ← List.length_flatMap, hleft] at hmove
  exact ⟨hscan, by omega⟩

/-- A turn of the shell that takes a line, after the turns of the other tasks. -/
theorem steps_per_wake_typed :
    scans (Run.trail (System.step .dev (fun _ _ _ _ => []) .doubling) System.boot
      (typing "pwd" ++ throughShell)) = 4 ∧
    (Run.trail (System.step .dev (fun _ _ _ _ => []) .doubling) System.boot
      (typing "pwd" ++ throughShell)).countP moves = 13 := by
  have hrun := Run.run_trail (System.step .dev (fun _ _ _ _ => []) .doubling) System.boot
    (typing "pwd" ++ throughShell)
  obtain ⟨hscans, hmoves⟩ := steps_per_wake .dev (fun _ _ _ _ => []) .doubling _ _ hrun
  exact ⟨hscans, hmoves⟩

end Pacing

end MainLoop
end OpenKernel
