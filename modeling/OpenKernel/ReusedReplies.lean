import OpenKernel.CommandEffects
import OpenKernel.NumberText

/-!
# Replies that are typed in again

The shell has no variables: a user goes on with a result by typing the last word
of what was printed.  `calcSession` is a user who computes like that, one `calc`
line for each operation, and `Chain` is the computation in exact numbers.

The session ends with the text of the exact result whenever every step has one
that the machine computes; in the development build it ends with no other number
(`calc_session_exact`).

`runErrands` is a user of the task table, who spawns tasks and kills none but the
pids that these spawns have printed (`own_pids_spare_others`).
-/

namespace OpenKernel
namespace Shell

open Vfs Scheduling

section Sessions

/-- The line for one operation. -/
def calcLine (op : Operator) (first second : Str) : Str :=
  "calc ".toList ++ (first ++ ' ' :: (op.text ++ ' ' :: second))

/-- The last word of what was printed. -/
def lastWord (texts : List Str) : Str :=
  (splitWhitespace texts.flatten).getLastD []

/-- A user who computes step by step, starting from a number `acc` on the screen. -/
def calcSession (profile : Profile) (report : Str → Str → ShellState → List Str) :
    ShellState → Str → List (Operator × Int) → Except CommandPanic (Str × ShellState)
  | shell, acc, [] => .ok (acc, shell)
  | shell, acc, (op, b) :: steps =>
      match handleCommand profile report shell (calcLine op acc (intText b)) with
      | .ok (texts, shell) => calcSession profile report shell (lastWord texts) steps
      | .error panic => .error panic

/-- `Chain v steps u`: the exact computation from `v` has a result at every step that the
machine operation returns as well, and the last one is `u`. -/
inductive Chain : Int → List (Operator × Int) → Int → Prop
  | nil
      (v : Int) :
      Chain v [] v
  | cons
      {op : Operator} {v b w u : Int} {steps : List (Operator × Int)}
      (hop : ¬ op.Overflows v b)
      (hexact : op.exact v b = some w)
      (rest : Chain w steps u) :
      Chain v ((op, b) :: steps) u

end Sessions

section Words

theorem isWord_text
    (op : Operator) :
    IsWord op.text := by
  cases op <;> exact ⟨List.cons_ne_nil _ _, by simp [Operator.text, isWhitespace]⟩

/-- Two words around an operator are the three words of the arguments. -/
theorem splitWhitespace_calcLine
    {first second : Str} (op : Operator)
    (hfirst : IsWord first) (hsecond : IsWord second) :
    splitWhitespace (first ++ ' ' :: (op.text ++ ' ' :: second)) = [first, op.text, second] := by
  rw [splitWhitespace_word_space hfirst, splitWhitespace_word_space (isWord_text op),
    splitWhitespace_word hsecond]

/-- A word at the end of the last text is the last word. -/
theorem lastWord_of_word
    {w : Str}
    (h : IsWord w)
    (s : Str) :
    lastWord [s ++ ' ' :: w] = w := by
  have hsplit : splitWhitespace (s ++ ' ' :: w) = splitWhitespace s ++ [w] := by
    rw [← splitWhitespace_word h]
    simp only [splitWhitespace, partsBy, List.splitOnP_append_cons s w (show isWhitespace ' ' from rfl),
      List.filter_append]
  rw [lastWord, List.flatten_singleton, hsplit, List.getLastD_concat]

theorem lastWord_resultText
    (num1 : Int) (op : Str) (num2 val : Int) :
    lastWord [resultText num1 op num2 val] = intText val := by
  have htext : resultText num1 op num2 val =
      (intText num1 ++ " ".toList ++ op ++ " ".toList ++ intText num2 ++ " =".toList) ++
        ' ' :: intText val := by
    simp [resultText]
  rw [htext]
  exact lastWord_of_word (isWord_intText val) _

end Words

section Steps

variable {profile : Profile} {report : Str → Str → ShellState → List Str} {shell : ShellState}
variable {op : Operator} {v b w u : Int} {steps : List (Operator × Int)}

theorem isExpression_calcLine
    (op : Operator)
    (hv : I64.Fits v) (hb : I64.Fits b) :
    IsExpression (intText v ++ ' ' :: (op.text ++ ' ' :: intText b)) op v b :=
  ⟨_, _, splitWhitespace_calcLine op (isWord_intText v) (isWord_intText b), parseI64_intText hv,
    parseI64_intText hb⟩

/-- A step that the machine computes prints the exact result, or the message of a zero divisor. -/
theorem handleCommand_calcLine
    (hv : I64.Fits v) (hb : I64.Fits b)
    (hop : ¬ op.Overflows v b) :
    handleCommand profile report shell (calcLine op (intText v) (intText b)) =
      .ok (match op.exact v b with
        | some w => [resultText v op.text b w]
        | none => [calcError], shell) := by
  obtain ⟨heval, -⟩ := evaluate_of_not_overflows profile hv hop
  unfold calcLine
  rw [handleCommand_calc, calcArm_of_expression (isExpression_calcLine op hv hb), heval]
  rcases op.exact v b with _ | w <;> rfl

/-- The development build stops at an overflow. -/
theorem handleCommand_calcLine_overflows
    (hv : I64.Fits v) (hb : I64.Fits b)
    (hop : op.Overflows v b) :
    ∃ panic, handleCommand .dev report shell (calcLine op (intText v) (intText b)) =
      .error panic := by
  obtain ⟨panic, heval⟩ := (@evaluate_eq_error_iff .dev op v b).2 hop
  refine ⟨.arith panic, ?_⟩
  unfold calcLine
  rw [handleCommand_calc, calcArm_of_expression (isExpression_calcLine op hv hb), heval]
  rfl

/-- The last words of the two messages of `calc`. -/
def Junk (acc : Str) : Prop :=
  acc = "zero".toList ∨ acc = "<num2>".toList

theorem Junk.isWord
    {acc : Str}
    (h : Junk acc) :
    IsWord acc := by
  rcases h with rfl | rfl <;> exact ⟨by decide, by simp [isWhitespace]⟩

theorem Junk.parseI64
    {acc : Str}
    (h : Junk acc) :
    parseI64 acc = none := by
  rcases h with rfl | rfl <;> decide

/-- Neither of them is a number. -/
theorem Junk.ne_intText
    {acc : Str}
    (h : Junk acc) (v : Int) :
    acc ≠ intText v := by
  obtain ⟨ch, rest, htext, hch⟩ := head_intText v
  rw [htext]
  rcases h with rfl | rfl
  · intro heq
    obtain rfl : 'z' = ch := (List.cons.inj heq).1
    exact absurd hch (by decide)
  · intro heq
    obtain rfl : '<' = ch := (List.cons.inj heq).1
    exact absurd hch (by decide)

theorem calcSession_cons
    (acc : Str) (op : Operator) (b : Int) (steps : List (Operator × Int)) :
    calcSession profile report shell acc ((op, b) :: steps) =
      match handleCommand profile report shell (calcLine op acc (intText b)) with
      | .ok (texts, shell) => calcSession profile report shell (lastWord texts) steps
      | .error panic => .error panic := rfl

/-- A message that is typed in again leads to another message. -/
theorem calcSession_junk
    {acc : Str}
    (h : Junk acc)
    (steps : List (Operator × Int)) :
    ∃ acc', Junk acc' ∧ calcSession profile report shell acc steps = .ok (acc', shell) := by
  induction steps generalizing acc with
  | nil => exact ⟨acc, h, rfl⟩
  | cons step steps ih =>
      obtain ⟨op, b⟩ := step
      have harm : calcArm profile (acc ++ ' ' :: (op.text ++ ' ' :: intText b)) =
          .ok [calcUsage] := by
        simp only [calcArm, splitWhitespace_calcLine op h.isWord (isWord_intText b), h.parseI64]
      have husage : Junk (lastWord [calcUsage]) := Or.inr (by decide)
      obtain ⟨acc', hjunk, hrest⟩ := ih husage
      refine ⟨acc', hjunk, ?_⟩
      rw [calcSession_cons]
      unfold calcLine
      rw [handleCommand_calc, harm]
      exact hrest

theorem natText_injective
    {m n : Nat}
    (h : natText m = natText n) :
    m = n := by
  have hvalue := congrArg digitsValue h
  rw [digitsValue_natText, digitsValue_natText] at hvalue
  exact Option.some.inj hvalue

theorem intText_injective
    {v w : Int}
    (h : intText v = intText w) :
    v = w := by
  have hsign : ∀ m n, '-' :: natText m ≠ natText n := by
    intro m n heq
    obtain ⟨ch, rest, htext, -, hminus⟩ := natText_eq_cons n
    rw [htext] at heq
    exact hminus (List.cons.inj heq).1.symm
  unfold intText at h
  split at h
  · split at h
    · have := natText_injective (List.cons.inj h).2
      omega
    · exact absurd h (hsign _ _)
  · split at h
    · exact absurd h.symm (hsign _ _)
    · have := natText_injective h
      omega

theorem calcSession_of_chain
    (hsteps : ∀ step ∈ steps, I64.Fits step.2)
    (hv : I64.Fits v)
    (h : Chain v steps u) :
    calcSession profile report shell (intText v) steps = .ok (intText u, shell) := by
  induction h with
  | nil v => rfl
  | @cons op v b w u steps hop hexact _ ih =>
      have hb : I64.Fits b := hsteps (op, b) List.mem_cons_self
      have hw : I64.Fits w := (evaluate_of_not_overflows profile hv hop).2 w hexact
      rw [calcSession_cons, handleCommand_calcLine hv hb hop, hexact]
      dsimp only
      rw [lastWord_resultText]
      exact ih (fun step hstep => hsteps step (List.mem_cons_of_mem _ hstep)) hw

theorem chain_of_calcSession
    (hsteps : ∀ step ∈ steps, I64.Fits step.2)
    (hv : I64.Fits v)
    (h : calcSession .dev report shell (intText v) steps = .ok (intText u, shell)) :
    Chain v steps u := by
  induction steps generalizing v with
  | nil =>
      injection h with hpair
      obtain rfl := intText_injective (Prod.mk.inj hpair).1
      exact .nil v
  | cons step steps ih =>
      obtain ⟨op, b⟩ := step
      have hb : I64.Fits b := hsteps (op, b) List.mem_cons_self
      rw [calcSession_cons] at h
      by_cases hop : op.Overflows v b
      · obtain ⟨panic, hpanic⟩ :=
          @handleCommand_calcLine_overflows report shell op v b hv hb hop
        rw [hpanic] at h
        cases h
      · rw [handleCommand_calcLine hv hb hop] at h
        rcases hexact : op.exact v b with _ | w
        · rw [hexact] at h
          have hzero : Junk (lastWord [calcError]) := Or.inl (by decide)
          obtain ⟨acc', hjunk, hsession⟩ :=
            @calcSession_junk .dev report shell _ hzero steps
          have heq : (Except.ok (acc', shell) : Except CommandPanic (Str × ShellState)) =
              .ok (intText u, shell) := hsession.symm.trans h
          injection heq with hpair
          exact absurd (Prod.mk.inj hpair).1 (hjunk.ne_intText u)
        · rw [hexact] at h
          dsimp only at h
          rw [lastWord_resultText] at h
          have hw : I64.Fits w := (evaluate_of_not_overflows .dev hv hop).2 w hexact
          exact .cons hop hexact
            (ih (fun step hstep => hsteps step (List.mem_cons_of_mem _ hstep)) hw h)

end Steps

/--
A computation of any length that goes through the screen: the last number
printed is the exact result if every step has one and does not overflow, and the
development build prints no other number at the end.
-/
theorem calc_session_exact
    (profile : Profile) (report : Str → Str → ShellState → List Str) (shell : ShellState)
    (v u : Int) (steps : List (Operator × Int))
    (hv : I64.Fits v)
    (hsteps : ∀ step ∈ steps, I64.Fits step.2) :
    (Chain v steps u →
      calcSession profile report shell (intText v) steps = .ok (intText u, shell)) ∧
    (calcSession .dev report shell (intText v) steps = .ok (intText u, shell) ↔
      Chain v steps u) :=
  ⟨calcSession_of_chain hsteps hv, chain_of_calcSession hsteps hv, calcSession_of_chain hsteps hv⟩

theorem calc_session_exact_two_steps :
    calcSession .release (fun _ _ _ => [])
        ⟨Statics.init, Scheduler.new, "root".toList, Net.NetworkStack.new⟩
        (intText 7) [(.mul, 6), (.sub, 2)] =
      .ok (intText 40, ⟨Statics.init, Scheduler.new, "root".toList, Net.NetworkStack.new⟩) := by
  have hmul : ¬ Operator.mul.Overflows 7 6 := by simp [Operator.Overflows, I64.Fits]
  have hsub : ¬ Operator.sub.Overflows 42 2 := by simp [Operator.Overflows, I64.Fits]
  have hsteps : ∀ step ∈ [(Operator.mul, (6 : Int)), (Operator.sub, 2)], I64.Fits step.2 := by
    simp [I64.Fits]
  exact (calc_session_exact .release (fun _ _ _ => []) _ 7 40 _ (by simp [I64.Fits]) hsteps).1
    (.cons hmul rfl (.cons hsub rfl (.nil 40)))

section Errands

/-- What a user does with the task table: a spawn, of which the last word is noted, or a kill
of the `i`-th word noted. -/
inductive Errand where
  | spawn (args : Str)
  | kill (i : Nat)

/-- The words noted and the state after a list of errands. -/
def runErrands (profile : Profile) (report : Str → Str → ShellState → List Str) :
    ShellState → List Str → List Errand → Except CommandPanic (List Str × ShellState)
  | shell, noted, [] => .ok (noted, shell)
  | shell, noted, .spawn args :: errands =>
      match handleCommand profile report shell ("spawn ".toList ++ args) with
      | .ok (texts, shell) => runErrands profile report shell (noted ++ [lastWord texts]) errands
      | .error panic => .error panic
  | shell, noted, .kill i :: errands =>
      match noted[i]? with
      | some word =>
          match handleCommand profile report shell ("kill ".toList ++ word) with
          | .ok (_, shell) => runErrands profile report shell noted errands
          | .error panic => .error panic
      | none => runErrands profile report shell noted errands

variable {profile : Profile} {report : Str → Str → ShellState → List Str} {shell : ShellState}

theorem handleCommand_spawn
    (args : Str) :
    handleCommand profile report shell ("spawn ".toList ++ args) =
      .ok (spawn shell (trim args)) := by
  have hspace : ' ' ∉ "spawn".toList := by decide
  exact handleCommand_spawnArm (splitFirstSpace_append args hspace)

theorem handleCommand_kill
    (args : Str) :
    handleCommand profile report shell ("kill ".toList ++ args) =
      .ok (kill shell (trim args)) := by
  have hsplit : splitFirstSpace ("kill ".toList ++ args) = ("kill".toList, trim args) := by
    have hspace : ' ' ∉ "kill".toList := by decide
    exact splitFirstSpace_append args hspace
  have hreport : "kill".toList ∉ reportNames := by decide
  rw [handleCommand, hsplit]
  simp only [if_neg hreport]
  rfl

/-- The slot holds no task, or one that has finished. -/
def FreeSlot (sched : Scheduler) (idx : Nat) : Prop :=
  sched.slot idx = none ∨ sched.stateAt idx = some .Finished

/-- A noted word: the pid of a slot that is free in `sched`, or the end of the message. -/
def Noted (sched : Scheduler) (word : Str) : Prop :=
  word = "full".toList ∨ ∃ id < MAX_TASKS, FreeSlot sched id ∧ word = natText id

/-- A spawn takes a free slot, and the last word printed is its pid. -/
theorem spawn_cases
    (args : Str) :
    (∃ id task, id < MAX_TASKS ∧ FreeSlot shell.sched id ∧
      lastWord (spawn shell args).1 = natText id ∧
      (spawn shell args).2.sched = shell.sched.setSlot id task) ∨
    (lastWord (spawn shell args).1 = "full".toList ∧ (spawn shell args).2 = shell) := by
  rw [spawn]
  rcases hspawn : spawnTask shell.sched "user-worker" with ⟨_ | id, sched⟩
  · obtain ⟨rfl, -⟩ := Scheduler.spawnTask_eq_none_iff.1 hspawn
    have hword : lastWord ["Failed to spawn task: scheduler full".toList] = "full".toList := by
      decide
    exact .inr ⟨hword, rfl⟩
  · obtain ⟨hlt, hfree, rfl⟩ := Scheduler.spawnTask_eq_some hspawn
    refine .inl ⟨id, _, hlt, hfree, ?_, rfl⟩
    have htext : ∀ name : Str, "Spawned task '".toList ++ name ++ "' with pid ".toList ++ natText id =
        ("Spawned task '".toList ++ name ++ "' with pid".toList) ++ ' ' :: natText id := by
      intro name
      simp
    dsimp only
    rw [htext]
    exact lastWord_of_word (isWord_natText id) _

/-- A kill of a noted word changes at most a slot that is free in `sched`. -/
theorem kill_noted
    {sched : Scheduler} {word : Str}
    (h : Noted sched word) :
    (∃ id task, FreeSlot sched id ∧
      (kill shell (trim word)).2.sched = shell.sched.setSlot id task) ∨
    (kill shell (trim word)).2.sched = shell.sched := by
  rcases h with rfl | ⟨id, hlt, hfree, rfl⟩
  · have hparse : parseUsize (trim "full".toList) = none := by decide
    rw [kill, hparse]
    exact .inr rfl
  · have hsmall : id < 2 ^ 64 := lt_of_lt_of_le hlt (by decide)
    rw [trim_word (isWord_natText id), kill, parseUsize_natText hsmall]
    rcases hkill : killTask shell.sched id with ⟨_ | _, sched'⟩
    · obtain ⟨-, rfl⟩ := Scheduler.killTask_eq_false_iff.1 hkill
      right
      simp [hkill]
    · obtain ⟨task, -, rfl⟩ := Scheduler.killTask_eq_true_iff.1 hkill
      left
      exact ⟨id, { task with state := .Finished }, hfree, by simp [hkill]⟩

/-- The slots that are not free in `sched` are as they are there. -/
def KeepsBusy (sched sched' : Scheduler) : Prop :=
  ∀ idx, ¬ FreeSlot sched idx → sched'.slot idx = sched.slot idx

theorem KeepsBusy.setSlot
    {sched sched' : Scheduler} {id : Nat}
    (h : KeepsBusy sched sched')
    (hfree : FreeSlot sched id)
    (task : Task) :
    KeepsBusy sched (sched'.setSlot id task) := by
  intro idx hidx
  have hne : id ≠ idx := fun heq => hidx (heq ▸ hfree)
  exact (Scheduler.slot_setSlot_ne _ _ hne).trans (h idx hidx)

/-- A slot that is free now was free before, or is spared. -/
theorem KeepsBusy.freeSlot
    {sched sched' : Scheduler} {id : Nat}
    (h : KeepsBusy sched sched')
    (hfree : FreeSlot sched' id) :
    FreeSlot sched id := by
  by_contra hbusy
  have hslot := h id hbusy
  refine hbusy ?_
  rw [FreeSlot, Scheduler.stateAt, hslot] at hfree
  exact hfree

theorem runErrands_keepsBusy
    {sched : Scheduler} {noted : List Str}
    (hnoted : ∀ word ∈ noted, Noted sched word)
    (h : KeepsBusy sched shell.sched)
    (errands : List Errand) :
    ∃ noted' shell', runErrands profile report shell noted errands = .ok (noted', shell') ∧
      KeepsBusy sched shell'.sched := by
  induction errands generalizing shell noted with
  | nil => exact ⟨noted, shell, rfl, h⟩
  | cons errand errands ih =>
      cases errand with
      | spawn args =>
          rw [runErrands, handleCommand_spawn]
          dsimp only
          rcases @spawn_cases shell (trim args) with
            ⟨id, task, hlt, hfree, hword, hsched⟩ | ⟨hword, hsame⟩
          · have hfree' : FreeSlot sched id := h.freeSlot hfree
            refine ih ?_ (hsched ▸ h.setSlot hfree' task)
            intro word hin
            rcases List.mem_append.1 hin with hin | hin
            · exact hnoted word hin
            · obtain rfl := List.mem_singleton.1 hin
              exact Or.inr ⟨id, hlt, hfree', hword⟩
          · refine ih ?_ (hsame.symm ▸ h)
            intro word hin
            rcases List.mem_append.1 hin with hin | hin
            · exact hnoted word hin
            · obtain rfl := List.mem_singleton.1 hin
              exact Or.inl hword
      | kill i =>
          rw [runErrands]
          rcases hword : noted[i]? with _ | word
          · exact ih hnoted h
          · dsimp only
            rw [handleCommand_kill]
            dsimp only
            refine ih hnoted ?_
            rcases @kill_noted shell sched word (hnoted word (List.mem_of_getElem? hword)) with
              ⟨id, task, hfree, hsched⟩ | hsame
            · exact hsched ▸ h.setSlot hfree task
            · exact hsame.symm ▸ h

/--
A user who kills nothing but the pids that earlier spawns have printed never
touches a task that was there before: every slot with an unfinished task holds
exactly that task after any number of such lines.
-/
theorem own_pids_spare_others
    (profile : Profile) (report : Str → Str → ShellState → List Str) (shell : ShellState)
    (errands : List Errand) :
    ∃ noted shell', runErrands profile report shell [] errands = .ok (noted, shell') ∧
      ∀ idx task, shell.sched.slot idx = some task → task.state ≠ .Finished →
        shell'.sched.slot idx = some task := by
  have hstart : KeepsBusy shell.sched shell.sched := fun _ _ => rfl
  obtain ⟨noted, shell', hrun, hkeeps⟩ :=
    @runErrands_keepsBusy profile report shell shell.sched [] (by simp) hstart errands
  refine ⟨noted, shell', hrun, fun idx task hslot hstate => ?_⟩
  exact (hkeeps idx (Scheduler.not_free_of_slot hslot hstate)).trans hslot

end Errands

end Shell
end OpenKernel
