import OpenKernel.ShellFiles

/-!
# What a command does to the statics

`handle_command` as its caller sees it.  `commandEffect_handleCommand` lists
the ways in which a line can end: with a panic, with a new prompt, with one call
on the task table or the network stack, or with all of these as they were.  Later
modules use this list and never unfold the arms.

A line stops the kernel iff it is a `panic` line, a `calc` line whose operation
the build does not settle, or a `ping` line that meets a full counter
(`handleCommand_eq_error_iff`).
-/

namespace OpenKernel
namespace Shell

open Vfs Scheduling Net

/-- Nothing but the files may have changed. -/
def ShellState.OnlyFiles (shell shell' : ShellState) : Prop :=
  shell'.sched = shell.sched ∧ shell'.prompt = shell.prompt ∧ shell'.net = shell.net

/-- The ways in which the line of a command name and its arguments can end. -/
inductive CommandEffect (profile : Profile) (shell : ShellState) (cmd_name args : Str) :
    Reply → Prop
  | requested
      (hname : cmd_name = "panic".toList) :
      CommandEffect profile shell cmd_name args (.error .requested)
  | arith {panic : ArithPanic}
      (hname : cmd_name = "calc".toList)
      (hcalc : calcArm profile args = .error panic) :
      CommandEffect profile shell cmd_name args (.error (.arith panic))
  | prompt
      (hname : cmd_name = "prompt".toList) :
      CommandEffect profile shell cmd_name args (.ok (prompt shell args))
  | spawn
      (hname : cmd_name = "spawn".toList) :
      CommandEffect profile shell cmd_name args (.ok (spawn shell args))
  | kill
      (hname : cmd_name = "kill".toList) :
      CommandEffect profile shell cmd_name args (.ok (kill shell args))
  | ping
      (hname : cmd_name = "ping".toList) :
      CommandEffect profile shell cmd_name args (ping shell args profile)
  | other {texts : List Str} {shell' : ShellState}
      (hkeeps : shell.OnlyFiles shell')
      (hname : cmd_name ≠ "panic".toList ∧ cmd_name ≠ "prompt".toList ∧
        cmd_name ≠ "ping".toList)
      (hcalc : cmd_name = "calc".toList → ∃ texts, calcArm profile args = .ok texts) :
      CommandEffect profile shell cmd_name args (.ok (texts, shell'))

/-- The prompt after a line. -/
def promptAfter (current line : Str) : Str :=
  let (cmd_name, args) := splitFirstSpace line
  if cmd_name = "prompt".toList ∧ ¬ args.isEmpty then
    args ++ if args.getLast? == some ' ' || args.getLast? == some '>' then [] else "> ".toList
  else
    current

/-- The machine operation of the build has no result, not even a wrapped one. -/
def Operator.Stops (profile : Profile) (op : Operator) (a b : Int) : Prop :=
  match profile, op with
  | .release, .add => False
  | .release, .sub => False
  | .release, .mul => False
  | _, op => op.Overflows a b

/-- The lines that stop the kernel. -/
def StopsKernel (profile : Profile) (line : Str) : Prop :=
  (splitFirstSpace line).1 = "panic".toList ∨
    ((splitFirstSpace line).1 = "calc".toList ∧
      ∃ op a b, IsExpression (splitFirstSpace line).2 op a b ∧ op.Stops profile a b)

section Effects

variable {profile : Profile} {report : Str → Str → ShellState → List Str}
variable {shell shell' : ShellState} {line cmd_name args : Str} {texts : List Str}

/-- A usage text, or the reply to a call on the tree. -/
theorem onlyFiles_vfsReply
    {noArgs : Prop} [Decidable noArgs]
    (usage : List Str) (result : Bool × Statics) (done failed : Str) :
    shell.OnlyFiles (if noArgs then (usage, shell) else vfsReply shell result done failed).2 := by
  split <;> exact ⟨rfl, rfl, rfl⟩

/-- The arms that work on files leave the rest alone. -/
theorem onlyFiles_fileArm
    (shell : ShellState) (args : Str)
    {entry : Str × (ShellState → Str → List Str × ShellState)}
    (hentry : entry ∈ fileArms) :
    shell.OnlyFiles (entry.2 shell args).2 := by
  simp only [fileArms, List.mem_cons, List.not_mem_nil, or_false] at hentry
  rcases hentry with rfl | rfl | rfl | rfl | rfl | rfl
  · exact ⟨rfl, rfl, rfl⟩
  · show shell.OnlyFiles (cat shell args).2
    rw [cat]
    split
    · exact ⟨rfl, rfl, rfl⟩
    · split <;> exact ⟨rfl, rfl, rfl⟩
  · show shell.OnlyFiles (touch shell args).2
    rw [touch]
    exact onlyFiles_vfsReply _ _ _ _
  · show shell.OnlyFiles (write shell args).2
    rw [write]
    split
    exact onlyFiles_vfsReply _ _ _ _
  · show shell.OnlyFiles (mkdir shell args).2
    rw [mkdir]
    exact onlyFiles_vfsReply _ _ _ _
  · show shell.OnlyFiles (rm shell args).2
    rw [rm]
    exact onlyFiles_vfsReply _ _ _ _

/-- The name is not one of an arm that can panic or set the prompt. -/
def Plain (name : Str) : Prop :=
  name ≠ "panic".toList ∧ name ≠ "prompt".toList ∧ name ≠ "ping".toList ∧ name ≠ "calc".toList

instance (name : Str) : Decidable (Plain name) :=
  inferInstanceAs (Decidable (_ ∧ _))

/-- An arm without an effect of its own. -/
theorem CommandEffect.of_keeps
    {result : List Str × ShellState} {name : Str}
    (hname : cmd_name = name)
    (hplain : Plain name)
    (hkeeps : shell.OnlyFiles result.2) :
    CommandEffect profile shell cmd_name args (.ok result) := by
  subst hname
  obtain ⟨hpanic, hprompt, hping, hcalc⟩ := hplain
  exact .other hkeeps ⟨hpanic, hprompt, hping⟩ (fun h => absurd h hcalc)

theorem plain_of_mem_reportNames
    {name : Str}
    (h : name ∈ reportNames) :
    Plain name := by
  refine ⟨?_, ?_, ?_, ?_⟩ <;> rintro rfl <;> exact absurd h (by decide)

theorem plain_ps
    {name : Str}
    (h : name = "ps".toList ∨ name = "tasks".toList) :
    Plain name := by
  rcases h with rfl | rfl <;> decide

/-- Every command line ends in one of the listed ways. -/
theorem commandEffect_handleCommand
    (profile : Profile) (report : Str → Str → ShellState → List Str) (shell : ShellState)
    (line : Str) :
    CommandEffect profile shell (splitFirstSpace line).1 (splitFirstSpace line).2
      (handleCommand profile report shell line) := by
  rcases hsplit : splitFirstSpace line with ⟨cmd_name, args⟩
  have hfile : ∀ entry ∈ fileArms, shell.OnlyFiles (entry.2 shell args).2 :=
    fun _ hentry => onlyFiles_fileArm shell args hentry
  simp only [fileArms, List.forall_mem_cons] at hfile
  obtain ⟨hcd, hcat, htouch, hwrite, hmkdir, hrm, -⟩ := hfile
  have hkeep : shell.OnlyFiles shell := ⟨rfl, rfl, rfl⟩
  unfold handleCommand
  rw [hsplit]
  refine iteInduction (fun h => .of_keeps h (by decide) hkeep) fun _ => ?_
  refine iteInduction (fun h => .of_keeps rfl (plain_of_mem_reportNames h) hkeep) fun _ => ?_
  refine iteInduction (fun h => .of_keeps h (by decide) hkeep) fun _ => ?_
  refine iteInduction (fun h => .ping h) fun hping => ?_
  refine iteInduction (fun h => .of_keeps h (by decide) hkeep) fun _ => ?_
  refine iteInduction (fun h => .of_keeps h (by decide) hcd) fun _ => ?_
  refine iteInduction (fun h => .of_keeps h (by decide) hkeep) fun _ => ?_
  refine iteInduction (fun h => .prompt h) fun hprompt => ?_
  refine iteInduction (fun h => .of_keeps h (by decide) hkeep) fun _ => ?_
  refine iteInduction (fun h => .of_keeps h (by decide) hkeep) fun _ => ?_
  refine iteInduction (fun h => .of_keeps h (by decide) hcat) fun _ => ?_
  refine iteInduction (fun h => .of_keeps h (by decide) htouch) fun _ => ?_
  refine iteInduction (fun h => .of_keeps h (by decide) hwrite) fun _ => ?_
  refine iteInduction (fun h => .of_keeps h (by decide) hmkdir) fun _ => ?_
  refine iteInduction (fun h => .of_keeps h (by decide) hrm) fun _ => ?_
  refine iteInduction (fun h => .of_keeps h (by decide) hkeep) fun _ => ?_
  refine iteInduction (fun h => .of_keeps rfl (plain_ps h) hkeep) fun _ => ?_
  refine iteInduction (fun h => .spawn h) fun _ => ?_
  refine iteInduction (fun h => .kill h) fun _ => ?_
  refine iteInduction (fun h => ?_) fun hcalc => ?_
  · rcases harm : calcArm profile args with panic | texts
    · exact .arith h harm
    · have hne : "calc".toList ≠ "panic".toList ∧ "calc".toList ≠ "prompt".toList ∧
          "calc".toList ≠ "ping".toList := by decide
      exact .other hkeep (h ▸ hne) (fun _ => ⟨texts, harm⟩)
  · refine iteInduction (fun h => .requested h) fun hpanic => ?_
    exact .other hkeep ⟨hpanic, hprompt, hping⟩ (fun h => absurd h hcalc)

/-- A line with the name `spawn` runs that arm. -/
theorem handleCommand_spawnArm
    {args : Str}
    (hsplit : splitFirstSpace line = ("spawn".toList, args)) :
    handleCommand profile report shell line = .ok (spawn shell args) := by
  have hreport : "spawn".toList ∉ reportNames := by decide
  rw [handleCommand, hsplit]
  simp only [if_neg hreport]
  rfl

theorem state_of_ok
    {result : List Str × ShellState}
    (h : (.ok result : Reply) = .ok (texts, shell')) :
    shell' = result.2 := by
  rw [Except.ok.inj h]

/-- `ping` leaves the task table and the prompt alone. -/
theorem sched_prompt_ping
    (h : ping shell args profile = .ok (texts, shell')) :
    shell'.sched = shell.sched ∧ shell'.prompt = shell.prompt := by
  rw [ping] at h
  rcases hping : shell.net.ping profile (pingTarget args) with panic | ⟨answered, net⟩
  · rw [hping] at h
    cases h
  · rw [hping] at h
    obtain rfl := state_of_ok h
    exact ⟨rfl, rfl⟩

/-- A line makes at most one call on the task table, which its name and argument determine. -/
theorem sched_handleCommand
    (h : handleCommand profile report shell line = .ok (texts, shell')) :
    ((splitFirstSpace line).1 ≠ "spawn".toList ∧ shell'.sched = shell.sched) ∨
    ((splitFirstSpace line).1 = "spawn".toList ∧
      ∃ spawned, spawnTask shell.sched "user-worker" = (spawned, shell'.sched)) ∨
    ((splitFirstSpace line).1 = "kill".toList ∧
      ∃ pid killed, parseUsize (splitFirstSpace line).2 = some pid ∧
        killTask shell.sched pid = (killed, shell'.sched)) := by
  have heffect := commandEffect_handleCommand profile report shell line
  rcases hsplit : splitFirstSpace line with ⟨cmd_name, args⟩
  rw [hsplit, h] at heffect
  dsimp only at heffect ⊢
  by_cases hspawn : cmd_name = "spawn".toList
  · rw [handleCommand_spawnArm (hspawn ▸ hsplit)] at h
    obtain rfl := state_of_ok h
    refine Or.inr (Or.inl ⟨hspawn, ?_⟩)
    rw [spawn]
    rcases spawnTask shell.sched "user-worker" with ⟨_ | id, sched⟩
    · exact ⟨none, rfl⟩
    · exact ⟨some id, rfl⟩
  · generalize hreply : (.ok (texts, shell') : Reply) = reply at heffect
    cases heffect with
    | requested => cases hreply
    | arith => cases hreply
    | prompt =>
        obtain rfl := state_of_ok hreply.symm
        refine Or.inl ⟨hspawn, ?_⟩
        rw [prompt]
        split <;> rfl
    | spawn hname => exact absurd hname hspawn
    | kill hname =>
        obtain rfl := state_of_ok hreply.symm
        rw [kill]
        rcases hparse : parseUsize args with _ | pid
        · exact Or.inl ⟨hspawn, rfl⟩
        · refine Or.inr (Or.inr ⟨hname, pid, (killTask shell.sched pid).1, rfl, ?_⟩)
          rcases hkill : killTask shell.sched pid with ⟨_ | _, sched⟩ <;> simp [hkill]
    | ping =>
        have hnet := sched_prompt_ping hreply.symm
        exact Or.inl ⟨hspawn, hnet.1⟩
    | other hkeeps =>
        cases hreply
        exact Or.inl ⟨hspawn, hkeeps.1⟩

/-- Only `prompt` changes the prompt. -/
theorem prompt_handleCommand
    (h : handleCommand profile report shell line = .ok (texts, shell')) :
    shell'.prompt = promptAfter shell.prompt line := by
  have heffect := commandEffect_handleCommand profile report shell line
  generalize handleCommand profile report shell line = reply at heffect h
  rw [promptAfter]
  generalize splitFirstSpace line = words at heffect ⊢
  obtain ⟨cmd_name, args⟩ := words
  dsimp only
  cases heffect with
  | requested => cases h
  | arith => cases h
  | prompt hname =>
      obtain rfl := state_of_ok h
      obtain rfl : cmd_name = "prompt".toList := hname
      rw [prompt]
      cases args <;> rfl
  | spawn hname =>
      obtain rfl := state_of_ok h
      obtain rfl : cmd_name = "spawn".toList := hname
      have hne : "spawn".toList ≠ "prompt".toList := by decide
      rw [if_neg (fun hboth => hne hboth.1), spawn]
      rcases spawnTask shell.sched "user-worker" with ⟨_ | id, sched⟩ <;> rfl
  | kill hname =>
      obtain rfl := state_of_ok h
      obtain rfl : cmd_name = "kill".toList := hname
      have hne : "kill".toList ≠ "prompt".toList := by decide
      rw [if_neg (fun hboth => hne hboth.1), kill]
      rcases parseUsize args with _ | pid
      · rfl
      · rcases hkill : killTask shell.sched pid with ⟨_ | _, sched⟩ <;> simp [hkill]
  | ping hname =>
      obtain rfl : cmd_name = "ping".toList := hname
      have hne : "ping".toList ≠ "prompt".toList := by decide
      rw [if_neg (fun hboth => hne hboth.1)]
      exact (sched_prompt_ping h).2
  | other hkeeps hname =>
      cases h
      rw [if_neg (fun hboth => hname.2.1 hboth.1), hkeeps.2.1]

/-- Only `ping` changes the network stack. -/
theorem net_handleCommand
    (h : handleCommand profile report shell line = .ok (texts, shell')) :
    ((splitFirstSpace line).1 ≠ "ping".toList ∧ shell'.net = shell.net) ∨
    ((splitFirstSpace line).1 = "ping".toList ∧ ∃ answered,
      shell.net.ping profile (pingTarget (splitFirstSpace line).2) =
        .ok (answered, shell'.net)) := by
  have heffect := commandEffect_handleCommand profile report shell line
  generalize handleCommand profile report shell line = reply at heffect h
  generalize splitFirstSpace line = words at heffect ⊢
  obtain ⟨cmd_name, args⟩ := words
  dsimp only at heffect ⊢
  cases heffect with
  | requested => cases h
  | arith => cases h
  | prompt hname =>
      obtain rfl := state_of_ok h
      refine Or.inl ⟨hname ▸ by decide, ?_⟩
      rw [prompt]
      split <;> rfl
  | spawn hname =>
      obtain rfl := state_of_ok h
      refine Or.inl ⟨hname ▸ by decide, ?_⟩
      rw [spawn]
      rcases spawnTask shell.sched "user-worker" with ⟨_ | id, sched⟩ <;> rfl
  | kill hname =>
      obtain rfl := state_of_ok h
      refine Or.inl ⟨hname ▸ by decide, ?_⟩
      rw [kill]
      rcases parseUsize args with _ | pid
      · rfl
      · rcases hkill : killTask shell.sched pid with ⟨_ | _, sched⟩ <;> simp [hkill]
  | ping hname =>
      rw [ping] at h
      rcases hping : shell.net.ping profile (pingTarget args) with panic | ⟨answered, net⟩
      · rw [hping] at h
        cases h
      · rw [hping] at h
        obtain rfl := state_of_ok h
        exact Or.inr ⟨hname, answered, rfl⟩
  | other hkeeps hname =>
      cases h
      exact Or.inl ⟨hname.2.2, hkeeps.2.2⟩

end Effects

section Stopping

variable {profile : Profile} {report : Str → Str → ShellState → List Str}
variable {shell : ShellState} {line args : Str} {op : Operator} {a b : Int}

/-- A sum, difference or product stops the development build when it does not fit. -/
theorem settle_eq_error_iff
    {exact : Int} :
    (∃ panic, (I64.settle profile exact).map some = .error panic) ↔
      profile = .dev ∧ ¬ I64.Fits exact := by
  by_cases hfits : I64.Fits exact
  · have hexact : I64.settle profile exact = .ok exact := if_pos hfits
    rw [hexact]
    exact iff_of_false (by rintro ⟨panic, ⟨⟩⟩) (fun h => h.2 hfits)
  · cases profile with
    | dev =>
        have hstops : I64.settle .dev exact = .error .overflow := if_neg hfits
        rw [hstops]
        exact iff_of_true ⟨_, rfl⟩ ⟨rfl, hfits⟩
    | release =>
        have hwraps : I64.settle .release exact = .ok (I64.wrap exact) := if_neg hfits
        rw [hwraps]
        exact iff_of_false (by rintro ⟨panic, ⟨⟩⟩) (by rintro ⟨⟨⟩, -⟩)

/-- A quotient or a remainder stops every build at the least number by minus one. -/
theorem quotient_eq_error_iff
    (value : Int) :
    (∃ panic, ((if a = -2 ^ 63 ∧ b = -1 then .error .overflow else .ok value :
        Except ArithPanic Int).map some) = .error panic) ↔ a = -2 ^ 63 ∧ b = -1 := by
  by_cases hlow : a = -2 ^ 63 ∧ b = -1
  · rw [if_pos hlow]
    exact iff_of_true ⟨_, rfl⟩ hlow
  · rw [if_neg hlow]
    exact iff_of_false (by rintro ⟨panic, ⟨⟩⟩) hlow

theorem evaluate_add :
    evaluate profile Operator.add.text a b = (I64.settle profile (a + b)).map some := rfl

theorem evaluate_sub :
    evaluate profile Operator.sub.text a b = (I64.settle profile (a - b)).map some := rfl

theorem evaluate_mul :
    evaluate profile Operator.mul.text a b = (I64.settle profile (a * b)).map some := rfl

theorem evaluate_div :
    evaluate profile Operator.div.text a b =
      if b ≠ 0 then (I64.div a b).map some else .ok none := by
  simp [evaluate, Operator.text]

theorem evaluate_rem :
    evaluate profile Operator.rem.text a b =
      if b ≠ 0 then (I64.rem a b).map some else .ok none := by
  simp [evaluate, Operator.text]

/-- The expressions that stop the build are those that it does not evaluate. -/
theorem evaluate_eq_error_iff :
    (∃ panic, evaluate profile op.text a b = .error panic) ↔ op.Stops profile a b := by
  cases op with
  | add =>
      rw [evaluate_add, settle_eq_error_iff]
      cases profile <;> simp [Operator.Stops, Operator.Overflows]
  | sub =>
      rw [evaluate_sub, settle_eq_error_iff]
      cases profile <;> simp [Operator.Stops, Operator.Overflows]
  | mul =>
      rw [evaluate_mul, settle_eq_error_iff]
      cases profile <;> simp [Operator.Stops, Operator.Overflows]
  | div =>
      have hstops : Operator.div.Stops profile a b ↔ a = -2 ^ 63 ∧ b = -1 := by
        cases profile <;> exact Iff.rfl
      rw [hstops, evaluate_div]
      by_cases hb : b = 0
      · simp [hb]
      · rw [if_pos hb, I64.div, if_neg hb]
        exact quotient_eq_error_iff (a.tdiv b)
  | rem =>
      have hstops : Operator.rem.Stops profile a b ↔ a = -2 ^ 63 ∧ b = -1 := by
        cases profile <;> exact Iff.rfl
      rw [hstops, evaluate_rem]
      by_cases hb : b = 0
      · simp [hb]
      · rw [if_pos hb, I64.rem, if_neg hb]
        exact quotient_eq_error_iff (a.tmod b)

/-- `calc` panics on the expressions that stop the build and on nothing else. -/
theorem calcArm_eq_error_iff :
    (∃ panic, calcArm profile args = .error panic) ↔
      ∃ op a b, IsExpression args op a b ∧ op.Stops profile a b := by
  by_cases hexpr : ∃ op a b, IsExpression args op a b
  · obtain ⟨op, a, b, hexpr⟩ := hexpr
    have hsame : (∃ op a b, IsExpression args op a b ∧ op.Stops profile a b) ↔
        op.Stops profile a b := by
      constructor
      · rintro ⟨op', a', b', hexpr', hstops⟩
        obtain ⟨rfl, rfl, rfl⟩ := hexpr.unique hexpr'
        exact hstops
      · exact fun hstops => ⟨op, a, b, hexpr, hstops⟩
    rw [hsame, ← evaluate_eq_error_iff, calcArm_of_expression hexpr]
    rcases evaluate profile op.text a b with panic | _ | val <;> simp [Except.bind]
  · have hnot : ∀ op a b, ¬ IsExpression args op a b :=
      fun op a b h => hexpr ⟨op, a, b, h⟩
    constructor
    · rintro ⟨panic, hpanic⟩
      rcases calcArm_of_not_expression profile hnot with heq | heq <;> rw [heq] at hpanic <;>
        cases hpanic
    · rintro ⟨op, a, b, h, -⟩
      exact absurd h (hnot op a b)

/-- A `ping` that meets a counter without room for its packets. -/
def PingStops (profile : Profile) (net : NetworkStack) (line : Str) : Prop :=
  (splitFirstSpace line).1 = "ping".toList ∧
    ∃ panic, net.ping profile (pingTarget (splitFirstSpace line).2) = .error panic

/-- The lines on which `handle_command` does not return. -/
theorem handleCommand_eq_error_iff
    (profile : Profile) (report : Str → Str → ShellState → List Str) (shell : ShellState)
    (line : Str) :
    (∃ panic, handleCommand profile report shell line = .error panic) ↔
      StopsKernel profile line ∨ PingStops profile shell.net line := by
  have heffect := commandEffect_handleCommand profile report shell line
  generalize handleCommand profile report shell line = reply at heffect
  rw [StopsKernel, PingStops, ← calcArm_eq_error_iff]
  generalize splitFirstSpace line = words at heffect ⊢
  obtain ⟨cmd_name, args⟩ := words
  dsimp only at heffect ⊢
  have hreturns : ∀ result : List Str × ShellState,
      ¬ ∃ panic, (.ok result : Reply) = .error panic := by
    rintro result ⟨panic, ⟨⟩⟩
  have hother : ∀ name : Str, name ≠ "panic".toList → name ≠ "calc".toList →
      name ≠ "ping".toList → cmd_name = name →
      ¬ ((cmd_name = "panic".toList ∨ cmd_name = "calc".toList ∧
          ∃ panic, calcArm profile args = .error panic) ∨
        cmd_name = "ping".toList ∧
          ∃ panic, shell.net.ping profile (pingTarget args) = .error panic) := by
    rintro name hpanic hcalc hping rfl ((h | ⟨h, -⟩) | ⟨h, -⟩)
    · exact hpanic h
    · exact hcalc h
    · exact hping h
  cases heffect with
  | requested hname => exact iff_of_true ⟨_, rfl⟩ (Or.inl (Or.inl hname))
  | arith hname hcalc => exact iff_of_true ⟨_, rfl⟩ (Or.inl (Or.inr ⟨hname, _, hcalc⟩))
  | prompt hname =>
      exact iff_of_false (hreturns _) (hother _ (by decide) (by decide) (by decide) hname)
  | spawn hname =>
      exact iff_of_false (hreturns _) (hother _ (by decide) (by decide) (by decide) hname)
  | kill hname =>
      exact iff_of_false (hreturns _) (hother _ (by decide) (by decide) (by decide) hname)
  | ping hname =>
      obtain rfl : cmd_name = "ping".toList := hname
      have hnames : "ping".toList ≠ "panic".toList ∧ "ping".toList ≠ "calc".toList := by decide
      simp only [hnames.1, hnames.2, false_and, or_false, false_or, true_and]
      rw [ping]
      rcases shell.net.ping profile (pingTarget args) with panic | ⟨answered, net⟩
      · exact iff_of_true ⟨_, rfl⟩ ⟨panic, rfl⟩
      · exact iff_of_false (hreturns _) (by rintro ⟨panic, ⟨⟩⟩)
  | other hkeeps hname hcalc =>
      refine iff_of_false (hreturns _) ?_
      rintro ((h | ⟨h, panic, hpanic⟩) | ⟨h, -⟩)
      · exact hname.1 h
      · obtain ⟨texts, hok⟩ := hcalc h
        rw [hok] at hpanic
        cases hpanic
      · exact hname.2.2 h

end Stopping

end Shell
end OpenKernel
