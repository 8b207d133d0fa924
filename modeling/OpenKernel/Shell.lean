import OpenKernel.NetworkStack
import OpenKernel.SchedulerTable
import OpenKernel.WorkingDirectory

/-!
# The command interpreter

`handle_command` cuts the command name off a line and runs the arm of that name
on the rest.  What an arm prints goes to the serial port and to the screen, and
is listed here once.  The arms for the file system, the task table, the network
stack, the prompt and the calculator are modelled; those that print a fixed text
or report on the machine are the parameter `report`.  The global allocator serves
every request here; `KernelHalts` has the runs in which it does not.

`calc_exact_iff` is about the calculator: on which arguments it prints the exact
result, or an error message where there is none.
-/

namespace OpenKernel
namespace Shell

open Vfs Scheduling Net

/-- The statics that commands read and change. -/
structure ShellState where
  vfs : Statics
  sched : Scheduler
  prompt : Str
  /-- `NET_STACK`. -/
  net : NetworkStack

/-- How a command can stop the kernel. -/
inductive CommandPanic where
  /-- In `calc`, or at a counter of `ping`. -/
  | arith (panic : ArithPanic)
  /-- `panic!("Kernel panic triggered via shell")`. -/
  | requested
deriving DecidableEq, Repr

/-- The texts that a command prints, and the state after it. -/
abbrev Reply := Except CommandPanic (List Str × ShellState)

section Calculator

def calcUsage : Str :=
  "usage: calc <num1> <+|-|*|/|%> <num2>".toList

def calcError : Str :=
  "calc error: invalid operator or division by zero".toList

/-- `match op`: the value of an expression, or `None`. -/
def evaluate (profile : Profile) (op : Str) (num1 num2 : Int) :
    Except ArithPanic (Option Int) :=
  if op = ['+'] then
    (I64.settle profile (num1 + num2)).map some
  else if op = ['-'] then
    (I64.settle profile (num1 - num2)).map some
  else if op = ['*'] then
    (I64.settle profile (num1 * num2)).map some
  else if op = ['/'] ∧ num2 ≠ 0 then
    (I64.div num1 num2).map some
  else if op = ['%'] ∧ num2 ≠ 0 then
    (I64.rem num1 num2).map some
  else
    .ok none

/-- `format!("{} {} {} = {}", num1, op, num2, val)`. -/
def resultText (num1 : Int) (op : Str) (num2 val : Int) : Str :=
  intText num1 ++ " ".toList ++ op ++ " ".toList ++ intText num2 ++ " = ".toList ++ intText val

/-- The arm `"calc"`. -/
def calcArm (profile : Profile) (args : Str) : Except ArithPanic (List Str) :=
  match splitWhitespace args with
  | [part0, op, part2] =>
      match parseI64 part0, parseI64 part2 with
      | some num1, some num2 => do
          match ← evaluate profile op num1 num2 with
          | some val => pure [resultText num1 op num2 val]
          | none => pure [calcError]
      | _, _ => .ok [calcUsage]
  | _ => .ok [calcUsage]

end Calculator

section TaskRows

/-- A text in a column of this width, `{:>width}`. -/
def padLeft (width : Nat) (s : Str) : Str :=
  List.replicate (width - s.length) ' ' ++ s

/-- The derived `Debug` of a state writes the name whatever the width. -/
def stateText : TaskState → Str
  | .Ready => "Ready".toList
  | .Running => "Running".toList
  | .Finished => "Finished".toList

def rowText (info : TaskInfo) : Str :=
  padLeft 3 (natText info.id) ++ ' ' :: (stateText info.state ++
    ' ' :: (padLeft 4 (natText info.runs.toNat) ++ ' ' :: info.name.toList))

/-- The arms `"ps"` and `"tasks"`. -/
def ps (sched : Scheduler) : List Str :=
  "pid state     runs name".toList :: (snapshotTasks sched).map rowText

end TaskRows

section Arms

variable (shell : ShellState) (args : Str)

/-- `print_ifconfig`. -/
def ifconfig : List Str :=
  shell.net.interfaces.map NetworkInterface.infoText

/-- The arm `"ping"`. -/
def ping (profile : Profile) : Reply :=
  match shell.net.ping profile (pingTarget args) with
  | .ok (answered, net) => .ok (pingTexts (pingTarget args) answered, { shell with net := net })
  | .error panic => .error (.arith panic)

/-- A call of the file system and what is printed about it. -/
def vfsReply (result : Bool × Statics) (done failed : Str) : List Str × ShellState :=
  ([if result.1 then done else failed], { shell with vfs := result.2 })

/-- The arm `"cd"`. -/
def cd : List Str × ShellState :=
  let target := if args.isEmpty then "/".toList else args
  let result := shell.vfs.changeDirectory target
  vfsReply shell result
    ("changed directory to ".toList ++ result.2.currentDir)
    ("cd: no such directory: ".toList ++ args)

/-- The arm `"prompt"`. -/
def prompt : List Str × ShellState :=
  if args.isEmpty then
    (["usage: prompt <new_prompt>".toList], shell)
  else
    let closed := args.getLast? == some ' ' || args.getLast? == some '>'
    let p := args ++ if closed then [] else "> ".toList
    (["Prompt updated to '".toList ++ p ++ "'".toList], { shell with prompt := p })

/-- The arm `"cat"`. -/
def cat : List Str × ShellState :=
  if args.isEmpty then
    (["usage: cat <filename>".toList], shell)
  else
    match shell.vfs.readFileString args with
    | some content => ([content], shell)
    | none => (["cat: file not found: ".toList ++ args], shell)

/-- The arm `"touch"`. -/
def touch : List Str × ShellState :=
  if args.isEmpty then
    (["usage: touch <filename>".toList], shell)
  else
    vfsReply shell (shell.vfs.writeFileString args [])
      ("created empty file '".toList ++ args ++ "'".toList)
      ("touch: failed to create file: ".toList ++ args)

/-- The arm `"write"`. -/
def write : List Str × ShellState :=
  let (path, content) := splitFirstSpace args
  if path.isEmpty then
    (["usage: write <filename> <text>".toList], shell)
  else
    vfsReply shell (shell.vfs.writeFileString path content)
      ("wrote to file '".toList ++ path ++ "'".toList)
      ("write: failed to write file: ".toList ++ path)

/-- The arm `"mkdir"`. -/
def mkdir : List Str × ShellState :=
  if args.isEmpty then
    (["usage: mkdir <dirname>".toList], shell)
  else
    vfsReply shell (shell.vfs.createDir args)
      ("created directory '".toList ++ args ++ "'".toList)
      ("mkdir: failed to create directory: ".toList ++ args)

/-- The arm `"rm"`. -/
def rm : List Str × ShellState :=
  if args.isEmpty then
    (["usage: rm <path>".toList], shell)
  else
    vfsReply shell (shell.vfs.removeNode args)
      ("removed '".toList ++ args ++ "'".toList)
      ("rm: failed to remove: ".toList ++ args)

/-- The arm `"spawn"`. -/
def spawn : List Str × ShellState :=
  let name := if args.isEmpty then "user-task".toList else args
  match spawnTask shell.sched "user-worker" with
  | (some id, sched) =>
      (["Spawned task '".toList ++ name ++ "' with pid ".toList ++ natText id],
        { shell with sched := sched })
  | (none, sched) =>
      (["Failed to spawn task: scheduler full".toList], { shell with sched := sched })

/-- The arm `"kill"`. -/
def kill : List Str × ShellState :=
  match parseUsize args with
  | some pid =>
      match killTask shell.sched pid with
      | (true, sched) =>
          (["Killed task pid ".toList ++ natText pid], { shell with sched := sched })
      | (false, sched) =>
          (["Failed to kill pid ".toList ++ natText pid ++ ": invalid pid or finished".toList],
            { shell with sched := sched })
  | none => (["usage: kill <pid>".toList], shell)

end Arms

/-- The arms that print a fixed text or what the machine looks like, and change nothing that a
command reads. -/
def reportNames : List Str :=
  ["help", "drivers", "vmap", "modifiers", "uname", "sysinfo", "meminfo", "uptime", "matrix",
    "guess", "time", "date", "clear", "cpuid", "color", "reboot", "shutdown"].map String.toList

def handleCommand (profile : Profile) (report : Str → Str → ShellState → List Str)
    (shell : ShellState) (cmd : Str) : Reply :=
  let (cmd_name, args) := splitFirstSpace cmd
  if cmd_name = [] then
    .ok ([], shell)
  else if cmd_name ∈ reportNames then
    .ok (report cmd_name args shell, shell)
  else if cmd_name = "ifconfig".toList then
    .ok (ifconfig shell, shell)
  else if cmd_name = "ping".toList then
    ping shell args profile
  else if cmd_name = "netstat".toList then
    .ok ([netstatText], shell)
  else if cmd_name = "cd".toList then
    .ok (cd shell args)
  else if cmd_name = "pwd".toList then
    .ok ([shell.vfs.currentDir], shell)
  else if cmd_name = "prompt".toList then
    .ok (prompt shell args)
  else if cmd_name = "ls".toList then
    .ok (shell.vfs.listDirectory args, shell)
  else if cmd_name = "tree".toList then
    .ok (shell.vfs.printTree, shell)
  else if cmd_name = "cat".toList then
    .ok (cat shell args)
  else if cmd_name = "touch".toList then
    .ok (touch shell args)
  else if cmd_name = "write".toList then
    .ok (write shell args)
  else if cmd_name = "mkdir".toList then
    .ok (mkdir shell args)
  else if cmd_name = "rm".toList then
    .ok (rm shell args)
  else if cmd_name = "echo".toList then
    .ok ([args], shell)
  else if cmd_name = "ps".toList ∨ cmd_name = "tasks".toList then
    .ok (ps shell.sched, shell)
  else if cmd_name = "spawn".toList then
    .ok (spawn shell args)
  else if cmd_name = "kill".toList then
    .ok (kill shell args)
  else if cmd_name = "calc".toList then
    match calcArm profile args with
    | .ok texts => .ok (texts, shell)
    | .error panic => .error (.arith panic)
  else if cmd_name = "panic".toList then
    .error .requested
  else
    .ok (["unknown command: ".toList ++ cmd_name], shell)

section CalculatorExactness

/-- The five operators of `calc`. -/
inductive Operator where
  | add
  | sub
  | mul
  | div
  | rem
deriving DecidableEq

namespace Operator

def text : Operator → Str
  | add => ['+']
  | sub => ['-']
  | mul => ['*']
  | div => ['/']
  | rem => ['%']

/-- The exact result, where it is defined. -/
def exact : Operator → Int → Int → Option Int
  | add, a, b => some (a + b)
  | sub, a, b => some (a - b)
  | mul, a, b => some (a * b)
  | div, a, b => if b = 0 then none else some (a.tdiv b)
  | rem, a, b => if b = 0 then none else some (a.tmod b)

/-- The operands on which the machine operation does not return the exact result. -/
def Overflows (op : Operator) (a b : Int) : Prop :=
  match op with
  | add => ¬ I64.Fits (a + b)
  | sub => ¬ I64.Fits (a - b)
  | mul => ¬ I64.Fits (a * b)
  | div => a = -2 ^ 63 ∧ b = -1
  | rem => a = -2 ^ 63 ∧ b = -1

end Operator

/-- Two `i64` literals around an operator. -/
def IsExpression (s : Str) (op : Operator) (a b : Int) : Prop :=
  ∃ part0 part2, splitWhitespace s = [part0, op.text, part2] ∧
    parseI64 part0 = some a ∧ parseI64 part2 = some b

/-- The value that a calculator of `i64` numbers should print. -/
def HasValue (s : Str) (op : Operator) (a b v : Int) : Prop :=
  IsExpression s op a b ∧ op.exact a b = some v ∧ I64.Fits v

/-- No panic; the exact result if there is one, else an error message. -/
def CalcExact (s : Str) (reply : Reply) : Prop :=
  ∃ texts shell, reply = .ok (texts, shell) ∧
    (∀ op a b v, HasValue s op a b v → texts = [resultText a op.text b v]) ∧
    ((¬ ∃ op a b v, HasValue s op a b v) → texts = [calcUsage] ∨ texts = [calcError])

/-- The argument is an expression whose machine operation overflows. -/
def CalcOverflows (s : Str) : Prop :=
  ∃ op a b, IsExpression s op a b ∧ op.Overflows a b

variable {profile : Profile} {op op' : Operator} {s : Str} {a b a' b' v : Int}

theorem text_injective
    (h : op.text = op'.text) :
    op = op' := by
  cases op <;> cases op' <;> first | rfl | simp [Operator.text] at h

theorem IsExpression.unique
    (h : IsExpression s op a b) (h' : IsExpression s op' a' b') :
    op' = op ∧ a' = a ∧ b' = b := by
  obtain ⟨part0, part2, hwords, ha, hb⟩ := h
  obtain ⟨part0', part2', hwords', ha', hb'⟩ := h'
  rw [hwords] at hwords'
  simp only [List.cons.injEq, and_true] at hwords'
  obtain ⟨rfl, htext, rfl⟩ := hwords'
  exact ⟨(text_injective htext).symm, Option.some.inj (ha'.symm.trans ha),
    Option.some.inj (hb'.symm.trans hb)⟩

theorem IsExpression.fits
    (h : IsExpression s op a b) :
    I64.Fits a ∧ I64.Fits b := by
  obtain ⟨_, _, -, ha, hb⟩ := h
  exact ⟨fits_of_parseI64 ha, fits_of_parseI64 hb⟩

theorem settle_of_fits
    {exact : Int}
    (h : I64.Fits exact) :
    (I64.settle profile exact).map some = .ok (some exact) ∧
      ∀ v, some exact = some v → I64.Fits v := by
  have heq : I64.settle profile exact = .ok exact := if_pos h
  rw [heq]
  refine ⟨rfl, ?_⟩
  rintro v ⟨⟩
  exact h

theorem settle_of_not_fits
    {exact : Int}
    (h : ¬ I64.Fits exact) :
    (∃ panic, (I64.settle profile exact).map some = .error panic) ∨
      ∃ val, (I64.settle profile exact).map some = .ok (some val) ∧
        ∀ v, some exact = some v → ¬ I64.Fits v := by
  rcases I64.settle profile exact with panic | val
  · exact Or.inl ⟨panic, rfl⟩
  · refine Or.inr ⟨val, rfl, ?_⟩
    rintro v ⟨⟩
    exact h

/-- Without an overflow the machine computes the exact result, and it fits. -/
theorem evaluate_of_not_overflows
    (profile : Profile)
    (ha : I64.Fits a)
    (h : ¬ op.Overflows a b) :
    evaluate profile op.text a b = .ok (op.exact a b) ∧
      ∀ v, op.exact a b = some v → I64.Fits v := by
  cases op with
  | add => exact settle_of_fits (not_not.1 h)
  | sub => exact settle_of_fits (not_not.1 h)
  | mul => exact settle_of_fits (not_not.1 h)
  | div =>
      by_cases hb : b = 0
      · simp [evaluate, Operator.text, Operator.exact, hb]
      · have hfits := (I64.fits_tdiv_iff ha hb).2 h
        rw [Operator.Overflows] at h
        refine ⟨?_, by rw [Operator.exact, if_neg hb]; rintro v ⟨⟩; exact hfits⟩
        simp only [evaluate, Operator.text, Operator.exact, I64.div, if_neg hb, if_neg h]
        simp [hb, Except.map]
  | rem =>
      by_cases hb : b = 0
      · simp [evaluate, Operator.text, Operator.exact, hb]
      · rw [Operator.Overflows] at h
        refine ⟨?_, by rw [Operator.exact, if_neg hb]; rintro v ⟨⟩; exact I64.fits_tmod ha⟩
        simp only [evaluate, Operator.text, Operator.exact, I64.rem, if_neg hb, if_neg h]
        simp [hb, Except.map]

/-- With an overflow it stops, or goes on with a wrapped value where none fits. -/
theorem evaluate_of_overflows
    (profile : Profile)
    (h : op.Overflows a b) :
    (∃ panic, evaluate profile op.text a b = .error panic) ∨
      ∃ val, evaluate profile op.text a b = .ok (some val) ∧
        ∀ v, op.exact a b = some v → ¬ I64.Fits v := by
  cases op with
  | add => exact settle_of_not_fits h
  | sub => exact settle_of_not_fits h
  | mul => exact settle_of_not_fits h
  | div =>
      obtain ⟨rfl, rfl⟩ := h
      exact Or.inl ⟨.overflow, rfl⟩
  | rem =>
      obtain ⟨rfl, rfl⟩ := h
      exact Or.inl ⟨.overflow, rfl⟩

theorem evaluate_of_not_operator
    {o : Str}
    (h : ∀ op : Operator, o ≠ op.text) :
    evaluate profile o a b = .ok none := by
  have hadd : o ≠ ['+'] := h .add
  have hsub : o ≠ ['-'] := h .sub
  have hmul : o ≠ ['*'] := h .mul
  have hdiv : o ≠ ['/'] := h .div
  have hrem : o ≠ ['%'] := h .rem
  simp [evaluate, hadd, hsub, hmul, hdiv, hrem]

/-- The arm on an expression evaluates it. -/
theorem calcArm_of_expression
    (h : IsExpression s op a b) :
    calcArm profile s =
      (evaluate profile op.text a b).bind fun
        | some val => .ok [resultText a op.text b val]
        | none => .ok [calcError] := by
  obtain ⟨part0, part2, hwords, ha, hb⟩ := h
  simp only [calcArm, hwords, ha, hb]
  rcases evaluate profile op.text a b with panic | _ | val <;> rfl

/-- On anything else it prints one of its two messages. -/
theorem calcArm_of_not_expression
    (profile : Profile)
    (h : ∀ op a b, ¬ IsExpression s op a b) :
    calcArm profile s = .ok [calcUsage] ∨ calcArm profile s = .ok [calcError] := by
  rw [calcArm]
  split
  · rename_i part0 o part2 hwords
    split
    · rename_i num1 num2 ha hb
      have hop : ∀ op : Operator, o ≠ op.text := by
        rintro op rfl
        exact h op num1 num2 ⟨part0, part2, hwords, ha, hb⟩
      rw [evaluate_of_not_operator hop]
      exact Or.inr rfl
    · exact Or.inl rfl
  · exact Or.inl rfl

/-- A result is not a message: it starts with a number. -/
theorem resultText_ne
    (num1 : Int) (o : Str) (num2 val : Int) :
    resultText num1 o num2 val ≠ calcUsage ∧ resultText num1 o num2 val ≠ calcError := by
  obtain ⟨ch, rest, htext, hch⟩ := head_intText num1
  have hfirst : ∃ more, resultText num1 o num2 val = ch :: more := by
    rw [resultText, htext]
    exact ⟨_, rfl⟩
  obtain ⟨more, hmore⟩ := hfirst
  rw [hmore]
  constructor
  · rintro heq
    obtain rfl : ch = 'u' := (List.cons.inj heq).1
    exact absurd hch (by decide)
  · rintro heq
    obtain rfl : ch = 'c' := (List.cons.inj heq).1
    exact absurd hch (by decide)

/-- What `handle_command` does with the name `calc` and the rest of the line. -/
theorem handleCommand_calc
    (profile : Profile) (report : Str → Str → ShellState → List Str) (shell : ShellState) (s : Str) :
    handleCommand profile report shell ("calc ".toList ++ s) =
      match calcArm profile s with
      | .ok texts => .ok (texts, shell)
      | .error panic => .error (.arith panic) := by
  have hsplit : splitFirstSpace ("calc ".toList ++ s) = ("calc".toList, trim s) := by
    have hspace : ' ' ∉ "calc".toList := by decide
    exact splitFirstSpace_append s hspace
  have hargs : calcArm profile (trim s) = calcArm profile s := by
    rw [calcArm, calcArm, splitWhitespace_trim]
  have hreport : "calc".toList ∉ reportNames := by decide
  rw [handleCommand, hsplit, ← hargs]
  simp only [if_neg hreport]
  rfl

/-- The value of an expression is the exact result, if that fits. -/
theorem IsExpression.of_hasValue
    (h : IsExpression s op a b)
    (h' : HasValue s op' a' b' v) :
    op' = op ∧ a' = a ∧ b' = b ∧ op.exact a b = some v ∧ I64.Fits v := by
  obtain ⟨hexpr, hv, hfits⟩ := h'
  obtain ⟨rfl, rfl, rfl⟩ := h.unique hexpr
  exact ⟨rfl, rfl, rfl, hv, hfits⟩

theorem IsExpression.calcOverflows_iff
    (h : IsExpression s op a b) :
    CalcOverflows s ↔ op.Overflows a b := by
  constructor
  · rintro ⟨op', a', b', hexpr, hover⟩
    obtain ⟨rfl, rfl, rfl⟩ := h.unique hexpr
    exact hover
  · exact fun hover => ⟨op, a, b, h, hover⟩

/-- A panic or a wrapped value is not exact. -/
theorem not_calcExact_of_overflows
    (hexpr : IsExpression s op a b)
    (hover : op.Overflows a b)
    (report : Str → Str → ShellState → List Str) (shell : ShellState) :
    ¬ CalcExact s (handleCommand profile report shell ("calc ".toList ++ s)) := by
  rw [handleCommand_calc, calcArm_of_expression hexpr]
  rintro ⟨texts, shell', hreply, -, herror⟩
  rcases evaluate_of_overflows profile hover with ⟨panic, heq⟩ | ⟨val, heq, hnone⟩
  · rw [heq] at hreply
    cases hreply
  · rw [heq] at hreply
    cases hreply
    have hmessage := herror (by
      rintro ⟨op', a', b', v, hvalue⟩
      obtain ⟨-, -, -, hv, hfits⟩ := hexpr.of_hasValue hvalue
      exact hnone v hv hfits)
    have hne := resultText_ne a op.text b val
    simp only [List.cons.injEq, and_true] at hmessage
    exact hmessage.elim hne.1 hne.2

theorem calcExact_of_not_overflows
    (hexpr : IsExpression s op a b)
    (hover : ¬ op.Overflows a b)
    (report : Str → Str → ShellState → List Str) (shell : ShellState) :
    CalcExact s (handleCommand profile report shell ("calc ".toList ++ s)) := by
  obtain ⟨heq, hfits⟩ := evaluate_of_not_overflows profile hexpr.fits.1 hover
  rw [handleCommand_calc, calcArm_of_expression hexpr, heq]
  rcases hexact : op.exact a b with _ | v
  · -- the zero divisor
    refine ⟨_, _, rfl, ?_, fun _ => Or.inr rfl⟩
    intro op' a' b' v hvalue
    obtain ⟨-, -, -, hv, -⟩ := hexpr.of_hasValue hvalue
    rw [hexact] at hv
    cases hv
  · refine ⟨_, _, rfl, ?_, ?_⟩
    · intro op' a' b' v' hvalue
      obtain ⟨rfl, rfl, rfl, hv, -⟩ := hexpr.of_hasValue hvalue
      rw [hexact] at hv
      cases hv
      rfl
    · intro hno
      exact absurd ⟨op, a, b, v, hexpr, hexact, hfits v hexact⟩ hno

theorem calcExact_of_not_expression
    (hnot : ∀ op a b, ¬ IsExpression s op a b)
    (report : Str → Str → ShellState → List Str) (shell : ShellState) :
    CalcExact s (handleCommand profile report shell ("calc ".toList ++ s)) := by
  have hvalue : ∀ texts, ∀ op a b v, HasValue s op a b v →
      texts = [resultText a op.text b v] :=
    fun _ op a b _ h => absurd h.1 (hnot op a b)
  rw [handleCommand_calc]
  rcases calcArm_of_not_expression profile hnot with heq | heq
  · rw [heq]
    exact ⟨_, _, rfl, hvalue _, fun _ => Or.inl rfl⟩
  · rw [heq]
    exact ⟨_, _, rfl, hvalue _, fun _ => Or.inr rfl⟩

/-- The calculator is exact on all arguments but those whose machine operation
overflows: it stops there, or prints a wrapped value. -/
theorem calc_exact_iff
    (profile : Profile) (report : Str → Str → ShellState → List Str)
    (shell : ShellState) (s : Str) :
    CalcExact s (handleCommand profile report shell ("calc ".toList ++ s)) ↔
      ¬ CalcOverflows s := by
  by_cases hexpr : ∃ op a b, IsExpression s op a b
  · obtain ⟨op, a, b, hexpr⟩ := hexpr
    rw [hexpr.calcOverflows_iff]
    by_cases hover : op.Overflows a b
    · exact iff_of_false (not_calcExact_of_overflows hexpr hover report shell) (not_not.2 hover)
    · exact iff_of_true (calcExact_of_not_overflows hexpr hover report shell) hover
  · have hnot : ∀ op a b, ¬ IsExpression s op a b :=
      fun op a b h => hexpr ⟨op, a, b, h⟩
    refine iff_of_true (calcExact_of_not_expression hnot report shell) ?_
    exact fun ⟨op, a, b, h, _⟩ => hnot op a b h

/-- Adding one to the largest number stops the development build. -/
theorem calc_overflow_stops :
    ∃ shell : ShellState,
      handleCommand .dev (fun _ _ _ => []) shell "calc 9223372036854775807 + 1".toList =
        .error (.arith .overflow) ∧
      ¬ CalcExact "9223372036854775807 + 1".toList
        (handleCommand .dev (fun _ _ _ => []) shell "calc 9223372036854775807 + 1".toList) := by
  have hstops : ∀ shell : ShellState,
      handleCommand .dev (fun _ _ _ => []) shell "calc 9223372036854775807 + 1".toList =
        .error (.arith .overflow) := by
    intro shell
    have hcalc := handleCommand_calc .dev (fun _ _ _ => []) shell
      "9223372036854775807 + 1".toList
    have harm : calcArm .dev "9223372036854775807 + 1".toList = .error .overflow := by
      decide
    rw [harm] at hcalc
    exact hcalc
  refine ⟨⟨Statics.init, Scheduler.new, "root".toList, NetworkStack.new⟩, hstops _, ?_⟩
  rw [hstops]
  rintro ⟨texts, shell, hreply, -⟩
  cases hreply

end CalculatorExactness

end Shell
end OpenKernel
