import OpenKernel.RunInvariants
import OpenKernel.Rtc

/-!
# Reading the clock while it runs

A call of `read_rtc` on a clock that may advance between any two port reads.
The update flag is looked at once, before the first register is read, and the
registers follow one by one.  A tick on the way is harmless when its carry stops
at the registers already read (`CarryStops`); in a call whose ticks all are, the
time returned is one that the clock showed (`rtc_read_untorn`).
-/

namespace OpenKernel
namespace Time

section Machine

/-- The clock and a call of `read_rtc`. -/
structure Machine where
  clock : DateTime
  updating : Bool
  phase : Phase

inductive Act where
  /-- The update flag goes up. -/
  | beginUpdate
  /-- The clock shows the next second and the flag goes down. -/
  | tick
  /-- The call reads a port. -/
  | portRead

def Machine.act (register_b : UInt8) (m : Machine) : Act → Machine
  | .beginUpdate => { m with updating := true }
  | .tick => { m with clock := m.clock.next, updating := false }
  | .portRead => { m with phase := m.phase.step (clockCmos register_b m.updating m.clock) }

/-- What can happen before the call returns. -/
def Step (register_b : UInt8) (m : Machine) (a : Act) (m' : Machine) : Prop :=
  m.phase.result = none ∧ m' = m.act register_b a

/-- The times that the clock shows in a run. -/
def shown (tr : List (Machine × Act)) (m : Machine) : List DateTime :=
  tr.map (fun x => x.1.clock) ++ [m.clock]

end Machine

section Untorn

variable {register_b : UInt8}

/--
A tick changes no register that is still to be read, or those already read are
what the clock shows after it.
-/
def CarryStops (register_b : UInt8) (m : Machine) : Act → Prop
  | .tick =>
      match m.phase with
      | .polling => True
      | .reading taken todo =>
          todo.map (timeRegister register_b m.clock.next) =
              todo.map (timeRegister register_b m.clock) ∨
            taken ++ todo.map (timeRegister register_b m.clock.next) =
              REGISTERS.map (timeRegister register_b m.clock.next)
  | _ => True

instance (register_b : UInt8) (m : Machine) (a : Act) :
    Decidable (CarryStops register_b m a) :=
  match a, m with
  | .beginUpdate, _ => isTrue trivial
  | .tick, ⟨_, _, .polling⟩ => isTrue trivial
  | .tick, ⟨_, _, .reading _ _⟩ => inferInstanceAs (Decidable (_ ∨ _))
  | .portRead, _ => isTrue trivial

/--
What has been read, with what the clock shows in the registers still to be
read, are the registers of one time of a list.
-/
def Agrees (register_b : UInt8) (times : List DateTime) (m : Machine) : Prop :=
  match m.phase with
  | .polling => True
  | .reading taken todo =>
      todo <:+ REGISTERS ∧
      ∃ t ∈ times, taken ++ todo.map (timeRegister register_b m.clock) =
        REGISTERS.map (timeRegister register_b t)

/-- Reading a register moves its value from the clock to what has been read. -/
theorem agrees_portRead
    {times : List DateTime} {m : Machine}
    (h : Agrees register_b times m)
    (hmem : m.clock ∈ times) :
    Agrees register_b times (m.act register_b .portRead) := by
  obtain ⟨clock, updating, phase⟩ := m
  cases phase with
  | polling =>
      simp only [Machine.act, Phase.step]
      split
      · trivial
      · exact ⟨List.suffix_rfl, clock, hmem, rfl⟩
  | reading taken todo =>
      obtain ⟨hsuffix, t, ht, hvalues⟩ := h
      cases todo with
      | nil => exact ⟨hsuffix, t, ht, hvalues⟩
      | cons reg todo =>
          have hread : clockCmos register_b updating clock reg =
              timeRegister register_b clock reg := clockCmos_of_mem (hsuffix.subset (by simp))
          have hvalues' : (taken ++ [clockCmos register_b updating clock reg]) ++
              todo.map (timeRegister register_b clock) =
                REGISTERS.map (timeRegister register_b t) := by
            rw [hread, List.append_assoc]
            exact hvalues
          exact ⟨(List.suffix_cons reg todo).trans hsuffix, t, ht, hvalues'⟩

/-- A tick whose carry stops keeps the values those of one time. -/
theorem agrees_tick
    {times : List DateTime} {m : Machine}
    (h : Agrees register_b times m)
    (hstops : CarryStops register_b m .tick) :
    Agrees register_b (times ++ [m.clock.next]) (m.act register_b .tick) := by
  obtain ⟨clock, updating, phase⟩ := m
  cases phase with
  | polling => trivial
  | reading taken todo =>
      obtain ⟨hsuffix, t, ht, hvalues⟩ := h
      refine ⟨hsuffix, ?_⟩
      rcases hstops with hsame | hafter
      · have hvalues' : taken ++ todo.map (timeRegister register_b clock.next) =
            REGISTERS.map (timeRegister register_b t) := by
          rw [hsame, hvalues]
        exact ⟨t, List.mem_append_left _ ht, hvalues'⟩
      · exact ⟨clock.next, by simp, hafter⟩

theorem Agrees.mono
    {times times' : List DateTime} {m : Machine}
    (h : Agrees register_b times m)
    (hsub : times ⊆ times') :
    Agrees register_b times' m := by
  obtain ⟨clock, updating, phase⟩ := m
  cases phase with
  | polling => trivial
  | reading taken todo =>
      obtain ⟨hsuffix, t, ht, hvalues⟩ := h
      exact ⟨hsuffix, t, hsub ht, hvalues⟩

/-- One step of the machine. -/
theorem agrees_act
    {times : List DateTime} {m : Machine} {a : Act}
    (h : Agrees register_b times m)
    (hmem : m.clock ∈ times)
    (hstops : CarryStops register_b m a) :
    Agrees register_b (times ++ [(m.act register_b a).clock]) (m.act register_b a) := by
  cases a with
  | beginUpdate => exact Agrees.mono h (List.subset_append_left _ _)
  | tick => exact agrees_tick h hstops
  | portRead => exact Agrees.mono (agrees_portRead h hmem) (List.subset_append_left _ _)

/-- A whole run, by induction on its steps. -/
theorem agrees_run
    {start m : Machine} {tr : List (Machine × Act)}
    (h : Run (Step register_b) start tr m)
    (hstart : start.phase = .polling)
    (hstops : ∀ x ∈ tr, CarryStops register_b x.1 x.2) :
    Agrees register_b (shown tr m) m := by
  induction h with
  | nil =>
      rw [Agrees, hstart]
      trivial
  | @snoc m m' a tr before last ih =>
      obtain ⟨-, rfl⟩ := last
      have hbefore := ih (fun x hx => hstops x (List.mem_append_left _ hx))
      have hstep := agrees_act hbefore (by simp [shown]) (hstops (m, a) (by simp))
      simpa [shown] using hstep

/-- When all registers are read as those of one time, a 24-hour clock's call returns it. -/
theorem result_of_agrees
    {times : List DateTime} {m : Machine} {time : RtcTime}
    (h24 : register_b &&& 0x02 ≠ 0)
    (h : Agrees register_b times m)
    (hresult : m.phase.result = some time) :
    ∃ t ∈ times, time = t.toRtcTime := by
  obtain ⟨clock, updating, phase⟩ := m
  cases phase with
  | polling => cases hresult
  | reading taken todo =>
      cases todo with
      | cons reg todo => simp [Phase.result] at hresult
      | nil =>
          obtain ⟨-, t, ht, hvalues⟩ := h
          rw [List.map_nil, List.append_nil] at hvalues
          have htime := (fromRegisters_eq_iff register_b t).2 (Or.inl h24)
          simp only [hvalues, result_of_timeRegister, htime, Option.some_inj] at hresult
          exact ⟨t, ht, hresult.symm⟩

/--
After a tick whose carry does not stop, the values read and the clock's are
neither those of the time before it nor those of the time after it.
-/
theorem torn_of_not_carryStops
    {clock t : DateTime} {updating : Bool} {taken todo : List UInt8}
    (hvalues : taken ++ todo.map (timeRegister register_b clock) =
      REGISTERS.map (timeRegister register_b t))
    (htorn : ¬ CarryStops register_b ⟨clock, updating, .reading taken todo⟩ .tick) :
    taken ++ todo.map (timeRegister register_b clock.next) ≠
        REGISTERS.map (timeRegister register_b t) ∧
      taken ++ todo.map (timeRegister register_b clock.next) ≠
        REGISTERS.map (timeRegister register_b clock.next) := by
  constructor
  · intro hsame
    rw [← hvalues] at hsame
    exact htorn (Or.inl (List.append_cancel_left hsame))
  · intro hafter
    exact htorn (Or.inr hafter)

end Untorn

section Calls

variable {register_b : UInt8}

/-- The states of a sequence of acts, with the acts. -/
def traceOf (register_b : UInt8) : Machine → List Act → List (Machine × Act)
  | _, [] => []
  | m, a :: acts => (m, a) :: traceOf register_b (m.act register_b a) acts

/-- Acts that all come before the return are a run. -/
theorem run_traceOf
    {m : Machine} {acts : List Act}
    (h : ∀ x ∈ traceOf register_b m acts, x.1.phase.result = none) :
    Run (Step register_b) m (traceOf register_b m acts)
      (acts.foldl (Machine.act register_b) m) := by
  induction acts generalizing m with
  | nil => exact Run.nil m
  | cons a acts ih =>
      have hfirst : m.phase.result = none := h (m, a) (by simp [traceOf])
      have hrest := ih (fun x hx => h x (List.mem_cons_of_mem (m, a) hx))
      exact Run.cons ⟨hfirst, rfl⟩ hrest

/-- A call with one update of the clock after the second is read. -/
def callActs : List Act :=
  [.portRead, .portRead, .beginUpdate, .tick] ++ List.replicate 6 .portRead

/--
In a call of `read_rtc` on a 24-hour clock whose ticks carry into no register
that is still to be read, the time returned is one that the clock showed between
the start and the end of the call.
-/
theorem rtc_read_untorn
    (register_b : UInt8)
    (h24 : register_b &&& 0x02 ≠ 0)
    (clock : DateTime) (updating : Bool) (tr : List (Machine × Act)) (m : Machine)
    (time : RtcTime)
    (hrun : Run (Step register_b) ⟨clock, updating, .polling⟩ tr m)
    (hstops : ∀ x ∈ tr, CarryStops register_b x.1 x.2)
    (hreturn : m.phase.result = some time) :
    ∃ t ∈ shown tr m, time = t.toRtcTime :=
  result_of_agrees h24 (agrees_run hrun rfl hstops) hreturn

theorem rtc_read_untorn_noon :
    ∃ t ∈ shown (traceOf 0x02 ⟨noon, false, .polling⟩ callActs)
        (callActs.foldl (Machine.act 0x02) ⟨noon, false, .polling⟩),
      noon.toRtcTime = t.toRtcTime :=
  rtc_read_untorn 0x02 (by decide) noon false _ _ noon.toRtcTime
    (run_traceOf (by decide)) (by decide) (by decide)

def lastSecond : DateTime :=
  { DateTime.midnight 2023 12 31 (by decide) (by decide) (by decide) with
    hour := 23
    minute := 59
    second := 59
    hour_lt := by decide
    minute_lt := by decide
    second_lt := by decide }

/-- The last second of a year with the minute, hour and date of the next year. -/
theorem rtc_read_torn :
    ∃ tr m time, Run (Step 0x02) ⟨lastSecond, false, .polling⟩ tr m ∧
      m.phase.result = some time ∧
      (∀ t ∈ shown tr m, time ≠ t.toRtcTime) ∧
      time = ⟨2024, 1, 1, 0, 0, 59⟩ :=
  ⟨traceOf 0x02 ⟨lastSecond, false, .polling⟩ callActs, _, _,
    run_traceOf (by decide), rfl, by decide, by decide⟩

end Calls

end Time
end OpenKernel
