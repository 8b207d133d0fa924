import OpenKernel.CyclicDistance
import OpenKernel.DispatchLoop

/-!
# The round robin never starves a Ready task

`prepare_next` scans forward from `current`.  After a body that yields,
`current` moves past the dispatched slot; after a body that only finishes it
stays there, but the slot is then Finished and the next scan skips it.  Either
way the next dispatch is strictly ahead of the last one, so a slot `j` that is
Ready at every scan is met within one turn of the ring.

`turnsLeft j k` bounds the number of dispatches that can still pass over `j`.
Every passing dispatch lowers it and no other step raises it above the distance
from the dispatched slot to `j`.
-/

namespace OpenKernel
namespace Scheduling

open Scheduler

/-- The body has called `yield_now` or `finish` (or both) by its return. -/
def YieldsOrFinishes (k : Kernel) (e : Event) : Prop :=
  e = .finishTask → ∀ body ∈ k.running,
    body.2.yielded = true ∨ body.2.finished = true

instance (k : Kernel) (e : Event) : Decidable (YieldsOrFinishes k e) :=
  inferInstanceAs (Decidable (_ → _))

/-- Every task function of the module yields or finishes. -/
theorem task_functions_yield_or_finish
    (ctx : TaskContext) :
    ((idleTask ctx).yielded = true ∨ (idleTask ctx).finished = true) ∧
    ((workerTask ctx).yielded = true ∨ (workerTask ctx).finished = true) ∧
    ((loggerTask ctx).yielded = true ∨ (loggerTask ctx).finished = true) := by
  refine ⟨.inl rfl, .inl rfl, ?_⟩
  unfold loggerTask
  split
  · exact .inr rfl
  · exact .inl rfl

def isPrepare : Event → Bool
  | .prepareNext _ => true
  | _ => false

/-- The `prepare_next` calls of a run, with the states in which they happen. -/
def prepares (tr : List (Kernel × Event)) : List (Kernel × Event) :=
  tr.filter (fun x => isPrepare x.2)

/-- A step that finds slot `j` Ready and does not dispatch it. -/
def PassesOver (j : Nat) (x : Kernel × Event) : Prop :=
  x.1.sched.stateAt j = some .Ready ∧ x.2 ≠ .prepareNext (some j)

/-- A bound on the dispatches that can still pass over slot `j`. -/
def turnsLeft (j : Nat) (k : Kernel) : Nat :=
  match k.running with
  | some (idx, _) => cyclicDist MAX_TASKS idx j
  | none =>
      if k.sched.stateAt k.sched.current = some .Ready then
        cyclicDist MAX_TASKS k.sched.current j + 1
      else
        cyclicDist MAX_TASKS k.sched.current j

section Scan

variable {k k' : Kernel} {j idx : Nat}

/-- A dispatch that passes over a Ready slot `j` uses up one turn. -/
theorem turnsLeft_dispatch
    (hinv : SlotInvariant k)
    (h : Step k (.prepareNext (some idx)) k')
    (hready : k.sched.stateAt j = some .Ready)
    (hne : idx ≠ j) :
    idx < MAX_TASKS ∧ j < MAX_TASKS ∧ turnsLeft j k' + 1 ≤ turnsLeft j k := by
  obtain ⟨task, hslot, _⟩ := stateAt_eq_some_iff.1 hready
  have hj : j < MAX_TASKS := lt_of_slot hslot
  cases h with
  | @dispatch s s' tick idx func ctx hprep =>
      rcases prepareNext_eq_ok hprep with ⟨hr, _⟩ | ⟨i, task', hnext, hslot', _, hr, rfl⟩
      · cases hr
      · obtain rfl : idx = i := by simp at hr; exact hr.1
        refine ⟨lt_of_slot hslot', hj, ?_⟩
        have hcur : s.current < MAX_TASKS := hinv.current_lt
        obtain ⟨o, ho, hidx, hidxready, hskip⟩ := nextRunnableFrom_eq_some hnext
        -- the scan has not gone beyond `j`, since `j` itself is Ready
        have hle : o ≤ cyclicDist MAX_TASKS s.current j := by
          by_contra hgt
          refine hskip _ (Nat.lt_of_not_le hgt) ?_
          rw [add_cyclicDist hcur hj]
          exact hready
        have hdist : cyclicDist MAX_TASKS idx j =
            cyclicDist MAX_TASKS s.current j - o := by
          rw [hidx]
          exact cyclicDist_advance hcur hj hle
        have hnot : o ≠ cyclicDist MAX_TASKS s.current j := by
          intro heq
          rw [heq, add_cyclicDist hcur hj] at hidx
          exact hne hidx
        show cyclicDist MAX_TASKS idx j + 1 ≤ turnsLeft j ⟨s, none⟩
        simp only [turnsLeft]
        split
        · omega
        · rename_i hcurrent
          -- the slot at `current` is not Ready, so the scan has moved on
          have hpos : o ≠ 0 := by
            rintro rfl
            rw [Nat.add_zero, Nat.mod_eq_of_lt hcur] at hidx
            exact hcurrent (hidx ▸ hidxready)
          omega

/-- The return of a body leaves no more turns than the distance from its slot. -/
theorem turnsLeft_finish
    (h : Step k .finishTask k')
    (hyield : YieldsOrFinishes k .finishTask)
    (hj : j < MAX_TASKS)
    {ctx : TaskContext}
    (hrunning : k.running = some (idx, ctx))
    (hne : idx ≠ j) :
    turnsLeft j k' ≤ turnsLeft j k := by
  cases h with
  | @finish s s' idx' ctx' hfin =>
      obtain ⟨rfl, rfl⟩ : idx' = idx ∧ ctx' = ctx := by simpa using hrunning
      obtain ⟨task, hslot, _⟩ := finishTask_eq_ok_iff.1 hfin
      have hidx : idx' < MAX_TASKS := lt_of_slot hslot
      have hcurrent := finishTask_current hfin
      have hpos : 0 < cyclicDist MAX_TASKS idx' j := cyclicDist_pos hidx hne
      show turnsLeft j ⟨s', none⟩ ≤ cyclicDist MAX_TASKS idx' j
      by_cases hy : ctx'.yielded = true
      · rw [if_pos hy] at hcurrent
        have hdist : cyclicDist MAX_TASKS s'.current j =
            cyclicDist MAX_TASKS idx' j - 1 := by
          rw [hcurrent]
          exact cyclicDist_advance hidx hj hpos
        simp only [turnsLeft]
        split <;> omega
      · rw [if_neg hy] at hcurrent
        -- without a yield the body has finished, and its slot is skipped
        have hfinished : ctx'.finished = true :=
          (hyield rfl (idx', ctx') rfl).resolve_left hy
        have hst : s'.stateAt idx' ≠ some .Ready := by
          rw [stateAt_finishTask idx' hfin, if_pos rfl]
          simp [hfinished]
        simp only [turnsLeft, hcurrent, if_neg hst, le_refl]

end Scan

section Fairness

/-- `prepare_next` returns None only if no slot is Ready. -/
theorem prepareNext_none
    {k k' : Kernel}
    (h : Step k (.prepareNext none) k')
    (idx : Nat) :
    k.sched.stateAt idx ≠ some .Ready := by
  cases h with
  | idle hprep =>
      rcases prepareNext_eq_ok hprep with ⟨_, _, hnone⟩ | ⟨_, _, _, _, _, hr, _⟩
      · exact hnone idx
      · cases hr

/-- The number of passing dispatches so far, against the turns that are left. -/
structure PassedSoFar (j : Nat) (k : Kernel) (n : Nat) : Prop where
  count_lt : n < MAX_TASKS
  target_lt : j < MAX_TASKS
  running_ne : ∀ idx ctx, k.running = some (idx, ctx) → idx ≠ j
  bound : turnsLeft j k + n ≤ MAX_TASKS

theorem passedSoFar_step
    {k k' : Kernel} {e : Event} {j n : Nat}
    (hinv : SlotInvariant k)
    (h : Step k e k')
    (hyield : YieldsOrFinishes k e)
    (hpass : isPrepare e = true → PassesOver j (k, e))
    (hpassed : n = 0 ∨ PassedSoFar j k n) :
    (isPrepare e = true → PassedSoFar j k' (n + 1)) ∧
    (isPrepare e = false → n = 0 ∨ PassedSoFar j k' n) := by
  rcases h.running_cases with
    ⟨_, _, rfl⟩ | ⟨idx, ctx, hnone, hrunning, rfl, _⟩ |
    ⟨idx, ctx, ctx', hrunning, hrunning', hbody⟩ | ⟨idx, ctx, hrunning, hnone, rfl, _⟩
  · exact absurd (hpass rfl).1 (prepareNext_none h j)
  · refine ⟨fun _ => ?_, fun hno => by cases hno⟩
    obtain ⟨hready, hnot⟩ := hpass rfl
    have hne : idx ≠ j := by
      rintro rfl
      exact hnot rfl
    obtain ⟨hidx, hj, hturns⟩ := turnsLeft_dispatch hinv h hready hne
    have hk' : turnsLeft j k' = cyclicDist MAX_TASKS idx j := by
      simp [turnsLeft, hrunning]
    have hpos := cyclicDist_pos hidx hne
    have hlt := cyclicDist_lt hidx hj
    have hbound : turnsLeft j k' + (n + 1) ≤ MAX_TASKS := by
      rcases hpassed with rfl | hpassed
      · omega
      · have := hpassed.bound
        omega
    refine ⟨by omega, hj, ?_, hbound⟩
    intro i c hi
    obtain ⟨rfl, _⟩ : idx = i ∧ ctx = c := by simpa [hrunning] using hi
    exact hne
  · have hsame : isPrepare e = false := by
      cases e <;> first | rfl | exact hbody.elim
    refine ⟨fun hyes => by simp [hsame] at hyes, fun _ => ?_⟩
    refine hpassed.imp_right (fun hpassed => ?_)
    have hturns : turnsLeft j k' = turnsLeft j k := by
      simp [turnsLeft, hrunning, hrunning']
    refine ⟨hpassed.count_lt, hpassed.target_lt, ?_, hturns ▸ hpassed.bound⟩
    intro i c hi
    obtain ⟨rfl, _⟩ : idx = i ∧ ctx' = c := by simpa [hrunning'] using hi
    exact hpassed.running_ne idx ctx hrunning
  · refine ⟨fun hyes => (nomatch hyes), fun _ => ?_⟩
    refine hpassed.imp_right (fun hpassed => ?_)
    have hturns := turnsLeft_finish h hyield hpassed.target_lt hrunning
      (hpassed.running_ne idx ctx hrunning)
    refine ⟨hpassed.count_lt, hpassed.target_lt, by simp [hnone], ?_⟩
    exact le_trans (Nat.add_le_add_right hturns n) hpassed.bound

/-- Along a run whose scans all pass over `j`, the scans use up the turns. -/
theorem passedSoFar_run
    {k k' : Kernel} {tr : List (Kernel × Event)} {j : Nat}
    (hinv : SlotInvariant k)
    (h : Run Step k tr k')
    (hyield : ∀ x ∈ tr, YieldsOrFinishes x.1 x.2)
    (hpass : ∀ x ∈ prepares tr, PassesOver j x) :
    (prepares tr).length = 0 ∨ PassedSoFar j k' (prepares tr).length := by
  induction h with
  | nil => exact .inl rfl
  | @snoc t u a tr before last ih =>
      have hsplit : prepares (tr ++ [(t, a)]) = prepares tr ++ prepares [(t, a)] :=
        List.filter_append _ _
      have hmid := ih (fun x hx => hyield x (List.mem_append_left _ hx))
        (fun x hx => hpass x (by rw [hsplit]; exact List.mem_append_left _ hx))
      have hinvt : SlotInvariant t := hinv.run before
      have hlast : isPrepare a = true → PassesOver j (t, a) := by
        intro hprep
        refine hpass (t, a) ?_
        rw [hsplit]
        simp [prepares, hprep]
      obtain ⟨hyes, hno⟩ :=
        passedSoFar_step hinvt last (hyield (t, a) (by simp)) hlast hmid
      rw [hsplit, List.length_append]
      cases hprep : isPrepare a with
      | true =>
          right
          simpa [prepares, hprep] using hyes hprep
      | false =>
          have hdone := hno hprep
          simpa [prepares, hprep] using hdone

/--
In every run whose bodies all yield or finish, `prepare_next` returns None only
if no slot is Ready, and no eight consecutive `prepare_next` calls find a slot
Ready without dispatching it.
-/
theorem round_robin_serves_every_ready_task
    (k₀ k : Kernel) (tr : List (Kernel × Event))
    (hreach : Reachable k₀)
    (hrun : Run Step k₀ tr k)
    (hyield : ∀ x ∈ tr, YieldsOrFinishes x.1 x.2) :
    (∀ k₁, (k₁, Event.prepareNext none) ∈ tr →
      ∀ idx, k₁.sched.stateAt idx ≠ some .Ready) ∧
    (∀ j block, block <:+: prepares tr → block.length = 8 →
      ¬ ∀ x ∈ block, x.1.sched.stateAt j = some .Ready ∧
        x.2 ≠ .prepareNext (some j)) := by
  constructor
  · intro k₁ hmem idx
    obtain ⟨_, _, _, _, _, hstep, _⟩ := Run.exists_before hrun hmem
    exact prepareNext_none hstep idx
  · rintro j block ⟨front, back, hblock⟩ hlen hpass
    -- cut the run so that its scans are exactly the block
    obtain ⟨tr₁₂, tr₃, rfl, h₁₂, -⟩ := List.filter_eq_append_iff.1 hblock.symm
    obtain ⟨tr₁, tr₂, rfl, -, h₂⟩ := List.filter_eq_append_iff.1 h₁₂
    obtain ⟨k₂, hrun₁₂, -⟩ := Run.split hrun
    obtain ⟨k₁, hrun₁, hrun₂⟩ := Run.split hrun₁₂
    have hpassed := passedSoFar_run (hreach.run hrun₁).slotInvariant hrun₂
      (fun x hx => hyield x (by simp [hx]))
      (fun x hx => hpass x (by rw [← h₂]; exact hx))
    have hcount : (prepares tr₂).length = 8 := by
      rw [← hlen, ← h₂]
      rfl
    rcases hpassed with hzero | hpassed
    · omega
    · have hlt : (prepares tr₂).length < 8 := hpassed.count_lt
      omega

/-- Two turns of the ring after the repository's boot. -/
def twoTurns : List Event :=
  yieldingDispatch 0 [] ++ yieldingDispatch 1 [.killTask 2 true] ++
    yieldingDispatch 3 [.spawnTask "user-worker" (some 2)] ++
    yieldingDispatch 0 [] ++ yieldingDispatch 1 [] ++ yieldingDispatch 2 [] ++
    yieldingDispatch 3 [] ++ yieldingDispatch 0 []

theorem round_robin_serves_every_ready_task_init :
    (initKernel.replay twoTurns).isSome ∧
    ¬ ∀ x ∈ prepares (initKernel.replayed twoTurns).1,
      x.1.sched.stateAt 3 = some .Ready ∧ x.2 ≠ .prepareNext (some 3) := by
  have hrun := (run_replayed initKernel twoTurns (by decide)).1
  have hall := round_robin_serves_every_ready_task initKernel _ _
    (Reachable.of_booted booted_initKernel) hrun (by decide)
  exact ⟨by decide, hall.2 3 _ (List.infix_refl _) (by decide)⟩

end Fairness

end Scheduling
end OpenKernel
