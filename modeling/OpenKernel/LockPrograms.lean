import Mathlib.Data.List.Infix
import Mathlib.Tactic

/-!
# Programs of scoped locks on one interruptible processor

A program is described by what matters to an interrupt handler: the scopes of
its locks, the parts that run with interrupts disabled, and its calls.  `Trace`
gives the sequences of primitive steps that it may take, and `Cpu` what these
steps do to the interrupt flag and to the set of held locks.

* `Trace.stays_disabled`: a program without `enable`, entered with interrupts
  disabled, runs with interrupts disabled and releases what it takes;
* `Trace.ascending_steps`: when scopes nest in the order of a rank, a lock is taken
  only while all held ones have a smaller rank, and `enable` holds none;
* `Trace.guarded_along`: when every scope of a shared lock lies inside a
  `withoutInterrupts`, no shared lock is held at a step with interrupts enabled.
-/

namespace OpenKernel

universe u v

/-- Programs over locks `L` and calls `A`. -/
inductive LockProg (L : Type u) (A : Type v) where
  | skip
  | call (allowed : A → Prop)
  | locked (lock : L) (body : LockProg L A)
  | withoutInterrupts (body : LockProg L A)
  | enable
  | seq (first second : LockProg L A)
  | choice (left right : LockProg L A)
  | loop (body : LockProg L A)

/-- The primitive steps between which an interrupt may be delivered. -/
inductive Prim (L : Type u) (A : Type v) where
  | lock (l : L)
  | unlock (l : L)
  | disable
  | restore
  | enable
  | call (a : A)
  deriving DecidableEq

/-- The interrupt flag, the flags saved by the scopes around, the locks held. -/
@[ext] structure Cpu (L : Type u) where
  enabled : Bool
  saved : List Bool
  held : List L

section LockPrograms

variable {L : Type u} {A : Type v}

namespace LockProg

/-- The programs of a list, one after the other. -/
def block : List (LockProg L A) → LockProg L A
  | [] => skip
  | p :: ps => seq p (block ps)

/-- One of the programs of a list. -/
def oneOf : List (LockProg L A) → LockProg L A
  | [] => skip
  | [p] => p
  | p :: ps => choice p (oneOf ps)

/-- The step sequences of a program. -/
inductive Trace : LockProg L A → List (Prim L A) → Prop
  | skip : Trace skip []
  | call {allowed : A → Prop} (a : A) (h : allowed a) :
      Trace (call allowed) [.call a]
  | locked {lock : L} {body : LockProg L A} {t : List (Prim L A)}
      (h : Trace body t) :
      Trace (locked lock body) (.lock lock :: (t ++ [.unlock lock]))
  | withoutInterrupts {body : LockProg L A} {t : List (Prim L A)}
      (h : Trace body t) :
      Trace (withoutInterrupts body) (.disable :: (t ++ [.restore]))
  | enable : Trace enable [.enable]
  | seq {p q : LockProg L A} {t u : List (Prim L A)}
      (hp : Trace p t) (hq : Trace q u) :
      Trace (seq p q) (t ++ u)
  | left {p q : LockProg L A} {t : List (Prim L A)}
      (h : Trace p t) :
      Trace (choice p q) t
  | right {p q : LockProg L A} {t : List (Prim L A)}
      (h : Trace q t) :
      Trace (choice p q) t
  | stop {body : LockProg L A} :
      Trace (loop body) []
  | again {body : LockProg L A} {t u : List (Prim L A)}
      (h : Trace body t) (hloop : Trace (loop body) u) :
      Trace (loop body) (t ++ u)

/-- The program never enables interrupts outright. -/
def quiet : LockProg L A → Bool
  | enable => false
  | locked _ body => body.quiet
  | withoutInterrupts body => body.quiet
  | seq p q => p.quiet && q.quiet
  | choice p q => p.quiet && q.quiet
  | loop body => body.quiet
  | _ => true

/-- Every scope of a shared lock lies inside a `withoutInterrupts`. -/
def guarded (shared : L → Bool) : LockProg L A → Bool
  | locked lock body => !shared lock && body.guarded shared
  | withoutInterrupts body => body.quiet
  | seq p q => p.guarded shared && q.guarded shared
  | choice p q => p.guarded shared && q.guarded shared
  | loop body => body.guarded shared
  | _ => true

/-- Every lock has a greater rank than the scopes around it (`floor` is above their
ranks), and no scope is around an `enable`. -/
def ascending (rank : L → Nat) : Nat → LockProg L A → Bool
  | floor, locked lock body => decide (floor ≤ rank lock) && body.ascending rank (rank lock + 1)
  | floor, withoutInterrupts body => body.ascending rank floor
  | floor, enable => floor == 0
  | floor, seq p q => p.ascending rank floor && q.ascending rank floor
  | floor, choice p q => p.ascending rank floor && q.ascending rank floor
  | floor, loop body => body.ascending rank floor
  | _, _ => true

end LockProg

namespace Cpu

variable [DecidableEq L]

def step (c : Cpu L) : Prim L A → Cpu L
  | .lock l => { c with held := l :: c.held }
  | .unlock l => { c with held := c.held.erase l }
  | .disable => { c with enabled := false, saved := c.enabled :: c.saved }
  | .restore =>
      match c.saved with
      | [] => c
      | flag :: saved => { c with enabled := flag || c.enabled, saved := saved }
  | .enable => { c with enabled := true }
  | .call _ => c

def run (c : Cpu L) (t : List (Prim L A)) : Cpu L :=
  t.foldl step c

/-- The property holds before, between and after the steps. -/
def Along (P : Cpu L → Prop) : Cpu L → List (Prim L A) → Prop
  | c, [] => P c
  | c, p :: t => P c ∧ Along P (c.step p) t

@[simp] theorem run_nil
    (c : Cpu L) :
    c.run ([] : List (Prim L A)) = c := rfl

@[simp] theorem run_cons
    (c : Cpu L) (p : Prim L A) (t : List (Prim L A)) :
    c.run (p :: t) = (c.step p).run t := rfl

/-- Releasing the lock just taken. -/
theorem step_unlock_lock
    (c : Cpu L) (lock : L) :
    (c.step (.lock lock : Prim L A)).step (.unlock lock : Prim L A) = c := by
  simp [step]

/-- Leaving a `withoutInterrupts` just entered. -/
theorem step_restore_disable
    (c : Cpu L) :
    (c.step (.disable : Prim L A)).step (.restore : Prim L A) = c := by
  ext <;> simp [step]

theorem run_append
    (c : Cpu L) (t u : List (Prim L A)) :
    c.run (t ++ u) = (c.run t).run u :=
  List.foldl_append

theorem along_append
    {P : Cpu L → Prop} {c : Cpu L} {t u : List (Prim L A)}
    (ht : Along P c t)
    (hu : Along P (c.run t) u) :
    Along P c (t ++ u) := by
  induction t generalizing c with
  | nil =>
      exact hu
  | cons p t ih =>
      exact ⟨ht.1, ih ht.2 hu⟩

theorem along_snoc
    {P : Cpu L → Prop} {c : Cpu L} {t : List (Prim L A)} {p : Prim L A}
    (ht : Along P c t)
    (hp : P ((c.run t).step p)) :
    Along P c (t ++ [p]) := by
  have hend : P (c.run t) := by
    induction t generalizing c with
    | nil => exact ht
    | cons q t ih => exact ih ht.2 hp
  exact along_append ht ⟨hend, hp⟩

theorem along_mono
    {P Q : Cpu L → Prop} {c : Cpu L} {t : List (Prim L A)}
    (hPQ : ∀ c, P c → Q c)
    (h : Along P c t) :
    Along Q c t := by
  induction t generalizing c with
  | nil =>
      exact hPQ c h
  | cons p t ih =>
      exact ⟨hPQ c h.1, ih h.2⟩

/-- What holds along a sequence holds after each of its beginnings. -/
theorem along_isPrefix
    {P : Cpu L → Prop} {c : Cpu L} {t t' : List (Prim L A)}
    (h : Along P c t)
    (hpre : t' <+: t) :
    P (c.run t') := by
  induction t' generalizing c t with
  | nil =>
      cases t with
      | nil => exact h
      | cons p t => exact h.1
  | cons p t' ih =>
      obtain ⟨u, rfl⟩ := hpre
      exact ih h.2 (List.prefix_append t' u)

/-- The property holds of each step and the state before it. -/
def Steps (Q : Cpu L → Prim L A → Prop) : Cpu L → List (Prim L A) → Prop
  | _, [] => True
  | c, p :: t => Q c p ∧ Steps Q (c.step p) t

theorem steps_append
    {Q : Cpu L → Prim L A → Prop} {c : Cpu L} {t u : List (Prim L A)}
    (ht : Steps Q c t)
    (hu : Steps Q (c.run t) u) :
    Steps Q c (t ++ u) := by
  induction t generalizing c with
  | nil => exact hu
  | cons p t ih => exact ⟨ht.1, ih ht.2 hu⟩

/-- What holds of each step holds of the step after each beginning. -/
theorem steps_isPrefix
    {Q : Cpu L → Prim L A → Prop} {c : Cpu L} {t t' : List (Prim L A)} {p : Prim L A}
    (h : Steps Q c t)
    (hpre : t' ++ [p] <+: t) :
    Q (c.run t') p := by
  induction t' generalizing c t with
  | nil =>
      obtain ⟨u, rfl⟩ := hpre
      exact h.1
  | cons q t' ih =>
      obtain ⟨u, rfl⟩ := hpre
      exact ih h.2 (List.prefix_append _ u)

end Cpu

namespace LockProg

variable [DecidableEq L]

/-- A lock is taken above the held ones, and nothing is held at an `enable`. -/
def TakesAbove (rank : L → Nat) (c : Cpu L) : Prim L A → Prop
  | .lock l => ∀ l' ∈ c.held, rank l' < rank l
  | .enable => c.held = []
  | _ => True

/-- An ascending program takes its locks in the order of their ranks, and releases
what it takes. -/
theorem Trace.ascending_steps
    {rank : L → Nat}
    {p : LockProg L A} {t : List (Prim L A)}
    (h : p.Trace t)
    {c : Cpu L} {floor : Nat}
    (hascending : p.ascending rank floor = true)
    (hheld : ∀ l ∈ c.held, rank l < floor) :
    (c.run t).held = c.held ∧ Cpu.Steps (TakesAbove rank) c t := by
  induction h generalizing c floor with
  | skip => exact ⟨rfl, trivial⟩
  | call a _ => exact ⟨rfl, trivial, trivial⟩
  | @locked lock body t _ ih =>
      simp only [ascending, Bool.and_eq_true, decide_eq_true_eq] at hascending
      obtain ⟨hfloor, hbody⟩ := hascending
      have hinside : ∀ l ∈ (c.step (.lock lock : Prim L A)).held, rank l < rank lock + 1 := by
        intro l hl
        rcases List.mem_cons.1 hl with rfl | hl
        · exact Nat.lt_succ_self _
        · have := hheld l hl
          omega
      obtain ⟨hrun, hsteps⟩ := ih hbody hinside
      have hrelease : (((c.step (.lock lock : Prim L A)).run t).step
          (.unlock lock : Prim L A)).held = c.held := by
        show ((c.step (.lock lock : Prim L A)).run t).held.erase lock = c.held
        rw [hrun]
        simp [Cpu.step]
      constructor
      · rw [Cpu.run_cons, Cpu.run_append]
        exact hrelease
      · refine ⟨?_, Cpu.steps_append hsteps ⟨trivial, trivial⟩⟩
        intro l hl
        have := hheld l hl
        omega
  | @withoutInterrupts body t _ ih =>
      have hinside : ∀ l ∈ (c.step (.disable : Prim L A)).held, rank l < floor := hheld
      obtain ⟨hrun, hsteps⟩ := ih hascending hinside
      have hrestore : ∀ d : Cpu L, (d.step (.restore : Prim L A)).held = d.held := by
        intro d
        rcases hsaved : d.saved with _ | ⟨flag, saved⟩ <;> simp [Cpu.step, hsaved]
      constructor
      · rw [Cpu.run_cons, Cpu.run_append]
        exact (hrestore _).trans hrun
      · exact ⟨trivial, Cpu.steps_append hsteps ⟨trivial, trivial⟩⟩
  | enable =>
      obtain rfl : floor = 0 := by simpa [ascending] using hascending
      refine ⟨rfl, List.eq_nil_iff_forall_not_mem.2 ?_, trivial⟩
      intro l hl
      exact absurd (hheld l hl) (Nat.not_lt_zero _)
  | seq _ _ ihp ihq =>
      simp only [ascending, Bool.and_eq_true] at hascending
      obtain ⟨hrunp, hstepsp⟩ := ihp hascending.1 hheld
      obtain ⟨hrunq, hstepsq⟩ := ihq hascending.2 (hrunp ▸ hheld)
      rw [Cpu.run_append]
      exact ⟨hrunq.trans hrunp, Cpu.steps_append hstepsp hstepsq⟩
  | left _ ih =>
      simp only [ascending, Bool.and_eq_true] at hascending
      exact ih hascending.1 hheld
  | right _ ih =>
      simp only [ascending, Bool.and_eq_true] at hascending
      exact ih hascending.2 hheld
  | stop => exact ⟨rfl, trivial⟩
  | again _ _ ih ihloop =>
      obtain ⟨hrun, hsteps⟩ := ih hascending hheld
      obtain ⟨hrunloop, hstepsloop⟩ := ihloop hascending (hrun ▸ hheld)
      rw [Cpu.run_append]
      exact ⟨hrunloop.trans hrun, Cpu.steps_append hsteps hstepsloop⟩

/-- Entered with interrupts disabled, a quiet program keeps them disabled and leaves
the processor as it found it. -/
theorem Trace.stays_disabled
    {p : LockProg L A} {t : List (Prim L A)}
    (h : p.Trace t)
    (hquiet : p.quiet = true)
    {c : Cpu L}
    (hc : c.enabled = false) :
    c.run t = c ∧ Cpu.Along (fun d => d.enabled = false) c t := by
  induction h generalizing c with
  | skip =>
      exact ⟨rfl, hc⟩
  | call a _ =>
      exact ⟨rfl, hc, hc⟩
  | @locked lock body t _ ih =>
      have hlocked : (c.step (.lock lock : Prim L A)).enabled = false := hc
      obtain ⟨hrun, halong⟩ := ih hquiet hlocked
      have hrelease := Cpu.step_unlock_lock (A := A) c lock
      constructor
      · rw [Cpu.run_cons, Cpu.run_append, hrun]
        exact hrelease
      · refine ⟨hc, Cpu.along_snoc halong ?_⟩
        rw [hrun, hrelease]
        exact hc
  | @withoutInterrupts body t _ ih =>
      have hdisabled : (c.step (.disable : Prim L A)).enabled = false := rfl
      obtain ⟨hrun, halong⟩ := ih hquiet hdisabled
      have hrestore := Cpu.step_restore_disable (A := A) c
      constructor
      · rw [Cpu.run_cons, Cpu.run_append, hrun]
        exact hrestore
      · refine ⟨hc, Cpu.along_snoc halong ?_⟩
        rw [hrun, hrestore]
        exact hc
  | enable =>
      simp [quiet] at hquiet
  | seq _ _ ihp ihq =>
      simp only [quiet, Bool.and_eq_true] at hquiet
      obtain ⟨hrunp, halongp⟩ := ihp hquiet.1 hc
      obtain ⟨hrunq, halongq⟩ := ihq hquiet.2 hc
      constructor
      · rw [Cpu.run_append, hrunp, hrunq]
      · exact Cpu.along_append halongp (by rw [hrunp]; exact halongq)
  | left _ ih =>
      simp only [quiet, Bool.and_eq_true] at hquiet
      exact ih hquiet.1 hc
  | right _ ih =>
      simp only [quiet, Bool.and_eq_true] at hquiet
      exact ih hquiet.2 hc
  | stop =>
      exact ⟨rfl, hc⟩
  | again _ _ ih ihloop =>
      obtain ⟨hrun, halong⟩ := ih hquiet hc
      obtain ⟨hrunloop, halongloop⟩ := ihloop hquiet hc
      constructor
      · rw [Cpu.run_append, hrun, hrunloop]
      · exact Cpu.along_append halong (by rw [hrun]; exact halongloop)

/-- With interrupts enabled, the shared locks held are among those of `held`. -/
def SharedWithin (shared : L → Bool) (held : List L) (c : Cpu L) : Prop :=
  c.enabled = true → ∀ l ∈ c.held, shared l = true → l ∈ held

/-- A guarded program holds no further shared lock while interrupts are enabled, and
leaves the processor as it found it. -/
theorem Trace.guarded_along
    {shared : L → Bool}
    {p : LockProg L A} {t : List (Prim L A)}
    (h : p.Trace t)
    (hguarded : p.guarded shared = true)
    {c : Cpu L} {held : List L}
    (hc : c.enabled = true)
    (hheld : SharedWithin shared held c) :
    c.run t = c ∧ Cpu.Along (SharedWithin shared held) c t := by
  induction h generalizing c with
  | skip =>
      exact ⟨rfl, hheld⟩
  | call a _ =>
      exact ⟨rfl, hheld, hheld⟩
  | @locked lock body t _ ih =>
      simp only [guarded, Bool.and_eq_true, Bool.not_eq_true'] at hguarded
      have hlocked : SharedWithin shared held (c.step (.lock lock : Prim L A)) := by
        intro henabled l hl hshared
        rcases List.mem_cons.1 hl with rfl | hl
        · rw [hguarded.1] at hshared
          cases hshared
        · exact hheld hc l hl hshared
      have henabled : (c.step (.lock lock : Prim L A)).enabled = true := hc
      obtain ⟨hrun, halong⟩ := ih hguarded.2 henabled hlocked
      have hrelease := Cpu.step_unlock_lock (A := A) c lock
      constructor
      · rw [Cpu.run_cons, Cpu.run_append, hrun]
        exact hrelease
      · refine ⟨hheld, Cpu.along_snoc halong ?_⟩
        rw [hrun, hrelease]
        exact hheld
  | @withoutInterrupts body t hbody _ =>
      have hdisabled : (c.step (.disable : Prim L A)).enabled = false := rfl
      obtain ⟨hrun, halong⟩ := hbody.stays_disabled hguarded hdisabled
      have hrestore := Cpu.step_restore_disable (A := A) c
      have hwithin : ∀ d : Cpu L, d.enabled = false → SharedWithin shared held d := by
        intro d hd henabled
        rw [hd] at henabled
        cases henabled
      constructor
      · rw [Cpu.run_cons, Cpu.run_append, hrun]
        exact hrestore
      · refine ⟨hheld, Cpu.along_snoc (Cpu.along_mono hwithin halong) ?_⟩
        rw [hrun, hrestore]
        exact hheld
  | enable =>
      have hsame : c.step (.enable : Prim L A) = c := by
        ext <;> simp [Cpu.step, hc]
      rw [Cpu.run_cons, Cpu.run_nil, hsame]
      refine ⟨rfl, hheld, ?_⟩
      rw [Cpu.Along, hsame]
      exact hheld
  | seq _ _ ihp ihq =>
      simp only [guarded, Bool.and_eq_true] at hguarded
      obtain ⟨hrunp, halongp⟩ := ihp hguarded.1 hc hheld
      obtain ⟨hrunq, halongq⟩ := ihq hguarded.2 hc hheld
      constructor
      · rw [Cpu.run_append, hrunp, hrunq]
      · exact Cpu.along_append halongp (by rw [hrunp]; exact halongq)
  | left _ ih =>
      simp only [guarded, Bool.and_eq_true] at hguarded
      exact ih hguarded.1 hc hheld
  | right _ ih =>
      simp only [guarded, Bool.and_eq_true] at hguarded
      exact ih hguarded.2 hc hheld
  | stop =>
      exact ⟨rfl, hheld⟩
  | again _ _ ih ihloop =>
      obtain ⟨hrun, halong⟩ := ih hguarded hc hheld
      obtain ⟨hrunloop, halongloop⟩ := ihloop hguarded hc hheld
      constructor
      · rw [Cpu.run_append, hrun, hrunloop]
      · exact Cpu.along_append halong (by rw [hrun]; exact halongloop)

/-- At no point of a guarded program is a shared lock held with interrupts enabled. -/
theorem Trace.shared_free
    {shared : L → Bool}
    {p : LockProg L A} {t t' : List (Prim L A)}
    (h : p.Trace t)
    (hguarded : p.guarded shared = true)
    (hpre : t' <+: t)
    (henabled : ((⟨true, [], []⟩ : Cpu L).run t').enabled = true) :
    ∀ l ∈ ((⟨true, [], []⟩ : Cpu L).run t').held, shared l = false := by
  have hstart : SharedWithin shared [] (⟨true, [], []⟩ : Cpu L) := by
    intro _ l hl
    cases hl
  obtain ⟨-, halong⟩ := h.guarded_along hguarded rfl hstart
  intro l hl
  have hnone := Cpu.along_isPrefix halong hpre henabled l hl
  by_contra hshared
  simpa using hnone (by simpa using hshared)

end LockProg

end LockPrograms

end OpenKernel
