import Mathlib.Data.List.DropRight
import Mathlib.Tactic

/-!
# Accounting for events with two consumers

Events wait in a queue.  One consumer takes the first of them in its hand and
applies it later; a second consumer applies events at once.  The module relates
four lists: the events that arrived, those applied, those in the hand of the
first consumer (at most one) and those that wait.  They are `Accounted` for when
the last three make up the first in order.

Each move of a consumer has a lemma that says exactly when it keeps the account:
in particular the second consumer keeps it iff the events that it applies
commute with the event in the hand of the first (`Accounted.overtake_iff`).

A second account is that of a counter with resets: `countSince` is what the
counter shows after a list of events.
-/

namespace OpenKernel

universe u

section EventAccounting

variable {ε : Type u}

/-- What arrived is what was applied, then what is held, then what waits. -/
def Accounted (arrived applied held waiting : List ε) : Prop :=
  applied ++ held ++ waiting = arrived

variable {arrived applied held waiting : List ε}

/-- A single event commutes with a list iff the list repeats that event. -/
theorem append_singleton_eq_cons_iff
    (e : ε) (taken : List ε) :
    taken ++ [e] = e :: taken ↔ ∀ x ∈ taken, x = e := by
  induction taken with
  | nil =>
      simp
  | cons x rest ih =>
      rw [List.cons_append, List.cons.injEq, List.forall_mem_cons]
      constructor
      · rintro ⟨rfl, hrest⟩
        exact ⟨rfl, ih.1 hrest⟩
      · rintro ⟨rfl, hrest⟩
        exact ⟨rfl, ih.2 hrest⟩

theorem append_comm_iff
    {taken : List ε}
    (hone : held.length ≤ 1) :
    taken ++ held = held ++ taken ↔ ∀ e ∈ held, ∀ x ∈ taken, x = e := by
  rcases held with _ | ⟨e, _ | ⟨e', held⟩⟩
  · simp
  · simpa using append_singleton_eq_cons_iff e taken
  · simp at hone

namespace Accounted

/-- Nothing has happened yet. -/
theorem nil :
    Accounted ([] : List ε) [] [] [] := rfl

/-- New events join the end of the queue. -/
theorem arrive
    (h : Accounted arrived applied held waiting)
    (new : List ε) :
    Accounted (arrived ++ new) applied held (waiting ++ new) := by
  unfold Accounted at *
  rw [← h]
  simp

/-- The first consumer takes the head of the queue. -/
theorem take
    {taken : List ε}
    (h : Accounted arrived applied [] (taken ++ waiting)) :
    Accounted arrived applied taken waiting := by
  unfold Accounted at *
  simpa using h

/-- The first consumer applies what it holds. -/
theorem apply
    (h : Accounted arrived applied held waiting) :
    Accounted arrived (applied ++ held) [] waiting := by
  unfold Accounted at *
  simpa using h

/-- Taking something that does not come from the queue breaks the account. -/
theorem take_stale_iff
    (h : Accounted arrived applied [] waiting)
    (taken : List ε) :
    Accounted arrived applied taken waiting ↔ taken = [] := by
  unfold Accounted at *
  constructor
  · intro htaken
    have hlen := congrArg List.length (htaken.trans h.symm)
    simp only [List.length_append, List.length_nil] at hlen
    exact List.length_eq_zero_iff.1 (by omega)
  · rintro rfl
    exact h

/-- So does applying something that does not come from the queue. -/
theorem apply_stale_iff
    (h : Accounted arrived applied held waiting)
    (taken : List ε) :
    Accounted arrived (applied ++ taken) held waiting ↔ taken = [] := by
  unfold Accounted at *
  constructor
  · intro htaken
    have hlen := congrArg List.length (htaken.trans h.symm)
    simp only [List.length_append] at hlen
    exact List.length_eq_zero_iff.1 (by omega)
  · rintro rfl
    simpa using h

/-- The second consumer applies the head of the queue past the first one's hand. -/
theorem overtake_iff
    {taken : List ε}
    (hone : held.length ≤ 1)
    (h : Accounted arrived applied held (taken ++ waiting)) :
    Accounted arrived (applied ++ taken) held waiting ↔
      ∀ e ∈ held, ∀ x ∈ taken, x = e := by
  unfold Accounted at *
  have hbefore : applied ++ (held ++ taken ++ waiting) = arrived := by
    simpa using h
  have hafter : applied ++ taken ++ held ++ waiting =
      applied ++ (taken ++ held ++ waiting) := by
    simp
  rw [hafter, ← hbefore, List.append_right_inj, List.append_left_inj]
  exact append_comm_iff hone

/-- With nothing held and nothing waiting, what was applied is what arrived. -/
theorem eq_of_idle
    (h : Accounted arrived applied [] []) :
    applied = arrived := by
  simpa [Accounted] using h

end Accounted

end EventAccounting

section Counters

variable {ε : Type u}

/-- The events counted after the last reset. -/
def countSince (reset counted : ε → Bool) (es : List ε) : Nat :=
  (es.rtakeWhile fun e => !reset e).countP counted

theorem countSince_concat
    (reset counted : ε → Bool) (es : List ε) (e : ε) :
    countSince reset counted (es ++ [e]) =
      if reset e then 0 else countSince reset counted es + if counted e then 1 else 0 := by
  unfold countSince
  cases hreset : reset e with
  | true =>
      rw [List.rtakeWhile_concat_neg _ _ _ (by simp [hreset])]
      rfl
  | false =>
      rw [List.rtakeWhile_concat_pos _ _ _ (by simp [hreset]), List.countP_append,
        List.countP_singleton]
      rfl

end Counters

end OpenKernel
