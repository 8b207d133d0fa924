import Mathlib.Tactic

/-!
# Growable double-ended queues

A double-ended queue holds its items in order and the capacity of its storage,
which the items fit.  A push onto a full queue takes a larger storage from the
heap; nothing else does.  By how much the storage grows is not specified, so it
is a parameter (`Growth`).
-/

namespace OpenKernel

universe u

/-- A growth policy: the capacity that replaces a full one. -/
structure Growth where
  newCap : Nat → Nat
  lt_newCap : ∀ cap, cap < newCap cap

/-- Doubling, with a least capacity. -/
def Growth.doubling : Growth where
  newCap := fun cap => max 4 (2 * cap)
  lt_newCap := by
    intro cap
    omega

structure VecDeque (α : Type u) where
  items : List α
  cap : Nat
  fits : items.length ≤ cap

namespace VecDeque

section VecDeque

variable {α : Type u}

def empty : VecDeque α where
  items := []
  cap := 0
  fits := Nat.le_refl 0

/-- The next push takes a larger storage from the heap. -/
def full (d : VecDeque α) : Bool :=
  d.items.length == d.cap

def pushBack (growth : Growth) (d : VecDeque α) (x : α) : VecDeque α where
  items := d.items ++ [x]
  cap := if d.full then growth.newCap d.cap else d.cap
  fits := by
    have hfits := d.fits
    have hgrow := growth.lt_newCap d.cap
    by_cases hfull : d.items.length = d.cap
    · simp only [full, hfull, beq_self_eq_true, if_true, List.length_append,
        List.length_singleton]
      omega
    · simp only [full, beq_iff_eq, hfull, if_false, List.length_append,
        List.length_singleton]
      omega

def popFront (d : VecDeque α) : VecDeque α where
  items := d.items.tail
  cap := d.cap
  fits := by
    have hfits := d.fits
    rw [List.length_tail]
    omega

def popBack (d : VecDeque α) : VecDeque α where
  items := d.items.dropLast
  cap := d.cap
  fits := by
    have hfits := d.fits
    rw [List.length_dropLast]
    omega

def clear (d : VecDeque α) : VecDeque α where
  items := []
  cap := d.cap
  fits := Nat.zero_le d.cap

theorem full_iff
    {d : VecDeque α} :
    d.full = true ↔ d.items.length = d.cap := by
  simp [full]

/-- Pushing one after the other appends. -/
theorem items_foldl_pushBack
    (growth : Growth) (d : VecDeque α) (xs : List α) :
    (xs.foldl (fun d x => d.pushBack growth x) d).items = d.items ++ xs := by
  induction xs generalizing d with
  | nil => simp
  | cons x xs ih =>
      rw [List.foldl_cons, ih, pushBack, List.append_assoc, List.singleton_append]

end VecDeque

end VecDeque

end OpenKernel
