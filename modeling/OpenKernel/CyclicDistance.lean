import Mathlib.Data.Nat.Basic
import Mathlib.Tactic

/-!
# Distance on a ring of positions

`cyclicDist n a b` is the number of steps forward from position `a` to
position `b` on a ring of `n` positions.  A scan that starts at `a` and moves
forward meets the positions in the order of this distance; a fairness argument
for such a scan is a decreasing distance.
-/

namespace OpenKernel

/-- Steps forward from `a` to `b` on a ring of `n` positions. -/
def cyclicDist (n a b : Nat) : Nat :=
  if a ≤ b then b - a else b + n - a

section CyclicDistance

variable {n a b o : Nat}

theorem cyclicDist_lt
    (ha : a < n) (hb : b < n) :
    cyclicDist n a b < n := by
  unfold cyclicDist
  split <;> omega

theorem cyclicDist_pos
    (ha : a < n)
    (hne : a ≠ b) :
    0 < cyclicDist n a b := by
  unfold cyclicDist
  split <;> omega

/-- Moving on from a position inside the ring wraps at most once. -/
theorem add_mod_ring
    (ha : a < n) (ho : o < n) :
    (a + o) % n = if a + o < n then a + o else a + o - n := by
  split
  · exact Nat.mod_eq_of_lt ‹_›
  · rw [Nat.mod_eq_sub_mod (by omega), Nat.mod_eq_of_lt (by omega)]

/-- Going forward by the distance arrives. -/
theorem add_cyclicDist
    (ha : a < n) (hb : b < n) :
    (a + cyclicDist n a b) % n = b := by
  rw [add_mod_ring ha (cyclicDist_lt ha hb)]
  unfold cyclicDist
  split <;> split <;> omega

/-- Advancing without passing the target shortens the distance by the advance. -/
theorem cyclicDist_advance
    (ha : a < n) (hb : b < n)
    (ho : o ≤ cyclicDist n a b) :
    cyclicDist n ((a + o) % n) b = cyclicDist n a b - o := by
  have hlt := cyclicDist_lt ha hb
  rw [add_mod_ring ha (by omega)]
  unfold cyclicDist at *
  split at ho <;> split <;> split <;> omega

end CyclicDistance

end OpenKernel
