import Mathlib.Data.List.Basic
import Mathlib.Tactic

/-!
# A store and the history of its writes

A store is a function from indices to values.  A history is a list of writes,
the latest last, and `storeAfter` the store that it leaves.  The one law is that
a store holds the latest write to each index, or what it held at the beginning
(`storeAfter_eq_latest`).
-/

namespace OpenKernel

universe u v

section StoreHistory

variable {ι : Type u} {β : Type v} [DecidableEq ι]

/-- The store after a history of writes. -/
def storeAfter (initial : ι → β) (writes : List (ι × β)) : ι → β :=
  writes.foldl (fun store w => Function.update store w.1 w.2) initial

/-- The value of the latest write to an index. -/
def latest (writes : List (ι × β)) (i : ι) : Option β :=
  ((writes.filter fun w => w.1 = i).getLast?).map Prod.snd

variable {initial : ι → β} {writes : List (ι × β)} {i : ι}

@[simp] theorem latest_nil :
    latest ([] : List (ι × β)) i = none := rfl

theorem latest_concat
    (writes : List (ι × β)) (w : ι × β) (i : ι) :
    latest (writes ++ [w]) i = if w.1 = i then some w.2 else latest writes i := by
  rw [latest, List.filter_append]
  by_cases hw : w.1 = i
  · simp [hw]
  · simp [hw, latest]

theorem storeAfter_concat
    (initial : ι → β) (writes : List (ι × β)) (w : ι × β) :
    storeAfter initial (writes ++ [w]) =
      Function.update (storeAfter initial writes) w.1 w.2 := by
  rw [storeAfter, List.foldl_append]
  rfl

/-- A store holds the latest write. -/
theorem storeAfter_eq_latest
    (initial : ι → β) (writes : List (ι × β)) (i : ι) :
    storeAfter initial writes i = (latest writes i).getD (initial i) := by
  induction writes using List.reverseRecOn with
  | nil => rfl
  | append_singleton writes w ih =>
      rw [storeAfter_concat, latest_concat]
      by_cases hw : w.1 = i
      · rw [hw, Function.update_self, if_pos rfl, Option.getD_some]
      · rw [Function.update_of_ne (Ne.symm hw), if_neg hw, ih]

end StoreHistory

end OpenKernel
