import Mathlib.Data.List.Basic
import Mathlib.Tactic

/-!
# Byte memory with a log of its writes

A memory is a function from addresses to bytes, and remembers which slices were
written.  A write replaces the bytes of one slice and leaves the others alone.
-/

namespace OpenKernel

/-- `length` bytes from `address` on. -/
structure Slice where
  address : Nat
  length : Nat
deriving DecidableEq, Repr

namespace Slice

def Contains (slice : Slice) (addr : Nat) : Prop :=
  slice.address ≤ addr ∧ addr < slice.address + slice.length

/-- Every byte of `slice` is in `[start, stop)`. -/
def Within (slice : Slice) (start stop : Nat) : Prop :=
  ∀ addr, slice.Contains addr → start ≤ addr ∧ addr < stop

/-- No byte lies in both. -/
def Apart (slice slice' : Slice) : Prop :=
  ∀ addr, ¬ (slice.Contains addr ∧ slice'.Contains addr)

variable {slice slice' : Slice} {start stop : Nat}

theorem within_iff :
    slice.Within start stop ↔
      slice.length = 0 ∨ (start ≤ slice.address ∧ slice.address + slice.length ≤ stop) := by
  unfold Within Contains
  constructor
  · intro h
    by_cases hempty : slice.length = 0
    · exact Or.inl hempty
    · have hfirst := h slice.address (by omega)
      have hlast := h (slice.address + slice.length - 1) (by omega)
      exact Or.inr ⟨hfirst.1, by omega⟩
  · rintro (hempty | hin) addr haddr <;> omega

theorem Apart.symm
    (h : slice.Apart slice') :
    slice'.Apart slice :=
  fun addr hboth => h addr ⟨hboth.2, hboth.1⟩

end Slice

structure LoggedMemory where
  bytes : Nat → UInt8
  writes : List Slice

namespace LoggedMemory

/-- Nothing written yet. -/
def start (bytes : Nat → UInt8) : LoggedMemory where
  bytes := bytes
  writes := []

/-- The `i`-th byte of the slice becomes `value i`. -/
def write (memory : LoggedMemory) (slice : Slice) (value : Nat → UInt8) : LoggedMemory where
  bytes := fun addr =>
    if slice.address ≤ addr ∧ addr < slice.address + slice.length then
      value (addr - slice.address)
    else
      memory.bytes addr
  writes := memory.writes ++ [slice]

variable {memory : LoggedMemory} {slice : Slice} {value : Nat → UInt8}

@[simp]
theorem writes_write :
    (memory.write slice value).writes = memory.writes ++ [slice] := rfl

theorem bytes_write_of_contains
    {addr : Nat}
    (h : slice.Contains addr) :
    (memory.write slice value).bytes addr = value (addr - slice.address) :=
  if_pos h

/-- The frame of a write. -/
theorem bytes_write_of_not_contains
    {addr : Nat}
    (h : ¬ slice.Contains addr) :
    (memory.write slice value).bytes addr = memory.bytes addr :=
  if_neg h

end LoggedMemory

end OpenKernel
