import OpenKernel.StoreHistory

/-!
# The RAM disk

`RamDiskDriver` of `src/driver.rs`.  Its two operations copy between a block and
a buffer of the caller; an index or a slice out of range and a copy between
slices of different lengths stop the kernel.

In every sequence of operations they do not (`ram_disk_is_block_array`): the
blocks keep the length that the checks are made against, and the disk is the
store that the successful writes leave.
-/

namespace OpenKernel
namespace Driver

abbrev Bytes := List UInt8

/-- The panics of indexing, slicing and copying. -/
inductive SlicePanic where
  | index
  | range
  | lengths
deriving DecidableEq, Repr

section Slices

variable {α : Type}

/-- `xs[i]`. -/
def index (xs : List α) (i : Nat) : Except SlicePanic α :=
  match xs[i]? with
  | some x => .ok x
  | none => .error .index

/-- `&buf[..n]`. -/
def sliceTo (buf : List α) (n : Nat) : Except SlicePanic (List α) :=
  if n ≤ buf.length then .ok (buf.take n) else .error .range

/-- `dst.copy_from_slice(src)`: what `dst` holds afterwards. -/
def copyFromSlice (dst src : List α) : Except SlicePanic (List α) :=
  if dst.length = src.length then .ok src else .error .lengths

end Slices

structure RamDiskDriver where
  name : String
  blocks : List Bytes
  block_size : Nat
  status : String

namespace RamDiskDriver

def new (block_count block_size : Nat) : RamDiskDriver where
  name := "ramdisk0"
  blocks := List.replicate block_count (List.replicate block_size 0)
  block_size := block_size
  status := "active"

def init (disk : RamDiskDriver) : Bool × RamDiskDriver :=
  (true, { disk with status := "ready" })

def blockCount (disk : RamDiskDriver) : Nat :=
  disk.blocks.length

/-- The answer, and what the buffer holds afterwards. -/
def readBlock (disk : RamDiskDriver) (block_id : Nat) (buf : Bytes) :
    Except SlicePanic (Bool × Bytes) := do
  if block_id < disk.blocks.length ∧ disk.block_size ≤ buf.length then
    let dst ← sliceTo buf disk.block_size
    let block ← index disk.blocks block_id
    let copied ← copyFromSlice dst block
    pure (true, copied ++ buf.drop disk.block_size)
  else
    pure (false, buf)

/-- The answer, and the disk afterwards. -/
def writeBlock (disk : RamDiskDriver) (block_id : Nat) (buf : Bytes) :
    Except SlicePanic (Bool × RamDiskDriver) := do
  if block_id < disk.blocks.length ∧ disk.block_size ≤ buf.length then
    let block ← index disk.blocks block_id
    let src ← sliceTo buf disk.block_size
    let copied ← copyFromSlice block src
    pure (true, { disk with blocks := disk.blocks.set block_id copied })
  else
    pure (false, disk)

end RamDiskDriver

inductive DiskCall where
  | init
  | readBlock (block_id : Nat) (buf : Bytes)
  | writeBlock (block_id : Nat) (buf : Bytes)

namespace RamDiskDriver

/-- The disk after a call; a read leaves it as it is. -/
def call (disk : RamDiskDriver) : DiskCall → Except SlicePanic RamDiskDriver
  | .init => .ok disk.init.2
  | .readBlock block_id buf => do
      let _ ← disk.readBlock block_id buf
      pure disk
  | .writeBlock block_id buf => do
      let (_, disk) ← disk.writeBlock block_id buf
      pure disk

def callAll (disk : RamDiskDriver) (calls : List DiskCall) : Except SlicePanic RamDiskDriver :=
  calls.foldlM call disk

end RamDiskDriver

section Contents

/-- The id and the buffer that an operation checks. -/
def Accepts (block_count block_size block_id : Nat) (buf : Bytes) : Prop :=
  block_id < block_count ∧ block_size ≤ buf.length

instance (block_count block_size block_id : Nat) (buf : Bytes) :
    Decidable (Accepts block_count block_size block_id buf) :=
  inferInstanceAs (Decidable (_ ∧ _))

/-- The write that a call makes, if it is a successful one. -/
def DiskCall.write? (block_count block_size : Nat) : DiskCall → Option (Nat × Bytes)
  | .writeBlock block_id buf =>
      if Accepts block_count block_size block_id buf then
        some (block_id, buf.take block_size)
      else
        none
  | _ => none

/-- What a block holds after a sequence of calls: the first bytes of the latest successful
write to it, or zeros. -/
def contents (block_count block_size : Nat) (calls : List DiskCall) (block_id : Nat) : Bytes :=
  (latest (calls.filterMap (DiskCall.write? block_count block_size)) block_id).getD
    (List.replicate block_size 0)

variable {block_count block_size : Nat} {store : Nat → Bytes} {disk : RamDiskDriver}

/-- The disk holds the blocks of a store, all of one length. -/
structure Holds (block_count block_size : Nat) (store : Nat → Bytes)
    (disk : RamDiskDriver) : Prop where
  block_size_eq : disk.block_size = block_size
  blocks_eq : disk.blocks = (List.range block_count).map store
  length_store : ∀ block_id, (store block_id).length = block_size

theorem holds_new
    (block_count block_size : Nat) :
    Holds block_count block_size (fun _ => List.replicate block_size 0)
      (RamDiskDriver.new block_count block_size) where
  block_size_eq := rfl
  blocks_eq := by
    rw [List.map_const', List.length_range]
    rfl
  length_store := fun _ => List.length_replicate

theorem Holds.blockCount_eq
    (h : Holds block_count block_size store disk) :
    disk.blockCount = block_count := by
  rw [RamDiskDriver.blockCount, h.blocks_eq, List.length_map, List.length_range]

theorem index_blocks
    (h : Holds block_count block_size store disk)
    {block_id : Nat}
    (hid : block_id < block_count) :
    index disk.blocks block_id = .ok (store block_id) := by
  simp [index, h.blocks_eq, hid]

/-- `read_block` copies the block into the buffer. -/
theorem readBlock_spec
    (h : Holds block_count block_size store disk)
    (block_id : Nat) (buf : Bytes) :
    disk.readBlock block_id buf =
      if Accepts block_count block_size block_id buf then
        .ok (true, store block_id ++ buf.drop block_size)
      else
        .ok (false, buf) := by
  have hcount : disk.blocks.length = block_count := h.blockCount_eq
  rw [RamDiskDriver.readBlock, hcount, h.block_size_eq]
  by_cases haccepts : Accepts block_count block_size block_id buf
  · have hslice : sliceTo buf block_size = .ok (buf.take block_size) := if_pos haccepts.2
    have hcopy : copyFromSlice (buf.take block_size) (store block_id) = .ok (store block_id) := by
      refine if_pos ?_
      rw [List.length_take, h.length_store, Nat.min_eq_left haccepts.2]
    have hcheck : block_id < block_count ∧ block_size ≤ buf.length := haccepts
    rw [if_pos haccepts, if_pos hcheck, hslice, index_blocks h hcheck.1]
    show (copyFromSlice (buf.take block_size) (store block_id) >>= _) = _
    rw [hcopy]
    rfl
  · have hcheck : ¬ (block_id < block_count ∧ block_size ≤ buf.length) := haccepts
    rw [if_neg haccepts, if_neg hcheck]
    rfl

/-- `write_block` stores the first bytes of the buffer, or nothing. -/
theorem writeBlock_spec
    (h : Holds block_count block_size store disk)
    (block_id : Nat) (buf : Bytes) :
    ∃ disk', disk.writeBlock block_id buf =
        .ok (decide (Accepts block_count block_size block_id buf), disk') ∧
      (¬ Accepts block_count block_size block_id buf → disk' = disk) ∧
      (Accepts block_count block_size block_id buf →
        Holds block_count block_size
          (Function.update store block_id (buf.take block_size)) disk') := by
  have hcount : disk.blocks.length = block_count := h.blockCount_eq
  rw [RamDiskDriver.writeBlock, hcount, h.block_size_eq]
  by_cases haccepts : Accepts block_count block_size block_id buf
  · have hslice : sliceTo buf block_size = .ok (buf.take block_size) := if_pos haccepts.2
    have hlength : (buf.take block_size).length = block_size := by
      rw [List.length_take, Nat.min_eq_left haccepts.2]
    have hcopy : copyFromSlice (store block_id) (buf.take block_size) =
        .ok (buf.take block_size) :=
      if_pos ((h.length_store block_id).trans hlength.symm)
    refine ⟨{ disk with blocks := disk.blocks.set block_id (buf.take block_size) }, ?_,
      fun hnot => absurd haccepts hnot, fun _ => ⟨h.block_size_eq, ?_, ?_⟩⟩
    · have hcheck : block_id < block_count ∧ block_size ≤ buf.length := haccepts
      rw [if_pos hcheck, index_blocks h hcheck.1, hslice, decide_eq_true haccepts]
      show (copyFromSlice (store block_id) (buf.take block_size) >>= _) = _
      rw [hcopy, h.block_size_eq]
      rfl
    · rw [h.blocks_eq]
      apply List.ext_getElem
      · simp
      · intro i hi hi'
        by_cases hsame : block_id = i
        · subst hsame
          simp
        · simp [List.getElem_set_ne hsame, Function.update_of_ne (Ne.symm hsame)]
    · intro i
      by_cases hsame : i = block_id
      · rw [hsame, Function.update_self, hlength]
      · rw [Function.update_of_ne hsame, h.length_store]
  · refine ⟨disk, ?_, fun _ => rfl, fun haccepts' => absurd haccepts' haccepts⟩
    have hcheck : ¬ (block_id < block_count ∧ block_size ≤ buf.length) := haccepts
    rw [if_neg hcheck, decide_eq_false haccepts]
    rfl

/-- A call leaves the store that its write leaves. -/
theorem call_spec
    (h : Holds block_count block_size store disk)
    (c : DiskCall) :
    ∃ disk', disk.call c = .ok disk' ∧
      Holds block_count block_size
        (storeAfter store (c.write? block_count block_size).toList) disk' := by
  cases c with
  | init => exact ⟨disk.init.2, rfl, h.block_size_eq, h.blocks_eq, h.length_store⟩
  | readBlock block_id buf =>
      refine ⟨disk, ?_, h⟩
      rw [RamDiskDriver.call, readBlock_spec h]
      split <;> rfl
  | writeBlock block_id buf =>
      obtain ⟨disk', hwrite, hrefused, hstored⟩ := writeBlock_spec h block_id buf
      refine ⟨disk', ?_, ?_⟩
      · rw [RamDiskDriver.call, hwrite]
        rfl
      · rw [DiskCall.write?]
        split
        · rename_i haccepts
          exact hstored haccepts
        · rename_i haccepts
          rw [hrefused haccepts]
          exact h

/-- After any calls the disk holds the store that their writes leave. -/
theorem callAll_spec
    (h : Holds block_count block_size store disk)
    (calls : List DiskCall) :
    ∃ disk', disk.callAll calls = .ok disk' ∧
      Holds block_count block_size
        (storeAfter store (calls.filterMap (DiskCall.write? block_count block_size))) disk' := by
  induction calls generalizing disk store with
  | nil => exact ⟨disk, rfl, h⟩
  | cons c calls ih =>
      obtain ⟨disk₁, hcall, hdisk₁⟩ := call_spec h c
      obtain ⟨disk', hcalls, hdisk'⟩ := ih hdisk₁
      refine ⟨disk', ?_, ?_⟩
      · rw [RamDiskDriver.callAll, List.foldlM_cons, hcall]
        exact hcalls
      · rw [List.filterMap_cons]
        rcases hwrite : c.write? block_count block_size with _ | w
        · rw [hwrite] at hdisk'
          exact hdisk'
        · rw [hwrite] at hdisk'
          exact hdisk'

/--
In every sequence of operations no call panics.  A call succeeds exactly
when its id is in range and its buffer long enough; a read then returns the
latest successful write to the block, and what is refused changes nothing.
-/
theorem ram_disk_is_block_array
    (block_count block_size : Nat) (calls : List DiskCall) :
    ∃ disk, (RamDiskDriver.new block_count block_size).callAll calls = .ok disk ∧
      (∀ block_id buf, disk.readBlock block_id buf =
        if Accepts block_count block_size block_id buf then
          .ok (true, contents block_count block_size calls block_id ++ buf.drop block_size)
        else
          .ok (false, buf)) ∧
      ∀ block_id buf, ∃ disk', disk.writeBlock block_id buf =
          .ok (decide (Accepts block_count block_size block_id buf), disk') ∧
        (¬ Accepts block_count block_size block_id buf → disk' = disk) ∧
        ∀ other buf', other ≠ block_id →
          disk'.readBlock other buf' = disk.readBlock other buf' := by
  obtain ⟨disk, hcalls, hdisk⟩ := callAll_spec (holds_new block_count block_size) calls
  refine ⟨disk, hcalls, ?_, ?_⟩
  · intro block_id buf
    rw [readBlock_spec hdisk, storeAfter_eq_latest]
    rfl
  · intro block_id buf
    obtain ⟨disk', hwrite, hrefused, hstored⟩ := writeBlock_spec hdisk block_id buf
    refine ⟨disk', hwrite, hrefused, ?_⟩
    intro other buf' hother
    by_cases haccepts : Accepts block_count block_size block_id buf
    · rw [readBlock_spec (hstored haccepts), readBlock_spec hdisk, Function.update_of_ne hother]
    · rw [hrefused haccepts]

end Contents

end Driver
end OpenKernel
