import Mathlib
import OpenKernel.FrameAllocator

/-!
# The address spaces of processes

`ProcessAddressSpace` of `src/process_memory.rs`: a code, a stack and a heap
range of virtual addresses and a page table frame.  `VirtAddr::new` stops the
kernel on addresses that are not canonical, and so do the sums that overflow.

Addresses are cut into windows of 256 MiB.  A user space has its code and heap
in one window and its stack at the end of the seventh after it, each kind of
range in a band of its own, and the kernel's ranges lie in three further bands.
So two ranges meet only if they are of one kind and of one process
(`address_spaces_isolated`).
-/

namespace OpenKernel
namespace Memory

inductive SpacePanic where
  | arith (panic : ArithPanic)
  /-- `VirtAddr::new` of an address that is not canonical. -/
  | virtAddr
  | frame (panic : AllocPanic)
deriving DecidableEq

/-- Bits 48 to 63 repeat bit 47. -/
def Canonical (addr : UInt64) : Prop :=
  addr.toNat < 2 ^ 47 ∨ 2 ^ 64 - 2 ^ 47 ≤ addr.toNat

instance : DecidablePred Canonical :=
  fun _ => inferInstanceAs (Decidable (_ ∨ _))

structure VirtAddr where
  addr : UInt64
  canonical : Canonical addr

def VirtAddr.new (addr : UInt64) : Except SpacePanic VirtAddr :=
  if h : Canonical addr then .ok ⟨addr, h⟩ else .error .virtAddr

structure ProcessAddressSpace where
  pid : UInt64
  name : String
  cr3_frame : PhysFrame
  code_range : VirtAddr × VirtAddr
  stack_range : VirtAddr × VirtAddr
  heap_range : VirtAddr × VirtAddr
  isolated : Bool

/-- `VirtAddr::new(base + offset)`. -/
def virtAt (profile : Profile) (base offset : UInt64) : Except SpacePanic VirtAddr := do
  let addr ← (profile.addU64 base offset).mapError .arith
  VirtAddr.new addr

namespace ProcessAddressSpace

def createKernelSpace : Except SpacePanic ProcessAddressSpace := do
  let cr3_frame ← (containingFrame 0x1000).mapError .frame
  let code_range := (← VirtAddr.new 0x200000, ← VirtAddr.new 0x400000)
  let stack_range := (← VirtAddr.new 0x800000, ← VirtAddr.new 0x900000)
  let heap_range := (← VirtAddr.new 0x444444440000, ← VirtAddr.new 0x444444480000)
  pure
    { pid := 0
      name := "kernel"
      cr3_frame := cr3_frame
      code_range := code_range
      stack_range := stack_range
      heap_range := heap_range
      isolated := false }

def createUserSpace (profile : Profile) (pid : UInt64) (name : String) :
    Except SpacePanic ProcessAddressSpace := do
  let window ← (profile.mulU64 pid 0x10000000).mapError .arith
  let base ← (profile.addU64 0x100000000 window).mapError .arith
  let frame_offset ← (profile.mulU64 pid 0x1000).mapError .arith
  let frame_addr ← (profile.addU64 0x2000 frame_offset).mapError .arith
  let cr3_frame ← (containingFrame frame_addr.toNat).mapError .frame
  let code_range := (← VirtAddr.new base, ← virtAt profile base 0x200000)
  let stack_range := (← virtAt profile base 0x7FF00000, ← virtAt profile base 0x80000000)
  let heap_range := (← virtAt profile base 0x400000, ← virtAt profile base 0x800000)
  pure
    { pid := pid
      name := name
      cr3_frame := cr3_frame
      code_range := code_range
      stack_range := stack_range
      heap_range := heap_range
      isolated := true }

end ProcessAddressSpace

/-- `MemoryManager::new`. -/
def memoryManagerNew (profile : Profile) : Except SpacePanic (List ProcessAddressSpace) := do
  let kernel ← ProcessAddressSpace.createKernelSpace
  let init ← ProcessAddressSpace.createUserSpace profile 1 "init"
  let shell ← ProcessAddressSpace.createUserSpace profile 2 "shell"
  pure [kernel, init, shell]

section Windows

/-- 256 MiB. -/
def WINDOW : Nat := 0x10000000

/-- The kinds of ranges, by their place inside a window. -/
inductive Band where
  | userCode
  | kernelCode
  | userHeap
  | kernelStack
  | kernelHeap
  | userStack
deriving DecidableEq

namespace Band

def start : Band → Nat
  | userCode => 0
  | kernelCode => 0x200000
  | userHeap => 0x400000
  | kernelStack => 0x800000
  | kernelHeap => 0x4440000
  | userStack => 0xFF00000

def stop : Band → Nat
  | userCode => 0x200000
  | kernelCode => 0x400000
  | userHeap => 0x800000
  | kernelStack => 0x900000
  | kernelHeap => 0x4480000
  | userStack => 0x10000000

theorem stop_le
    (band : Band) :
    band.stop ≤ WINDOW := by
  cases band <;> decide

/-- Different bands do not meet. -/
theorem apart
    {band band' : Band}
    (h : band ≠ band') :
    band.stop ≤ band'.start ∨ band'.stop ≤ band.start := by
  cases band <;> cases band' <;> first | exact absurd rfl h | decide

end Band

/-- A band of a window. -/
structure Place where
  window : Nat
  band : Band
deriving DecidableEq

namespace Place

def range (place : Place) : Nat × Nat :=
  (place.window * WINDOW + place.band.start, place.window * WINDOW + place.band.stop)

/-- An address in the range tells the window and lies in the band. -/
theorem mem_range
    {place : Place} {addr : Nat}
    (h : addr ∈ Set.Ico place.range.1 place.range.2) :
    addr / WINDOW = place.window ∧
      place.band.start ≤ addr % WINDOW ∧ addr % WINDOW < place.band.stop := by
  have hstop := place.band.stop_le
  obtain ⟨hlow, hhigh⟩ := h
  simp only [range] at hlow hhigh
  obtain ⟨r, rfl⟩ : ∃ r, addr = place.window * WINDOW + r :=
    Nat.exists_eq_add_of_le (by omega)
  have hr : r < WINDOW := by omega
  have hpos : 0 < WINDOW := Nat.succ_pos _
  rw [Nat.mul_comm, Nat.mul_add_div hpos, Nat.div_eq_of_lt hr, Nat.mul_add_mod,
    Nat.mod_eq_of_lt hr]
  omega

theorem disjoint_range
    {place place' : Place}
    (h : place ≠ place') :
    Disjoint (Set.Ico place.range.1 place.range.2) (Set.Ico place'.range.1 place'.range.2) := by
  rw [Set.disjoint_left]
  intro addr hmem hmem'
  obtain ⟨hwindow, hlow, hhigh⟩ := mem_range hmem
  obtain ⟨hwindow', hlow', hhigh'⟩ := mem_range hmem'
  have hband : place.band = place'.band := by
    by_contra hne
    rcases Band.apart hne with hle | hle <;> omega
  apply h
  cases place
  cases place'
  simp_all

end Place

end Windows

section Isolation

variable {pid : UInt64} {name : String} {space : ProcessAddressSpace}

/-- The addresses of a half-open range. -/
def addrs (range : VirtAddr × VirtAddr) : Set Nat :=
  Set.Ico range.1.addr.toNat range.2.addr.toNat

namespace ProcessAddressSpace

def ranges (space : ProcessAddressSpace) : List (VirtAddr × VirtAddr) :=
  [space.code_range, space.heap_range, space.stack_range]

/-- The places of the ranges of a user space. -/
def userPlaces (pid : UInt64) : List Place :=
  [⟨16 + pid.toNat, .userCode⟩, ⟨16 + pid.toNat, .userHeap⟩, ⟨16 + pid.toNat + 7, .userStack⟩]

def kernelPlaces : List Place :=
  [⟨0, .kernelCode⟩, ⟨0x44444, .kernelHeap⟩, ⟨0, .kernelStack⟩]

end ProcessAddressSpace

theorem virtAddr_new_eq_ok
    {addr : UInt64} {v : VirtAddr}
    (h : VirtAddr.new addr = .ok v) :
    v.addr = addr := by
  rw [VirtAddr.new] at h
  split at h
  · cases h
    rfl
  · cases h

/-- With overflow checks a sum that returns is exact. -/
theorem toNat_of_addU64
    {a b c : UInt64}
    (h : Profile.dev.addU64 a b = .ok c) :
    c.toNat = a.toNat + b.toNat := by
  obtain ⟨rfl, hfits⟩ := Profile.u64_eq_ok h
  exact toNat_add_of_lt (hfits rfl)

theorem toNat_of_mulU64
    {a b c : UInt64}
    (h : Profile.dev.mulU64 a b = .ok c) :
    c.toNat = a.toNat * b.toNat := by
  obtain ⟨rfl, hfits⟩ := Profile.u64_eq_ok h
  exact toNat_mul_of_lt (hfits rfl)

theorem virtAt_eq_ok
    {base offset : UInt64} {v : VirtAddr}
    (h : virtAt .dev base offset = .ok v) :
    v.addr.toNat = base.toNat + offset.toNat := by
  obtain ⟨addr, hadd, hnew⟩ := bind_eq_ok_iff.1 h
  rw [virtAddr_new_eq_ok hnew, toNat_of_addU64 (mapError_eq_ok_iff.1 hadd)]

/-- The bounds of a range. -/
def bounds (range : VirtAddr × VirtAddr) : Nat × Nat :=
  (range.1.addr.toNat, range.2.addr.toNat)

/-- The page table frame of a user space. -/
theorem start_address_eq
    {frame_offset frame_addr : UInt64} {cr3_frame : PhysFrame}
    (hframe : containingFrame frame_addr.toNat = .ok cr3_frame)
    (hoffset : frame_offset.toNat = pid.toNat * (0x1000 : UInt64).toNat)
    (haddr : frame_addr.toNat = (0x2000 : UInt64).toNat + frame_offset.toNat) :
    cr3_frame.start_address = 0x2000 + pid.toNat * 0x1000 := by
  rw [containingFrame] at hframe
  split at hframe
  · cases hframe
    simp only [UInt64.reduceToNat] at hoffset haddr
    change frame_addr.toNat / 4096 * 4096 = _
    omega
  · cases hframe

/-- The base of a user space is the start of a window. -/
theorem base_eq
    {window base : UInt64}
    (hwindow : window.toNat = pid.toNat * (0x10000000 : UInt64).toNat)
    (hbase : base.toNat = (0x100000000 : UInt64).toNat + window.toNat) :
    base.toNat = (16 + pid.toNat) * WINDOW := by
  simp only [UInt64.reduceToNat] at hwindow hbase
  rw [WINDOW]
  omega

/-- A user space that is made at all has its ranges in its own places. -/
theorem createUserSpace_spec
    (h : ProcessAddressSpace.createUserSpace .dev pid name = .ok space) :
    space.cr3_frame.start_address = 0x2000 + pid.toNat * 0x1000 ∧
      space.ranges.map bounds = (ProcessAddressSpace.userPlaces pid).map Place.range := by
  obtain ⟨window, hwindow, h⟩ := bind_eq_ok_iff.1 h
  obtain ⟨base, hbase, h⟩ := bind_eq_ok_iff.1 h
  obtain ⟨frame_offset, hoffset, h⟩ := bind_eq_ok_iff.1 h
  obtain ⟨frame_addr, haddr, h⟩ := bind_eq_ok_iff.1 h
  obtain ⟨cr3_frame, hframe, h⟩ := bind_eq_ok_iff.1 h
  obtain ⟨code_start, hcode_start, h⟩ := bind_eq_ok_iff.1 h
  obtain ⟨code_end, hcode_end, h⟩ := bind_eq_ok_iff.1 h
  obtain ⟨stack_start, hstack_start, h⟩ := bind_eq_ok_iff.1 h
  obtain ⟨stack_end, hstack_end, h⟩ := bind_eq_ok_iff.1 h
  obtain ⟨heap_start, hheap_start, h⟩ := bind_eq_ok_iff.1 h
  obtain ⟨heap_end, hheap_end, h⟩ := bind_eq_ok_iff.1 h
  cases h
  have hwindow_eq := toNat_of_mulU64 (mapError_eq_ok_iff.1 hwindow)
  have hbase_eq := toNat_of_addU64 (mapError_eq_ok_iff.1 hbase)
  have hoffset_eq := toNat_of_mulU64 (mapError_eq_ok_iff.1 hoffset)
  have haddr_eq := toNat_of_addU64 (mapError_eq_ok_iff.1 haddr)
  refine ⟨start_address_eq (mapError_eq_ok_iff.1 hframe) hoffset_eq haddr_eq, ?_⟩
  simp only [ProcessAddressSpace.ranges, ProcessAddressSpace.userPlaces, List.map_cons,
    List.map_nil, bounds, virtAddr_new_eq_ok hcode_start, virtAt_eq_ok hcode_end,
    virtAt_eq_ok hstack_start, virtAt_eq_ok hstack_end, virtAt_eq_ok hheap_start,
    virtAt_eq_ok hheap_end, base_eq hwindow_eq hbase_eq]
  simp [Place.range, Band.start, Band.stop, WINDOW]
  omega

theorem createKernelSpace_spec :
    ∃ kernel, ProcessAddressSpace.createKernelSpace = .ok kernel ∧
      kernel.cr3_frame.start_address = 0x1000 ∧
      kernel.ranges.map bounds = ProcessAddressSpace.kernelPlaces.map Place.range :=
  ⟨_, rfl, by decide, by decide⟩

/-- Different processes have no place in common, and none with the kernel. -/
theorem places_nodup
    {p q : UInt64}
    (hne : p ≠ q) :
    (ProcessAddressSpace.kernelPlaces ++ ProcessAddressSpace.userPlaces p ++
      ProcessAddressSpace.userPlaces q).Nodup := by
  have hnat : p.toNat ≠ q.toNat := fun h => hne (UInt64.toNat_inj.1 h)
  simp [ProcessAddressSpace.kernelPlaces, ProcessAddressSpace.userPlaces, hnat]

/-- Ranges that lie in different places are pairwise disjoint. -/
theorem pairwise_disjoint
    {ranges : List (VirtAddr × VirtAddr)} {places : List Place}
    (h : ranges.map bounds = places.map Place.range)
    (hnodup : places.Nodup) :
    ranges.Pairwise (fun r r' => Disjoint (addrs r) (addrs r')) := by
  have hplaces : (places.map Place.range).Pairwise
      (fun b b' => Disjoint (Set.Ico b.1 b.2) (Set.Ico b'.1 b'.2)) :=
    List.pairwise_map.2 (hnodup.imp Place.disjoint_range)
  rw [← h, List.pairwise_map] at hplaces
  exact hplaces

/--
The nine ranges of two user processes and of the kernel are pairwise disjoint
and their page table frames differ, whenever the two spaces can be made.
-/
theorem address_spaces_isolated
    (p q : UInt64) (name_p name_q : String) (space_p space_q : ProcessAddressSpace)
    (hne : p ≠ q)
    (hp : ProcessAddressSpace.createUserSpace .dev p name_p = .ok space_p)
    (hq : ProcessAddressSpace.createUserSpace .dev q name_q = .ok space_q) :
    ∃ kernel, ProcessAddressSpace.createKernelSpace = .ok kernel ∧
      (kernel.ranges ++ space_p.ranges ++ space_q.ranges).Pairwise
        (fun r r' => Disjoint (addrs r) (addrs r')) ∧
      [kernel.cr3_frame, space_p.cr3_frame, space_q.cr3_frame].Nodup := by
  obtain ⟨kernel, hkernel, hcr3, hranges⟩ := createKernelSpace_spec
  obtain ⟨hcr3_p, hranges_p⟩ := createUserSpace_spec hp
  obtain ⟨hcr3_q, hranges_q⟩ := createUserSpace_spec hq
  refine ⟨kernel, hkernel, pairwise_disjoint ?_ (places_nodup hne), ?_⟩
  · simp only [List.map_append, hranges, hranges_p, hranges_q]
  · have hnat : p.toNat ≠ q.toNat := fun h => hne (UInt64.toNat_inj.1 h)
    apply List.Nodup.of_map PhysFrame.start_address
    simp only [List.map_cons, List.map_nil, hcr3, hcr3_p, hcr3_q]
    simp
    omega

/-- The three spaces of the memory manager are such spaces. -/
theorem address_spaces_isolated_init_shell :
    ∃ kernel init shell,
      memoryManagerNew .dev = .ok [kernel, init, shell] ∧
      (kernel.ranges ++ init.ranges ++ shell.ranges).Pairwise
        (fun r r' => Disjoint (addrs r) (addrs r')) ∧
      [kernel.cr3_frame, init.cr3_frame, shell.cr3_frame].Nodup := by
  obtain ⟨init, hinit⟩ : ∃ init,
      ProcessAddressSpace.createUserSpace .dev 1 "init" = .ok init := ⟨_, rfl⟩
  obtain ⟨shell, hshell⟩ : ∃ shell,
      ProcessAddressSpace.createUserSpace .dev 2 "shell" = .ok shell := ⟨_, rfl⟩
  obtain ⟨kernel, hkernel, hdisjoint, hframes⟩ :=
    address_spaces_isolated 1 2 "init" "shell" init shell (by decide) hinit hshell
  refine ⟨kernel, init, shell, ?_, hdisjoint, hframes⟩
  rw [memoryManagerNew, hkernel, hinit, hshell]
  rfl

end Isolation

end Memory
end OpenKernel
