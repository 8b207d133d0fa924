import Mathlib.Data.Vector.Basic
import OpenKernel.MachineWords

/-!
# The memory map that the bootloader hands over

`MemoryMap` of `bootloader_api`, a table of 256 regions of which the first
`next_free_index` are filled, and the loop of the bootloader that fills it from
the firmware's descriptors.  `add_region` drops what does not fit.

The second half describes the loop: it succeeds on descriptors that end below
2^64, and the map then holds the first 256 of them in order.
-/

namespace OpenKernel
namespace Memory

inductive MemoryRegionType where
  | Usable
  | InUse
  | Reserved
  | AcpiReclaimable
  | AcpiNvs
  | BadMemory
  | Kernel
  | KernelStack
  | PageTable
  | Bootloader
  | UnknownUefi (ty : UInt32)
deriving DecidableEq

structure MemoryRegionRange where
  start_addr : UInt64
  end_addr : UInt64
deriving DecidableEq

structure MemoryRegion where
  range : MemoryRegionRange
  region_type : MemoryRegionType
deriving DecidableEq

def MemoryRegion.empty : MemoryRegion where
  range := ⟨0, 0⟩
  region_type := .Usable

/-- `regions.len()`. -/
def REGIONS : Nat := 256

structure MemoryMap where
  regions : Vector MemoryRegion REGIONS
  nextFreeIndex : Nat

namespace MemoryMap

def new : MemoryMap where
  regions := Vector.replicate REGIONS MemoryRegion.empty
  nextFreeIndex := 0

def addRegion (map : MemoryMap) (region : MemoryRegion) : MemoryMap :=
  if map.nextFreeIndex < REGIONS then
    { regions := map.regions.setIfInBounds map.nextFreeIndex region
      nextFreeIndex := map.nextFreeIndex + 1 }
  else
    map

/-- `self.regions[..self.next_free_index].iter()`. -/
def iter (map : MemoryMap) : List MemoryRegion :=
  map.regions.toList.take map.nextFreeIndex

end MemoryMap

/-- `uefi::table::boot::MemoryType`, a number. -/
abbrev UefiMemoryType := UInt32

def CONVENTIONAL : UefiMemoryType := 7

/-- A descriptor of the firmware's memory map. -/
structure MemoryDescriptor where
  ty : UefiMemoryType
  phys_start : UInt64
  page_count : UInt64
deriving DecidableEq

namespace MemoryDescriptor

def regionType (desc : MemoryDescriptor) : MemoryRegionType :=
  if desc.ty = CONVENTIONAL then .Usable else .Reserved

/-- The region made of a descriptor. -/
def region (profile : Profile) (desc : MemoryDescriptor) :
    Except ArithPanic MemoryRegion := do
  let bytes ← profile.mulU64 desc.page_count 4096
  let end_addr ← profile.addU64 desc.phys_start bytes
  pure ⟨⟨desc.phys_start, end_addr⟩, desc.regionType⟩

end MemoryDescriptor

/-- `for desc in memory_map.entries()` of `efi_main`. -/
def fillMap (profile : Profile) :
    List MemoryDescriptor → MemoryMap → Except ArithPanic MemoryMap
  | [], map => .ok map
  | desc :: descs, map => do
      let region ← desc.region profile
      fillMap profile descs (map.addRegion region)

/-- The `memory_map` field of `BOOT_INFO` when the kernel is entered. -/
def bootMemoryMap (profile : Profile) (descs : List MemoryDescriptor) :
    Except ArithPanic MemoryMap :=
  fillMap profile descs MemoryMap.new

section Filling

/-- The index of the next free entry is one of the table, or its size. -/
def MemoryMap.InTable (map : MemoryMap) : Prop :=
  map.nextFreeIndex ≤ REGIONS

theorem inTable_new :
    MemoryMap.new.InTable :=
  Nat.zero_le _

theorem iter_new :
    MemoryMap.new.iter = [] := rfl

theorem length_iter
    {map : MemoryMap}
    (h : map.InTable) :
    map.iter.length = map.nextFreeIndex := by
  rw [MemoryMap.iter, List.length_take, Vector.length_toList]
  exact Nat.min_eq_left h

theorem inTable_addRegion
    {map : MemoryMap} (region : MemoryRegion)
    (h : map.InTable) :
    (map.addRegion region).InTable := by
  unfold MemoryMap.addRegion
  split
  · assumption
  · exact h

/-- `add_region` appends, as long as there is room. -/
theorem iter_addRegion
    {map : MemoryMap} (region : MemoryRegion)
    (h : map.InTable) :
    (map.addRegion region).iter = (map.iter ++ [region]).take REGIONS := by
  unfold MemoryMap.addRegion
  by_cases hroom : map.nextFreeIndex < REGIONS
  · have hlen : (map.iter ++ [region]).length ≤ REGIONS := by
      rw [List.length_append, length_iter h]
      exact hroom
    rw [if_pos hroom, List.take_of_length_le hlen, MemoryMap.iter, Vector.toList_setIfInBounds,
      List.take_add_one, List.take_set_of_le (Nat.le_refl _)]
    simp [MemoryMap.iter, hroom]
  · have hfull : map.iter.length = REGIONS := by
      rw [length_iter h]
      exact Nat.le_antisymm h (Nat.le_of_not_lt hroom)
    rw [if_neg hroom, ← hfull, List.take_left]

/-- The byte after a descriptor's last. -/
def MemoryDescriptor.physEnd (desc : MemoryDescriptor) : Nat :=
  desc.phys_start.toNat + desc.page_count.toNat * 4096

/-- The region with the end that the sum has when it fits. -/
def MemoryDescriptor.exactRegion (desc : MemoryDescriptor) : MemoryRegion where
  range := ⟨desc.phys_start, desc.phys_start + desc.page_count * 4096⟩
  region_type := desc.regionType

theorem toNat_mul_page
    {pages : UInt64}
    (h : pages.toNat * 4096 < 2 ^ 64) :
    (pages * 4096).toNat = pages.toNat * 4096 :=
  toNat_mul_of_lt h

theorem toNat_end_addr
    {desc : MemoryDescriptor}
    (h : desc.physEnd < 2 ^ 64) :
    desc.exactRegion.range.end_addr.toNat = desc.physEnd := by
  unfold MemoryDescriptor.physEnd at *
  show (desc.phys_start + desc.page_count * 4096).toNat = _
  have hbytes : (desc.page_count * 4096).toNat = desc.page_count.toNat * 4096 :=
    toNat_mul_page (by omega)
  rw [toNat_add_of_lt (by omega), hbytes]

/-- The sum of a descriptor that ends below 2^64 fits. -/
theorem region_eq_ok
    (profile : Profile) {desc : MemoryDescriptor}
    (h : desc.physEnd < 2 ^ 64) :
    desc.region profile = .ok desc.exactRegion := by
  unfold MemoryDescriptor.physEnd at h
  have hpages : desc.page_count.toNat * 4096 < 2 ^ 64 := by omega
  have hbytes := toNat_mul_page hpages
  have hmul : profile.mulU64 desc.page_count 4096 = .ok (desc.page_count * 4096) :=
    (profile.mulU64_of_lt hpages).1
  have hadd : profile.addU64 desc.phys_start (desc.page_count * 4096) =
      .ok (desc.phys_start + desc.page_count * 4096) :=
    (profile.addU64_of_lt (by rw [hbytes]; exact h)).1
  simp only [MemoryDescriptor.region, hmul, hadd, bind, Except.bind, pure, Except.pure,
    MemoryDescriptor.exactRegion]

theorem take_take_append
    {α : Type} (n : Nat) (xs ys : List α) :
    (xs.take n ++ ys).take n = (xs ++ ys).take n := by
  have hrest : n - (xs.take n).length = n - xs.length := by
    rw [List.length_take]
    omega
  rw [List.take_append, List.take_append, List.take_take, Nat.min_self, hrest]

theorem fillMap_spec
    (profile : Profile) (descs : List MemoryDescriptor)
    (hend : ∀ desc ∈ descs, desc.physEnd < 2 ^ 64)
    {map : MemoryMap}
    (hmap : map.InTable) :
    ∃ map', fillMap profile descs map = .ok map' ∧
      map'.iter = (map.iter ++ descs.map MemoryDescriptor.exactRegion).take REGIONS := by
  induction descs generalizing map with
  | nil =>
      refine ⟨map, rfl, ?_⟩
      have hlen : map.iter.length ≤ REGIONS := by
        rw [length_iter hmap]
        exact hmap
      rw [List.map_nil, List.append_nil, List.take_of_length_le hlen]
  | cons desc descs ih =>
      obtain ⟨map', hfill, hiter⟩ :=
        ih (fun d hd => hend d (List.mem_cons_of_mem desc hd))
          (inTable_addRegion desc.exactRegion hmap)
      refine ⟨map', ?_, ?_⟩
      · rw [fillMap, region_eq_ok profile (hend desc (by simp))]
        exact hfill
      · rw [hiter, iter_addRegion _ hmap, take_take_append, List.append_assoc,
          List.singleton_append, List.map_cons]

/-- The kernel's map holds the regions of the first 256 descriptors, in order. -/
theorem bootMemoryMap_spec
    (profile : Profile) {descs : List MemoryDescriptor}
    (hend : ∀ desc ∈ descs, desc.physEnd < 2 ^ 64) :
    ∃ map, bootMemoryMap profile descs = .ok map ∧
      map.iter = (descs.take REGIONS).map MemoryDescriptor.exactRegion := by
  obtain ⟨map, hfill, hiter⟩ := fillMap_spec profile descs hend inTable_new
  refine ⟨map, hfill, ?_⟩
  rw [hiter, iter_new, List.nil_append, List.map_take]

end Filling

end Memory
end OpenKernel
