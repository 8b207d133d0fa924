import OpenKernel.ElfImage
import OpenKernel.HeapSetup

/-!
# The kernel image through the boot

The bootloader writes the image to the pages that the firmware has given it, and
hands over the memory map in which these pages are `LOADER_DATA`.  The kernel
then takes frames from that map for its heap and its page tables.

No such frame has a byte in common with the pages of the image
(`frame_apart_of_granted`).  So whatever the kernel writes to its heap, and the
mapper to any page table, every LOAD segment stays as the loader has left it
(`image_survives_heap`).
-/

namespace OpenKernel
namespace Boot

open Loader Memory

/-- `MemoryType::LOADER_DATA`. -/
def LOADER_DATA : UefiMemoryType := 2

/-- The firmware's side of `allocate_pages`: the pages from `start` to `stop` are in its map
with their type, and it had no page table in them. -/
structure Granted (M : Mapper) (mapper : M.State) (descs : List MemoryDescriptor)
    (start stop : Nat) : Prop where
  typed : ∀ byte, start ≤ byte → byte < stop →
    ∃ desc ∈ descs, desc.ty = LOADER_DATA ∧ desc.Contains byte
  free : ∀ table ∈ M.tables mapper, ∀ byte, start ≤ byte → byte < stop →
    ¬ (table.start_address ≤ byte ∧ byte < table.start_address + 4096)

/-- A byte that the kernel's heap and its page tables consist of. -/
inductive Writable (M : Mapper) (mapper : M.State) (byte : Nat) : Prop
  | heap {addr : Nat}
      (haddr : InHeap addr)
      (hphys : M.physical mapper addr = some byte) :
      Writable M mapper byte
  | table {frame : PhysFrame}
      (htable : frame ∈ M.tables mapper)
      (hstart : frame.start_address ≤ byte)
      (hend : byte < frame.start_address + 4096) :
      Writable M mapper byte

section Frames

variable {M : Mapper} {descs : List MemoryDescriptor} {map : MemoryMap}
variable {mapper : M.State} {answers : List (Option PhysFrame)} {after : HeapState M}
variable {result : Except MapToError Unit} {ledger : FrameLedger} {start stop byte : Nat}

/-- Descriptors that share a byte are one. -/
theorem eq_of_contains
    (hfw : FirmwareMap descs)
    {desc desc' : MemoryDescriptor}
    (hdesc : desc ∈ descs) (hdesc' : desc' ∈ descs)
    (hbyte : desc.Contains byte) (hbyte' : desc'.Contains byte) :
    desc = desc' := by
  by_contra hne
  have hsymm : Std.Symm MemoryDescriptor.Disjoint :=
    ⟨fun _ _ h addr hboth => h addr ⟨hboth.2, hboth.1⟩⟩
  exact hfw.disjoint.forall hdesc hdesc' hne byte ⟨hbyte, hbyte'⟩

/-- A frame that the setup has taken lies outside the pages of the image. -/
theorem frame_apart_of_granted
    (hfw : FirmwareMap descs)
    (hgranted : Granted M mapper descs start stop)
    (h : HeapRun M descs map mapper answers result after ledger)
    {frame : PhysFrame}
    (hframe : frame ∈ ledger.frames)
    (hlow : frame.start_address ≤ byte) (hhigh : byte < frame.start_address + 4096)
    (hstart : start ≤ byte) :
    stop ≤ byte := by
  by_contra hstop
  obtain ⟨-, desc, hdesc, hty, hfirst, hlast⟩ := h.inside hframe
  obtain ⟨desc', hdesc', hty', hbyte'⟩ := hgranted.typed byte hstart (Nat.lt_of_not_le hstop)
  have hbyte : desc.Contains byte := ⟨hfirst.trans hlow, hhigh.trans_le hlast⟩
  have hsame : desc = desc' := eq_of_contains hfw hdesc hdesc' hbyte hbyte'
  rw [← hsame, hty] at hty'
  exact absurd hty' (by decide)

/-- What the tables give for a heap address lies in a frame of the setup, finished or not. -/
theorem exists_frame_of_physical
    (h : HeapRun M descs map mapper answers result after ledger)
    {addr : Nat}
    (haddr : InHeap addr)
    (hphys : M.physical after.mapper addr = some byte) :
    ∃ frame ∈ ledger.frames,
      frame.start_address ≤ byte ∧ byte < frame.start_address + 4096 := by
  have hentry := h.accounts.entries ((addr - HEAP_START) / 4096)
  rw [getElem?_heapPages haddr, Option.bind_some] at hentry
  rw [Mapper.physical, hentry, Option.map_map] at hphys
  obtain ⟨frame, hframe, rfl⟩ := Option.map_eq_some_iff.1 hphys
  have hmem : frame ∈ ledger.frames :=
    List.mem_append_left _ (List.mem_append_left _ (List.mem_of_getElem? hframe))
  have hoffset : addr % 4096 < 4096 := Nat.mod_lt addr (by omega)
  exact ⟨frame, hmem, Nat.le_add_right _ _, Nat.add_lt_add_left hoffset _⟩

theorem not_writable_of_granted
    (hfw : FirmwareMap descs)
    (hgranted : Granted M mapper descs start stop)
    (h : HeapRun M descs map mapper answers result after ledger)
    (hstart : start ≤ byte) (hstop : byte < stop) :
    ¬ Writable M after.mapper byte := by
  intro hwritable
  cases hwritable with
  | heap haddr hphys =>
      obtain ⟨frame, hframe, hlow, hhigh⟩ := exists_frame_of_physical h haddr hphys
      have hout := frame_apart_of_granted hfw hgranted h hframe hlow hhigh hstart
      omega
  | @table frame htable hlow hhigh =>
      rw [h.accounts.tables, List.mem_append] at htable
      rcases htable with hold | hnew
      · exact hgranted.free frame hold byte hstart hstop ⟨hlow, hhigh⟩
      · have hframe : frame ∈ ledger.frames :=
          List.mem_append_left _ (List.mem_append_right _ hnew)
        have hout := frame_apart_of_granted hfw hgranted h hframe hlow hhigh hstart
        omega

end Frames

section Image

variable {profile : Profile} {allocate_pages : UInt64 → UInt64 → Option UInt64}
variable {elf_buf : Slice} {headers : List ProgramHeader} {bytes : Nat → UInt8}
variable {kernel : LoadedKernel}

/-- The segments of consistent headers lie in the pages of the image. -/
theorem range_in_pages
    (hheaders : ConsistentHeaders headers elf_buf.length)
    (hload : load profile allocate_pages elf_buf headers bytes = .ok kernel)
    {ph : ProgramHeader}
    (hin : ph ∈ headers) (hph : ph.IsLoad)
    {byte : Nat}
    (hbyte : ph.range.Contains byte) :
    kernel.alloc_start.toNat ≤ byte ∧ byte < kernel.alloc_end.toNat := by
  obtain ⟨bounds, -, hcovers, -, -, hstart, hstop, -, -⟩ := mem_writes_load hload
  have hmin := hcovers.min_le_addr ph hin hph
  have hmax := hcovers.stop_le_max ph hin hph
  rw [toNat_stop (hheaders.no_overflow ph hin hph)] at hmax
  have hle := le_pageUp bounds.load_max.toNat
  rw [hstart, hstop, toNat_pageDown, toNat_pageDown_round (hheaders.round_lt hcovers)]
  obtain ⟨hlow, hhigh⟩ := hbyte
  simp only [ProgramHeader.range] at hlow hhigh
  omega

end Image

/--
The chain from the ELF file to the running heap.  For consistent headers, on any
firmware map that lists the image's pages as allocated, the heap setup of the
kernel ends, and whatever is then written through the heap or to the page tables,
every byte of every LOAD segment is what the loader has left there.
-/
theorem image_survives_heap
    (M : Mapper)
    (hdoc : M.Documented)
    (profile : Profile) (allocate_pages : UInt64 → UInt64 → Option UInt64)
    (elf_buf : Slice) (headers : List ProgramHeader) (bytes : Nat → UInt8)
    (hheaders : ConsistentHeaders headers elf_buf.length)
    (kernel : LoadedKernel)
    (hload : load profile allocate_pages elf_buf headers bytes = .ok kernel)
    (descs : List MemoryDescriptor)
    (hfw : FirmwareMap descs)
    (mapper : M.State)
    (hfree : ∀ page ∈ heapPages, M.Free mapper page)
    (hapart : M.Apart mapper descs)
    (hgranted : Granted M mapper descs kernel.alloc_start.toNat kernel.alloc_end.toNat) :
    ∃ map result after allocator,
      bootMemoryMap profile descs = .ok map ∧
      (initHeap M ⟨mapper, none⟩).run BootInfoFrameAllocator.allocateFrame (.init map) =
        .ok ((result, after), allocator) ∧
      ∀ memory : Nat → UInt8,
        (∀ byte, memory byte ≠ kernel.memory.bytes byte → Writable M after.mapper byte) →
        ∀ ph ∈ headers, ph.IsLoad → ∀ byte, ph.range.Contains byte →
          memory byte = kernel.memory.bytes byte := by
  obtain ⟨map, result, after, allocator, answers, ledger, hmap, -, hrun, h⟩ :=
    exists_heapRun hdoc profile hfw hfree hapart
  refine ⟨map, result, after, allocator, hmap, hrun, fun memory hwrites ph hin hph byte hbyte => ?_⟩
  obtain ⟨hstart, hstop⟩ := range_in_pages hheaders hload hin hph hbyte
  by_contra hchanged
  exact not_writable_of_granted hfw hgranted h hstart hstop (hwrites byte hchanged)

/-- One page for the image, and 512 conventional pages above it. -/
def loadedFirmwareMap : List MemoryDescriptor :=
  [⟨LOADER_DATA, 0x101000, 1⟩, ⟨CONVENTIONAL, 0x200000, 512⟩]

theorem firmwareMap_loadedFirmwareMap :
    FirmwareMap loadedFirmwareMap where
  aligned := by simp [loadedFirmwareMap]
  below := by simp [loadedFirmwareMap, MemoryDescriptor.physEnd]
  disjoint := by
    simp [loadedFirmwareMap, MemoryDescriptor.Disjoint, MemoryDescriptor.Contains,
      MemoryDescriptor.physEnd]
    omega

/-- Two segments on one page, loaded and then kept by the heap setup. -/
theorem image_survives_heap_shared_page :
    ∃ kernel map result after allocator,
      load .dev allocateBelowBuf sharedPageBuf sharedPageHeaders (fun _ => 0) = .ok kernel ∧
      bootMemoryMap .dev loadedFirmwareMap = .ok map ∧
      (initHeap FourLevels.mapper ⟨FourLevels.empty, none⟩).run
          BootInfoFrameAllocator.allocateFrame (.init map) =
        .ok ((result, after), allocator) ∧
      ∀ memory : Nat → UInt8,
        (∀ byte, memory byte ≠ kernel.memory.bytes byte →
          Writable FourLevels.mapper after.mapper byte) →
        ∀ ph ∈ sharedPageHeaders, ph.IsLoad → ∀ byte, ph.range.Contains byte →
          memory byte = kernel.memory.bytes byte := by
  obtain ⟨kernel, hload, hstart, hend⟩ : ∃ kernel,
      load .dev allocateBelowBuf sharedPageBuf sharedPageHeaders (fun _ => 0) = .ok kernel ∧
        kernel.alloc_start.toNat = 0x101000 ∧ kernel.alloc_end.toNat = 0x102000 :=
    ⟨_, rfl, rfl, rfl⟩
  have hgranted : Granted FourLevels.mapper FourLevels.empty loadedFirmwareMap
      kernel.alloc_start.toNat kernel.alloc_end.toNat := by
    rw [hstart, hend]
    refine ⟨fun byte hlow hhigh => ⟨_, List.mem_cons_self, rfl, hlow, ?_⟩, fun _ h => nomatch h⟩
    simpa [MemoryDescriptor.physEnd] using hhigh
  obtain ⟨map, result, after, allocator, hmap, hrun, hkept⟩ :=
    image_survives_heap FourLevels.mapper FourLevels.documented .dev allocateBelowBuf
      sharedPageBuf sharedPageHeaders (fun _ => 0) consistent_sharedPageHeaders kernel hload
      loadedFirmwareMap firmwareMap_loadedFirmwareMap FourLevels.empty (fun _ _ => rfl)
      (fun _ h => nomatch h) hgranted
  exact ⟨kernel, map, result, after, allocator, hload, hmap, hrun, hkept⟩

end Boot
end OpenKernel
