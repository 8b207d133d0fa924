import Mathlib.Data.List.ReduceOption
import OpenKernel.BootMemoryMap

/-!
# The physical frame allocator

`BootInfoFrameAllocator` recomputes the sequence of all usable frames at every
call and takes the one at its counter.  The sequence is filtered, flattened and
stepped out of the memory map: `usableAddrs` are its addresses, `frameAddrs`
the part that a single region contributes.  The counter is a `usize`, and its
increment is checked as in the kernel's own build.

From the firmware's guarantees (aligned, disjoint descriptors below 2^52) the
sequence has no duplicates, stays inside the conventional descriptors and
contains every page of the usable regions (`frame_allocator_exact`).
-/

namespace OpenKernel
namespace Memory

inductive AllocPanic where
  /-- `PhysAddr::new` of an address of more than 52 bits. -/
  | physAddr
  /-- `self.next += 1`, checked. -/
  | overflow
deriving DecidableEq

/-- `PhysFrame<Size4KiB>`, by its start address. -/
structure PhysFrame where
  start_address : Nat
deriving DecidableEq

/-- `(r.range.start_addr()..r.range.end_addr()).step_by(4096)`. -/
def MemoryRegion.frameAddrs (region : MemoryRegion) : List Nat :=
  let start := region.range.start_addr.toNat
  let stop := region.range.end_addr.toNat
  List.range' start ((stop - start + 4095) / 4096) 4096

/-- The addresses that `usable_frames` goes through. -/
def usableAddrs (map : MemoryMap) : List Nat :=
  (map.iter.filter (fun r => r.region_type = .Usable)).flatMap MemoryRegion.frameAddrs

/-- `PhysFrame::containing_address(PhysAddr::new(addr))`. -/
def containingFrame (addr : Nat) : Except AllocPanic PhysFrame :=
  if addr < 2 ^ 52 then
    .ok ⟨addr / 4096 * 4096⟩
  else
    .error .physAddr

/-- `self.usable_frames().nth(n)`: the frames before the `n`-th are made on the way. -/
def nthFrame (map : MemoryMap) (n : Nat) : Except AllocPanic (Option PhysFrame) := do
  let frames ← ((usableAddrs map).take (n + 1)).mapM containingFrame
  pure frames[n]?

structure BootInfoFrameAllocator where
  memory_map : MemoryMap
  next : Nat

namespace BootInfoFrameAllocator

def init (map : MemoryMap) : BootInfoFrameAllocator where
  memory_map := map
  next := 0

def allocateFrame (allocator : BootInfoFrameAllocator) :
    Except AllocPanic (Option PhysFrame × BootInfoFrameAllocator) := do
  let frame ← nthFrame allocator.memory_map allocator.next
  if allocator.next + 1 < 2 ^ 64 then
    pure (frame, { allocator with next := allocator.next + 1 })
  else
    throw .overflow

/-- What `n` calls in a row return. -/
def allocateFrames :
    Nat → BootInfoFrameAllocator → Except AllocPanic (List (Option PhysFrame))
  | 0, _ => .ok []
  | n + 1, allocator => do
      let (frame, allocator) ← allocator.allocateFrame
      let frames ← allocateFrames n allocator
      pure (frame :: frames)

end BootInfoFrameAllocator

section Regions

/-- A region that starts at a page contributes its page addresses. -/
theorem mem_frameAddrs_iff
    {region : MemoryRegion} {addr : Nat}
    (h : region.range.start_addr.toNat % 4096 = 0) :
    addr ∈ region.frameAddrs ↔
      addr % 4096 = 0 ∧ region.range.start_addr.toNat ≤ addr ∧
        addr < region.range.end_addr.toNat := by
  rw [MemoryRegion.frameAddrs, List.mem_range']
  constructor
  · rintro ⟨i, hi, rfl⟩
    omega
  · rintro ⟨hpage, hstart, hend⟩
    exact ⟨(addr - region.range.start_addr.toNat) / 4096, by omega, by omega⟩

theorem nodup_frameAddrs
    (region : MemoryRegion) :
    region.frameAddrs.Nodup :=
  List.nodup_range' 4096 (by decide)

end Regions

section Descriptors

namespace MemoryDescriptor

def Contains (desc : MemoryDescriptor) (addr : Nat) : Prop :=
  desc.phys_start.toNat ≤ addr ∧ addr < desc.physEnd

/-- No byte lies in both. -/
def Disjoint (desc desc' : MemoryDescriptor) : Prop :=
  ∀ addr, ¬ (desc.Contains addr ∧ desc'.Contains addr)

end MemoryDescriptor

/-- What UEFI guarantees of its memory map. -/
structure FirmwareMap (descs : List MemoryDescriptor) : Prop where
  aligned : ∀ desc ∈ descs, desc.phys_start.toNat % 4096 = 0
  below : ∀ desc ∈ descs, desc.physEnd ≤ 2 ^ 52
  disjoint : descs.Pairwise MemoryDescriptor.Disjoint

variable {descs : List MemoryDescriptor} {map : MemoryMap}

/-- The pages of a descriptor. -/
theorem mem_frameAddrs_exactRegion_iff
    {desc : MemoryDescriptor} {addr : Nat}
    (haligned : desc.phys_start.toNat % 4096 = 0)
    (hbelow : desc.physEnd ≤ 2 ^ 52) :
    addr ∈ desc.exactRegion.frameAddrs ↔ addr % 4096 = 0 ∧ desc.Contains addr := by
  have hend : desc.exactRegion.range.end_addr.toNat = desc.physEnd :=
    toNat_end_addr (by omega)
  rw [mem_frameAddrs_iff haligned, hend]
  rfl

theorem regionType_eq_usable_iff
    {desc : MemoryDescriptor} :
    desc.regionType = .Usable ↔ desc.ty = CONVENTIONAL := by
  unfold MemoryDescriptor.regionType
  split <;> simp [*]

/-- The sequence of usable addresses, in terms of the descriptors that made the map. -/
theorem usableAddrs_eq
    (hiter : map.iter = (descs.take REGIONS).map MemoryDescriptor.exactRegion) :
    usableAddrs map =
      ((descs.take REGIONS).filter (fun desc => desc.ty = CONVENTIONAL)).flatMap
        (fun desc => desc.exactRegion.frameAddrs) := by
  have husable : ∀ desc : MemoryDescriptor,
      decide (desc.exactRegion.region_type = .Usable) = decide (desc.ty = CONVENTIONAL) :=
    fun desc => decide_eq_decide.2 regionType_eq_usable_iff
  rw [usableAddrs, hiter, List.filter_map, List.flatMap_map]
  simp only [Function.comp_def, husable]

/-- They are the pages of the conventional descriptors among the first 256. -/
theorem mem_usableAddrs_iff
    (hfw : FirmwareMap descs)
    (hiter : map.iter = (descs.take REGIONS).map MemoryDescriptor.exactRegion)
    {addr : Nat} :
    addr ∈ usableAddrs map ↔
      addr % 4096 = 0 ∧ ∃ desc ∈ descs.take REGIONS,
        desc.ty = CONVENTIONAL ∧ desc.Contains addr := by
  have hmem : ∀ desc ∈ descs.take REGIONS,
      (addr ∈ desc.exactRegion.frameAddrs ↔ addr % 4096 = 0 ∧ desc.Contains addr) := by
    intro desc hdesc
    have hin := List.mem_of_mem_take hdesc
    exact mem_frameAddrs_exactRegion_iff (hfw.aligned desc hin) (hfw.below desc hin)
  rw [usableAddrs_eq hiter, List.mem_flatMap]
  constructor
  · rintro ⟨desc, hdesc, haddr⟩
    obtain ⟨hin, hty⟩ := List.mem_filter.1 hdesc
    obtain ⟨hpage, hcontains⟩ := (hmem desc hin).1 haddr
    exact ⟨hpage, desc, hin, by simpa using hty, hcontains⟩
  · rintro ⟨hpage, desc, hin, hty, hcontains⟩
    exact ⟨desc, List.mem_filter.2 ⟨hin, by simpa using hty⟩, (hmem desc hin).2 ⟨hpage, hcontains⟩⟩

/-- No page is met twice. -/
theorem nodup_usableAddrs
    (hfw : FirmwareMap descs)
    (hiter : map.iter = (descs.take REGIONS).map MemoryDescriptor.exactRegion) :
    (usableAddrs map).Nodup := by
  rw [usableAddrs_eq hiter, List.nodup_flatMap]
  refine ⟨fun desc _ => nodup_frameAddrs _, ?_⟩
  have hsub : ((descs.take REGIONS).filter (fun desc => desc.ty = CONVENTIONAL)).Sublist descs :=
    List.filter_sublist.trans (List.take_sublist _ _)
  refine (hfw.disjoint.sublist hsub).imp_of_mem ?_
  intro desc desc' hdesc hdesc' hapart addr haddr haddr'
  have hin := hsub.subset hdesc
  have hin' := hsub.subset hdesc'
  obtain ⟨-, hcontains⟩ :=
    (mem_frameAddrs_exactRegion_iff (hfw.aligned desc hin) (hfw.below desc hin)).1 haddr
  obtain ⟨-, hcontains'⟩ :=
    (mem_frameAddrs_exactRegion_iff (hfw.aligned desc' hin') (hfw.below desc' hin')).1 haddr'
  exact hapart addr ⟨hcontains, hcontains'⟩

end Descriptors

section Allocation

/-- The addresses that `usable_frames` turns into frames without a panic. -/
def GoodAddrs (addrs : List Nat) : Prop :=
  ∀ addr ∈ addrs, addr % 4096 = 0 ∧ addr < 2 ^ 52

theorem mapM_containingFrame
    {addrs : List Nat}
    (h : GoodAddrs addrs) :
    addrs.mapM containingFrame = .ok (addrs.map PhysFrame.mk) := by
  induction addrs with
  | nil => rfl
  | cons addr addrs ih =>
      obtain ⟨hpage, hlt⟩ := h addr (by simp)
      have hrest := ih (fun a ha => h a (List.mem_cons_of_mem addr ha))
      have hframe : containingFrame addr = .ok ⟨addr⟩ := by
        have hdown : addr / 4096 * 4096 = addr := by omega
        rw [containingFrame, if_pos hlt, hdown]
      rw [List.mapM_cons, hframe, hrest]
      rfl

variable {map : MemoryMap}

theorem nthFrame_eq_ok
    (h : GoodAddrs (usableAddrs map))
    (n : Nat) :
    nthFrame map n = .ok ((usableAddrs map)[n]?.map PhysFrame.mk) := by
  have htake : GoodAddrs ((usableAddrs map).take (n + 1)) :=
    fun addr haddr => h addr (List.mem_of_mem_take haddr)
  have hget : ((usableAddrs map).take (n + 1))[n]? = (usableAddrs map)[n]? :=
    List.getElem?_take_of_lt (Nat.lt_succ_self n)
  rw [nthFrame, mapM_containingFrame htake]
  simp only [bind, Except.bind, pure, Except.pure, List.getElem?_map, hget]

/-- Calls in a row go through the usable addresses one by one. -/
theorem allocateFrames_eq_ok
    (h : GoodAddrs (usableAddrs map))
    (n next : Nat)
    (hnext : next + n < 2 ^ 64) :
    BootInfoFrameAllocator.allocateFrames n ⟨map, next⟩ =
      .ok ((List.range' next n).map (fun i => (usableAddrs map)[i]?.map PhysFrame.mk)) := by
  induction n generalizing next with
  | zero => rfl
  | succ n ih =>
      have hroom : next + 1 < 2 ^ 64 := by omega
      have hrest := ih (next + 1) (by omega)
      simp only [BootInfoFrameAllocator.allocateFrames,
        BootInfoFrameAllocator.allocateFrame, nthFrame_eq_ok h, bind, Except.bind, pure,
        Except.pure, if_pos hroom, hrest, List.range'_succ, List.map_cons]

/-- A sequence of calls that all return has not exhausted the counter. -/
theorem lt_of_allocateFrames_eq_ok
    (h : GoodAddrs (usableAddrs map))
    {n next : Nat} {frames : List (Option PhysFrame)}
    (hn : 0 < n)
    (hok : BootInfoFrameAllocator.allocateFrames n ⟨map, next⟩ = .ok frames) :
    next + n < 2 ^ 64 := by
  induction n generalizing next frames with
  | zero => omega
  | succ n ih =>
      by_cases hroom : next + 1 < 2 ^ 64
      · simp only [BootInfoFrameAllocator.allocateFrames,
          BootInfoFrameAllocator.allocateFrame, nthFrame_eq_ok h, bind, Except.bind, pure,
          Except.pure, if_pos hroom] at hok
        rcases hrest : BootInfoFrameAllocator.allocateFrames n ⟨map, next + 1⟩ with e | rest
        · simp [hrest] at hok
        · by_cases hzero : n = 0
          · omega
          · have := ih (by omega) hrest
            omega
      · simp only [BootInfoFrameAllocator.allocateFrames,
          BootInfoFrameAllocator.allocateFrame, nthFrame_eq_ok h, bind, Except.bind, pure,
          Except.pure, if_neg hroom, throw, throwThe, MonadExceptOf.throw] at hok
        cases hok

theorem reduceOption_map_getElem?_range
    {α : Type} (xs : List α) (n : Nat) :
    ((List.range n).map (fun i => xs[i]?)).reduceOption = xs.take n := by
  induction n with
  | zero => rfl
  | succ n ih =>
      rw [List.range_succ, List.map_append, List.reduceOption_append, ih, List.take_add_one]
      have hlast : ([xs[n]?]).reduceOption = xs[n]?.toList := by
        cases xs[n]? <;> rfl
      rw [List.map_singleton, hlast]

/-- `n` calls of a fresh allocator look up the first `n` indices. -/
theorem eq_of_allocateFrames_init
    (h : GoodAddrs (usableAddrs map))
    {n : Nat} {results : List (Option PhysFrame)}
    (hok : BootInfoFrameAllocator.allocateFrames n (.init map) = .ok results) :
    results = (List.range n).map (fun i => ((usableAddrs map).map PhysFrame.mk)[i]?) := by
  have hn : 0 + n < 2 ^ 64 := by
    rcases Nat.eq_zero_or_pos n with rfl | hpos
    · decide
    · exact lt_of_allocateFrames_eq_ok h hpos hok
  have heq := allocateFrames_eq_ok h n 0 hn
  simp only [List.getElem?_map, List.range_eq_range']
  exact Except.ok.inj (hok.symm.trans heq)

end Allocation

section Exactness

variable {descs : List MemoryDescriptor} {map : MemoryMap}

theorem goodAddrs_usableAddrs
    (hfw : FirmwareMap descs)
    (hiter : map.iter = (descs.take REGIONS).map MemoryDescriptor.exactRegion) :
    GoodAddrs (usableAddrs map) := by
  intro addr haddr
  obtain ⟨hpage, desc, hin, -, -, hend⟩ := (mem_usableAddrs_iff hfw hiter).1 haddr
  have hbelow := hfw.below desc (List.mem_of_mem_take hin)
  exact ⟨hpage, by omega⟩

/-- A usable address starts a page that lies wholly inside a conventional descriptor. -/
theorem exists_conventional_of_mem_usableAddrs
    (hfw : FirmwareMap descs)
    (hiter : map.iter = (descs.take REGIONS).map MemoryDescriptor.exactRegion)
    {addr : Nat}
    (haddr : addr ∈ usableAddrs map) :
    addr % 4096 = 0 ∧ ∃ desc ∈ descs, desc.ty = CONVENTIONAL ∧
      desc.phys_start.toNat ≤ addr ∧ addr + 4096 ≤ desc.physEnd := by
  obtain ⟨hpage, desc, hin, hty, hstart, hend⟩ := (mem_usableAddrs_iff hfw hiter).1 haddr
  have hmem := List.mem_of_mem_take hin
  have haligned := hfw.aligned desc hmem
  refine ⟨hpage, desc, hmem, hty, hstart, ?_⟩
  unfold MemoryDescriptor.physEnd at *
  omega

/-- `page` is the address of a whole page of the region. -/
def MemoryRegion.HasPage (region : MemoryRegion) (page : Nat) : Prop :=
  page % 4096 = 0 ∧ region.range.start_addr.toNat ≤ page ∧
    page + 4096 ≤ region.range.end_addr.toNat

theorem mem_usableAddrs_of_hasPage
    (hfw : FirmwareMap descs)
    (hiter : map.iter = (descs.take REGIONS).map MemoryDescriptor.exactRegion)
    {region : MemoryRegion} {page : Nat}
    (hregion : region ∈ map.iter)
    (husable : region.region_type = .Usable)
    (hpage : region.HasPage page) :
    page ∈ usableAddrs map := by
  rw [hiter] at hregion
  obtain ⟨desc, hin, rfl⟩ := List.mem_map.1 hregion
  obtain ⟨halign, hstart, hstop⟩ := hpage
  have hbelow := hfw.below desc (List.mem_of_mem_take hin)
  rw [toNat_end_addr (by omega)] at hstop
  exact (mem_usableAddrs_iff hfw hiter).2
    ⟨halign, desc, hin, regionType_eq_usable_iff.1 husable, hstart, by omega⟩

/-- What the results of a sequence of calls promise. -/
structure ExactResults
    (descs : List MemoryDescriptor) (map : MemoryMap)
    (results : List (Option PhysFrame)) : Prop where
  distinct : results.reduceOption.Nodup
  inside : ∀ frame ∈ results.reduceOption, frame.start_address % 4096 = 0 ∧
    ∃ desc ∈ descs, desc.ty = CONVENTIONAL ∧
      desc.phys_start.toNat ≤ frame.start_address ∧
      frame.start_address + 4096 ≤ desc.physEnd
  exhausted : ∀ i, results[i]? = some none →
    ∀ region ∈ map.iter, region.region_type = .Usable →
      ∀ page, region.HasPage page → (results.take i).reduceOption.count ⟨page⟩ = 1
  stays : ∀ i j, results[i]? = some none → i ≤ j → j < results.length →
    results[j]? = some none

theorem exactResults_of_lookups
    (hfw : FirmwareMap descs)
    (hiter : map.iter = (descs.take REGIONS).map MemoryDescriptor.exactRegion)
    {n : Nat} {results : List (Option PhysFrame)}
    (hresults : results =
      (List.range n).map (fun i => ((usableAddrs map).map PhysFrame.mk)[i]?)) :
    ExactResults descs map results := by
  have hinj : Function.Injective PhysFrame.mk := fun _ _ h => congrArg PhysFrame.start_address h
  have hnodup : ((usableAddrs map).map PhysFrame.mk).Nodup :=
    (nodup_usableAddrs hfw hiter).map hinj
  have hreturned : results.reduceOption = ((usableAddrs map).map PhysFrame.mk).take n := by
    rw [hresults, reduceOption_map_getElem?_range]
  have hnone : ∀ i, results[i]? = some none ↔ i < n ∧ (usableAddrs map).length ≤ i := by
    intro i
    simp [hresults, List.getElem?_eq_some_iff]
  constructor
  · rw [hreturned]
    exact hnodup.sublist (List.take_sublist _ _)
  · intro frame hframe
    rw [hreturned] at hframe
    obtain ⟨addr, haddr, rfl⟩ := List.mem_map.1 (List.mem_of_mem_take hframe)
    exact exists_conventional_of_mem_usableAddrs hfw hiter haddr
  · intro i hi region hregion husable page hpage
    obtain ⟨hin, hlen⟩ := (hnone i).1 hi
    -- by the first `None` the calls before it have gone through the whole sequence
    have hall : (results.take i).reduceOption = (usableAddrs map).map PhysFrame.mk := by
      rw [hresults, ← List.map_take, List.take_range, reduceOption_map_getElem?_range,
        Nat.min_eq_left hin.le, List.take_of_length_le]
      rwa [List.length_map]
    rw [hall]
    exact List.count_eq_one_of_mem hnodup
      (List.mem_map_of_mem (mem_usableAddrs_of_hasPage hfw hiter hregion husable hpage))
  · intro i j hi hij hj
    obtain ⟨-, hlen⟩ := (hnone i).1 hi
    have hjn : j < n := by simpa [hresults] using hj
    exact (hnone j).2 ⟨hjn, by omega⟩

/--
From the boot hand-off on, the allocator returns every page of the usable regions
once, and then nothing.  The regions are those of the first 256 descriptors.
-/
theorem frame_allocator_exact
    (profile : Profile) (descs : List MemoryDescriptor)
    (hfw : FirmwareMap descs) :
    ∃ map, bootMemoryMap profile descs = .ok map ∧
      map.iter = (descs.take 256).map (fun desc =>
        { range := ⟨desc.phys_start, desc.phys_start + desc.page_count * 4096⟩
          region_type := if desc.ty = CONVENTIONAL then .Usable else .Reserved }) ∧
      (∀ n < 2 ^ 64, ∃ results,
        BootInfoFrameAllocator.allocateFrames n (.init map) = .ok results) ∧
      ∀ n results, BootInfoFrameAllocator.allocateFrames n (.init map) = .ok results →
        ExactResults descs map results := by
  have hend : ∀ desc ∈ descs, desc.physEnd < 2 ^ 64 := by
    intro desc hdesc
    have := hfw.below desc hdesc
    omega
  obtain ⟨map, hmap, hiter⟩ := bootMemoryMap_spec profile hend
  have hgood := goodAddrs_usableAddrs hfw hiter
  refine ⟨map, hmap, hiter, ?_, ?_⟩
  · intro n hn
    exact ⟨_, allocateFrames_eq_ok hgood n 0 (by omega)⟩
  · intro n results hok
    exact exactResults_of_lookups hfw hiter (eq_of_allocateFrames_init hgood hok)

/-- One page of loader data between two conventional blocks, the second of them empty. -/
def smallFirmwareMap : List MemoryDescriptor :=
  [⟨CONVENTIONAL, 0x1000, 2⟩, ⟨2, 0x3000, 1⟩, ⟨CONVENTIONAL, 0x4000, 0⟩]

theorem firmwareMap_smallFirmwareMap :
    FirmwareMap smallFirmwareMap where
  aligned := by decide
  below := by decide
  disjoint := by
    simp [smallFirmwareMap, MemoryDescriptor.Disjoint, MemoryDescriptor.Contains,
      MemoryDescriptor.physEnd]
    omega

/-- The two pages of the first block are returned, and then nothing. -/
theorem frame_allocator_exact_small :
    ∃ map, bootMemoryMap .dev smallFirmwareMap = .ok map ∧
      BootInfoFrameAllocator.allocateFrames 3 (.init map) =
        .ok [some ⟨0x1000⟩, some ⟨0x2000⟩, none] ∧
      ExactResults smallFirmwareMap map [some ⟨0x1000⟩, some ⟨0x2000⟩, none] := by
  obtain ⟨map, hmap, hiter, -, hexact⟩ :=
    frame_allocator_exact .dev smallFirmwareMap firmwareMap_smallFirmwareMap
  have haddrs : usableAddrs map = [0x1000, 0x2000] := by
    rw [usableAddrs, hiter]
    rfl
  have hgood : GoodAddrs (usableAddrs map) := by
    simp [GoodAddrs, haddrs]
  have hresults := allocateFrames_eq_ok hgood 3 0 (by omega)
  rw [haddrs] at hresults
  exact ⟨map, hmap, hresults, hexact 3 _ hresults⟩

end Exactness

end Memory
end OpenKernel
