import OpenKernel.ElfLoader

/-!
# Where the ELF loader writes, and what it leaves there

The range of pages that the loader allocates is computed from the memory sizes of
the segments, and the copies are made with their file sizes.  So the loader stays
inside its allocation on exactly the header lists described by `StaysInside`
(`load_stays_inside_iff`).

For files whose headers are consistent, `load_places_segments` says that every
segment ends up with its file bytes followed by zeros, whatever the order and the
alignment of the segments.
-/

namespace OpenKernel
namespace Loader

section Load

variable {profile : Profile} {allocate_pages : UInt64 → UInt64 → Option UInt64}
variable {elf_buf : Slice} {headers : List ProgramHeader} {bytes : Nat → UInt8}
variable {kernel : LoadedKernel}

/-- The bytes that are zeroed when the pages from `start` to `stop` were allocated at `addr`. -/
def zeroedSlice (addr start stop : UInt64) : Slice where
  address := addr.toNat
  length := ((stop - start) / 0x1000 * 0x1000).toNat

/-- A loader that returns has gone through all of its steps. -/
theorem load_eq_ok
    (h : load profile allocate_pages elf_buf headers bytes = .ok kernel) :
    ∃ bounds alloc_addr,
      firstPass profile headers LoadBounds.start = .ok bounds ∧
      bounds.load_min.toNat < bounds.load_max.toNat ∧
      (profile = .dev → bounds.load_max.toNat + 0xFFF < 2 ^ 64) ∧
      kernel.alloc_start = pageDown bounds.load_min ∧
      kernel.alloc_end = pageDown (bounds.load_max + 0xFFF) ∧
      allocate_pages kernel.alloc_start ((kernel.alloc_end - kernel.alloc_start) / 0x1000) =
        some alloc_addr ∧
      secondPass profile elf_buf headers
        ((LoggedMemory.start bytes).write
          (zeroedSlice alloc_addr kernel.alloc_start kernel.alloc_end) (fun _ => 0)) =
        .ok kernel.memory := by
  obtain ⟨bounds, hfirst, h⟩ := bind_eq_ok_iff.1 h
  by_cases hempty : bounds.load_min ≥ bounds.load_max
  · simp only [if_pos hempty] at h
    cases h
  · simp only [if_neg hempty] at h
    obtain ⟨rounded, hrounded, h⟩ := bind_eq_ok_iff.1 h
    obtain ⟨rfl, hdev⟩ := Profile.u64_eq_ok (liftArith_eq_ok_iff.1 hrounded)
    obtain ⟨size, hsize, h⟩ := bind_eq_ok_iff.1 h
    have hsub := Profile.subU64_eq_ok (liftArith_eq_ok_iff.1 hsize)
    subst hsub
    rcases halloc : allocate_pages (pageDown bounds.load_min)
        ((pageDown (bounds.load_max + 0xFFF) - pageDown bounds.load_min) / 0x1000) with
      _ | alloc_addr
    · simp only [halloc] at h
      cases h
    · simp only [halloc] at h
      obtain ⟨count, hcount, h⟩ := bind_eq_ok_iff.1 h
      obtain ⟨rfl, -⟩ := Profile.u64_eq_ok (liftArith_eq_ok_iff.1 hcount)
      obtain ⟨memory, hsecond, h⟩ := bind_eq_ok_iff.1 h
      cases h
      have hlt : bounds.load_min.toNat < bounds.load_max.toNat := by
        have := mt UInt64.le_iff_toNat_le.2 hempty
        omega
      exact ⟨bounds, alloc_addr, hfirst, hlt, hdev, rfl, rfl, halloc, hsecond⟩

/-- What the two passes write: the zeros, then the copies. -/
theorem mem_writes_load
    (h : load profile allocate_pages elf_buf headers bytes = .ok kernel) :
    ∃ bounds alloc_addr,
      Covers headers LoadBounds.start bounds ∧
      bounds.load_min.toNat < bounds.load_max.toNat ∧
      (profile = .dev → bounds.load_max.toNat + 0xFFF < 2 ^ 64) ∧
      kernel.alloc_start = pageDown bounds.load_min ∧
      kernel.alloc_end = pageDown (bounds.load_max + 0xFFF) ∧
      allocate_pages kernel.alloc_start ((kernel.alloc_end - kernel.alloc_start) / 0x1000) =
        some alloc_addr ∧
      ∀ slice, slice ∈ kernel.memory.writes ↔
        slice = zeroedSlice alloc_addr kernel.alloc_start kernel.alloc_end ∨
          ∃ ph ∈ headers, ph.Copied ∧ slice = ph.target := by
  obtain ⟨bounds, alloc_addr, hfirst, hlt, hdev, hstart, hstop, halloc, hsecond⟩ := load_eq_ok h
  refine ⟨bounds, alloc_addr, firstPass_covers hfirst, hlt, hdev, hstart, hstop, halloc, ?_⟩
  intro slice
  rw [(secondPass_eq_ok hsecond).1, mem_writes_placeAll, LoggedMemory.writes_write,
    LoggedMemory.start, List.nil_append, List.mem_singleton]

end Load

section Pages

/-- `(address + 0xFFF) & !0xFFF`, as long as the sum fits. -/
def pageUp (address : Nat) : Nat :=
  (address + 0xFFF) / 4096 * 4096

theorem pageUp_mono
    {address address' : Nat}
    (h : address ≤ address') :
    pageUp address ≤ pageUp address' :=
  Nat.mul_le_mul_right _ (Nat.div_le_div_right (Nat.add_le_add_right h _))

theorem le_pageUp
    (address : Nat) :
    address ≤ pageUp address := by
  rw [pageUp]
  omega

theorem toNat_pageDown_round
    {address : UInt64}
    (h : address.toNat + 0xFFF < 2 ^ 64) :
    (pageDown (address + 0xFFF)).toNat = pageUp address.toNat := by
  have hpad : (0xFFF : UInt64).toNat = 0xFFF := rfl
  rw [toNat_pageDown, UInt64.toNat_add, hpad, Nat.mod_eq_of_lt h]
  rfl

/-- A sum that wraps is rounded down to zero. -/
theorem toNat_pageDown_round_of_le
    {address : UInt64}
    (h : 2 ^ 64 ≤ address.toNat + 0xFFF) :
    (pageDown (address + 0xFFF)).toNat = 0 := by
  have hpad : (0xFFF : UInt64).toNat = 0xFFF := rfl
  have hlt := address.toNat_lt
  rw [toNat_pageDown, UInt64.toNat_add, hpad]
  omega

/-- Page-aligned bounds are zeroed from end to end. -/
theorem length_zeroedSlice
    (addr start stop : UInt64)
    (hstart : start.toNat % 4096 = 0) (hstop : stop.toNat % 4096 = 0) :
    (zeroedSlice addr start stop).length = (2 ^ 64 - start.toNat + stop.toNat) % 2 ^ 64 := by
  have hpage : (0x1000 : UInt64).toNat = 4096 := rfl
  have hlt := start.toNat_lt
  simp only [zeroedSlice, UInt64.toNat_mul, UInt64.toNat_div, UInt64.toNat_sub, hpage]
  omega

end Pages

section Inside

variable {headers : List ProgramHeader}

/-- Every byte that was written lies in the range of the allocated pages. -/
def LoadedKernel.InAllocation (kernel : LoadedKernel) : Prop :=
  ∀ slice ∈ kernel.memory.writes,
    slice.Within kernel.alloc_start.toNat kernel.alloc_end.toNat

/-- No end of a LOAD segment overflows when it is rounded up to a page. -/
def RoundsUp (headers : List ProgramHeader) : Prop :=
  ∀ ph ∈ headers, ph.IsLoad → ph.stop.toNat + 0xFFF < 2 ^ 64

/-- The file data of `ph` ends before the last page that the memory of some segment reaches. -/
def CopyFits (headers : List ProgramHeader) (ph : ProgramHeader) : Prop :=
  ∃ ph' ∈ headers, ph'.IsLoad ∧
    ph.physical_addr.toNat + ph.file_size.toNat ≤ pageUp ph'.stop.toNat

/-- The headers for which the loader writes to its own pages only. -/
def StaysInside (headers : List ProgramHeader) : Prop :=
  (RoundsUp headers ∧
    ∀ ph ∈ headers, ph.Copied → ph.file_size = 0 ∨ CopyFits headers ph) ∨
  -- the end wraps to zero: no page is allocated and none is written
  (¬ RoundsUp headers ∧
    (∃ ph ∈ headers, ph.IsLoad ∧ ph.physical_addr.toNat < 4096) ∧
    ∀ ph ∈ headers, ph.Copied → ph.file_size = 0)

variable {bounds : LoadBounds}

/-- Non-empty bounds end where some LOAD segment does. -/
theorem Covers.exists_stop
    (hcovers : Covers headers LoadBounds.start bounds)
    (hlt : bounds.load_min.toNat < bounds.load_max.toNat) :
    ∃ ph ∈ headers, ph.IsLoad ∧ bounds.load_max = ph.stop := by
  rcases hcovers.max_eq with hzero | hattained
  · have hnat : bounds.load_max.toNat = 0 := by
      rw [hzero]
      rfl
    omega
  · exact hattained

theorem Covers.roundsUp_iff
    (hcovers : Covers headers LoadBounds.start bounds)
    (hlt : bounds.load_min.toNat < bounds.load_max.toNat) :
    RoundsUp headers ↔ bounds.load_max.toNat + 0xFFF < 2 ^ 64 := by
  obtain ⟨ph, hin, hload, heq⟩ := hcovers.exists_stop hlt
  constructor
  · intro h
    rw [heq]
    exact h ph hin hload
  · intro h ph' hin' hload'
    have := hcovers.stop_le_max ph' hin' hload'
    omega

theorem Covers.copyFits_iff
    (hcovers : Covers headers LoadBounds.start bounds)
    (hlt : bounds.load_min.toNat < bounds.load_max.toNat)
    (ph : ProgramHeader) :
    CopyFits headers ph ↔
      ph.physical_addr.toNat + ph.file_size.toNat ≤ pageUp bounds.load_max.toNat := by
  constructor
  · rintro ⟨ph', hin, hload, hle⟩
    exact hle.trans (pageUp_mono (hcovers.stop_le_max ph' hin hload))
  · intro hle
    obtain ⟨ph', hin, hload, heq⟩ := hcovers.exists_stop hlt
    exact ⟨ph', hin, hload, by rwa [← heq]⟩

theorem Covers.first_page_iff
    (hcovers : Covers headers LoadBounds.start bounds) :
    (∃ ph ∈ headers, ph.IsLoad ∧ ph.physical_addr.toNat < 4096) ↔
      bounds.load_min.toNat < 4096 := by
  constructor
  · rintro ⟨ph, hin, hload, hlow⟩
    have := hcovers.min_le_addr ph hin hload
    omega
  · intro hlow
    rcases hcovers.min_eq with hmax | ⟨ph, hin, hload, heq⟩
    · have hstart : LoadBounds.start.load_min.toNat = 2 ^ 64 - 1 := rfl
      rw [hmax, hstart] at hlow
      omega
    · exact ⟨ph, hin, hload, by rwa [← heq]⟩

theorem file_size_eq_zero_iff
    {ph : ProgramHeader} :
    ph.file_size = 0 ↔ ph.target.length = 0 := by
  rw [← UInt64.toNat_inj]
  rfl

/-- Ends that round up: the zeros cover the pages, and a copy stays in them if it fits. -/
theorem Covers.within_of_roundsUp
    (hcovers : Covers headers LoadBounds.start bounds)
    (hlt : bounds.load_min.toNat < bounds.load_max.toNat)
    (hround : RoundsUp headers)
    {start stop : UInt64}
    (hstart : start = pageDown bounds.load_min)
    (hstop : stop = pageDown (bounds.load_max + 0xFFF)) :
    (zeroedSlice start start stop).Within start.toNat stop.toNat ∧
      ∀ ph ∈ headers, ph.Copied →
        (ph.target.Within start.toNat stop.toNat ↔ ph.file_size = 0 ∨ CopyFits headers ph) := by
  have hmin : start.toNat = bounds.load_min.toNat / 4096 * 4096 := by
    rw [hstart, toNat_pageDown]
  have hmax : stop.toNat = pageUp bounds.load_max.toNat := by
    rw [hstop, toNat_pageDown_round ((hcovers.roundsUp_iff hlt).1 hround)]
  constructor
  · have hzeros := length_zeroedSlice start start stop
      (by omega) (by rw [hstop, toNat_pageDown]; omega)
    have hle := le_pageUp bounds.load_max.toNat
    have hlt64 := stop.toNat_lt
    rw [Slice.within_iff, hzeros]
    refine Or.inr ⟨le_rfl, ?_⟩
    show start.toNat + _ ≤ _
    omega
  · intro ph hin hph
    have hlow : start.toNat ≤ ph.target.address := by
      have := hcovers.min_le_addr ph hin hph.1
      show _ ≤ ph.physical_addr.toNat
      omega
    rw [Slice.within_iff, ← file_size_eq_zero_iff, hcovers.copyFits_iff hlt, ← hmax]
    exact or_congr_right (and_iff_right hlow)

/-- An end that wraps: the range is empty, and only a start at page zero keeps the zeros in it. -/
theorem Covers.within_of_wraps
    (hcovers : Covers headers LoadBounds.start bounds)
    (hlt : bounds.load_min.toNat < bounds.load_max.toNat)
    (hround : ¬ RoundsUp headers)
    {start stop : UInt64}
    (hstart : start = pageDown bounds.load_min)
    (hstop : stop = pageDown (bounds.load_max + 0xFFF)) :
    (∀ slice : Slice, slice.Within start.toNat stop.toNat ↔ slice.length = 0) ∧
      ((zeroedSlice start start stop).length = 0 ↔
        ∃ ph ∈ headers, ph.IsLoad ∧ ph.physical_addr.toNat < 4096) := by
  have hmin : start.toNat = bounds.load_min.toNat / 4096 * 4096 := by
    rw [hstart, toNat_pageDown]
  have hmax : stop.toNat = 0 := by
    rw [hstop, toNat_pageDown_round_of_le (Nat.le_of_not_lt (mt (hcovers.roundsUp_iff hlt).2 hround))]
  constructor
  · intro slice
    rw [Slice.within_iff, hmax]
    omega
  · have hzeros := length_zeroedSlice start start stop (by omega) (by omega)
    have hlt64 := start.toNat_lt
    rw [hzeros, hmax, hcovers.first_page_iff]
    omega

/-- The loader stays inside its allocation on exactly these headers: the copies, whose
length is the file size, must not pass the last page of the memory sizes. -/
theorem load_stays_inside_iff
    (profile : Profile) (allocate_pages : UInt64 → UInt64 → Option UInt64)
    (hfixed : ∀ start pages addr, allocate_pages start pages = some addr → addr = start)
    (elf_buf : Slice) (headers : List ProgramHeader) (bytes : Nat → UInt8)
    (kernel : LoadedKernel)
    (hload : load profile allocate_pages elf_buf headers bytes = .ok kernel) :
    kernel.InAllocation ↔ StaysInside headers := by
  obtain ⟨bounds, alloc_addr, hcovers, hlt, hdev, hstart, hstop, halloc, hwrites⟩ :=
    mem_writes_load hload
  obtain rfl := hfixed _ _ _ halloc
  have hsplit : kernel.InAllocation ↔
      (zeroedSlice kernel.alloc_start kernel.alloc_start kernel.alloc_end).Within
          kernel.alloc_start.toNat kernel.alloc_end.toNat ∧
        ∀ ph ∈ headers, ph.Copied →
          ph.target.Within kernel.alloc_start.toNat kernel.alloc_end.toNat := by
    simp only [LoadedKernel.InAllocation, hwrites, forall_eq_or_imp]
    refine and_congr_right fun _ => ⟨fun h ph hin hph => h _ ⟨ph, hin, hph, rfl⟩, ?_⟩
    rintro h _ ⟨ph, hin, hph, rfl⟩
    exact h ph hin hph
  rw [hsplit]
  by_cases hround : RoundsUp headers
  · obtain ⟨hzeroed, hcopies⟩ := hcovers.within_of_roundsUp hlt hround hstart hstop
    constructor
    · rintro ⟨-, hin⟩
      exact Or.inl ⟨hround, fun ph hph hcopied => (hcopies ph hph hcopied).1 (hin ph hph hcopied)⟩
    · rintro (⟨-, hin⟩ | ⟨hnot, -⟩)
      · exact ⟨hzeroed, fun ph hph hcopied => (hcopies ph hph hcopied).2 (hin ph hph hcopied)⟩
      · exact absurd hround hnot
  · obtain ⟨hempty, hnone⟩ := hcovers.within_of_wraps hlt hround hstart hstop
    simp only [hempty, hnone, ← file_size_eq_zero_iff]
    constructor
    · intro h
      exact Or.inr ⟨hround, h⟩
    · rintro (⟨hyes, -⟩ | ⟨-, h⟩)
      · exact absurd hyes hround
      · exact h

/-- A segment with one page of memory and two pages of file data. -/
def overlongSegment : ProgramHeader where
  get_type := some .Load
  offset := 0x1000
  physical_addr := 0x100000
  file_size := 0x2000
  mem_size := 0x1000

def overlongBuf : Slice where
  address := 0x200000
  length := 0x3000

theorem load_overlong :
    load .dev (fun start _ => some start) overlongBuf [overlongSegment] (fun _ => 0) =
      .ok ⟨0x100000, 0x101000,
        placeAll overlongBuf [overlongSegment]
          ((LoggedMemory.start (fun _ => 0)).write ⟨0x100000, 0x1000⟩ (fun _ => 0))⟩ := rfl

/-- The second page of the file data is written behind the allocation. -/
theorem load_leaves_allocation :
    ∃ kernel,
      load .dev (fun start _ => some start) overlongBuf [overlongSegment] (fun _ => 0) =
        .ok kernel ∧
      ¬ kernel.InAllocation := by
  refine ⟨_, load_overlong, ?_⟩
  intro hinside
  have hwritten : overlongSegment.target ∈
      (placeAll overlongBuf [overlongSegment]
        ((LoggedMemory.start (fun _ => 0)).write ⟨0x100000, 0x1000⟩ (fun _ => 0))).writes :=
    mem_writes_placeAll.2
      (Or.inr ⟨overlongSegment, List.mem_singleton_self _, ⟨rfl, by decide⟩, rfl⟩)
  have hlast := hinside _ hwritten 0x101000 ⟨by decide, by decide⟩
  exact absurd hlast.2 (by decide)

/-- A segment with a page and a half of file data in two pages of memory. -/
def fittingSegment : ProgramHeader :=
  { overlongSegment with file_size := 0x1800, mem_size := 0x2000 }

theorem staysInside_fittingSegment :
    StaysInside [fittingSegment] := by
  refine Or.inl ⟨?_, ?_⟩
  · simp only [RoundsUp, List.mem_singleton, forall_eq]
    exact fun _ => by decide
  · intro ph hin hcopied
    exact Or.inr ⟨ph, hin, hcopied.1, by rw [List.mem_singleton.1 hin]; decide⟩

/-- Its copy stays inside the two pages. -/
theorem load_stays_inside_iff_fitting :
    ∃ kernel,
      load .dev (fun start _ => some start) overlongBuf [fittingSegment] (fun _ => 0) =
        .ok kernel ∧
      kernel.InAllocation := by
  obtain ⟨kernel, hload⟩ : ∃ kernel,
      load .dev (fun start _ => some start) overlongBuf [fittingSegment] (fun _ => 0) =
        .ok kernel := ⟨_, rfl⟩
  have hiff := load_stays_inside_iff .dev (fun start _ => some start)
    (fun _ _ _ h => (Option.some.inj h).symm)
    overlongBuf [fittingSegment] (fun _ => 0) kernel hload
  exact ⟨kernel, hload, hiff.2 staysInside_fittingSegment⟩

end Inside

section Image

/-- `[p_paddr, p_paddr + p_memsz)`. -/
def ProgramHeader.range (ph : ProgramHeader) : Slice where
  address := ph.physical_addr.toNat
  length := ph.mem_size.toNat

/-- If both are LOAD segments, their ranges share no byte. -/
def ProgramHeader.Apart (ph ph' : ProgramHeader) : Prop :=
  ph.IsLoad → ph'.IsLoad → ph.range.Apart ph'.range

instance : Std.Symm ProgramHeader.Apart where
  symm _ _ h := fun hload hload' => (h hload' hload).symm

/-- LOAD segments as a linker makes them, for a file of `size` bytes. -/
structure ConsistentHeaders (headers : List ProgramHeader) (size : Nat) : Prop where
  file_le_mem : ∀ ph ∈ headers, ph.IsLoad → ph.file_size.toNat ≤ ph.mem_size.toNat
  in_file : ∀ ph ∈ headers, ph.IsLoad →
    ph.offset.toNat + ph.file_size.toNat < 2 ^ 64 ∧
      ph.offset.toNat + ph.file_size.toNat ≤ size
  no_overflow : ∀ ph ∈ headers, ph.IsLoad →
    ph.physical_addr.toNat + ph.mem_size.toNat + 0xFFF < 2 ^ 64
  apart : headers.Pairwise ProgramHeader.Apart
  nonempty : ∃ ph ∈ headers, ph.IsLoad ∧ ph.mem_size ≠ 0

variable {headers : List ProgramHeader} {size : Nat} {bounds : LoadBounds}

theorem toNat_stop
    {ph : ProgramHeader}
    (h : ph.physical_addr.toNat + ph.mem_size.toNat + 0xFFF < 2 ^ 64) :
    ph.stop.toNat = ph.physical_addr.toNat + ph.mem_size.toNat := by
  rw [ProgramHeader.stop]
  exact toNat_add_of_lt (by omega)

theorem ConsistentHeaders.lt_of_covers
    (h : ConsistentHeaders headers size)
    (hcovers : Covers headers LoadBounds.start bounds) :
    bounds.load_min.toNat < bounds.load_max.toNat := by
  obtain ⟨ph, hin, hload, hmem⟩ := h.nonempty
  have hmin := hcovers.min_le_addr ph hin hload
  have hmax := hcovers.stop_le_max ph hin hload
  have hpos : ph.mem_size.toNat ≠ (0 : UInt64).toNat := mt UInt64.toNat_inj.1 hmem
  have hzero : (0 : UInt64).toNat = 0 := rfl
  rw [toNat_stop (h.no_overflow ph hin hload)] at hmax
  omega

theorem ConsistentHeaders.round_lt
    (h : ConsistentHeaders headers size)
    (hcovers : Covers headers LoadBounds.start bounds) :
    bounds.load_max.toNat + 0xFFF < 2 ^ 64 := by
  obtain ⟨ph, hin, hload, heq⟩ := hcovers.exists_stop (h.lt_of_covers hcovers)
  rw [heq, toNat_stop (h.no_overflow ph hin hload)]
  exact h.no_overflow ph hin hload

/-- Two segments that share an address are the same one. -/
theorem ConsistentHeaders.eq_of_contains
    (h : ConsistentHeaders headers size)
    {ph ph' : ProgramHeader}
    (hin : ph ∈ headers) (hin' : ph' ∈ headers)
    (hload : ph.IsLoad) (hload' : ph'.IsLoad)
    {addr : Nat}
    (haddr : ph.range.Contains addr) (haddr' : ph'.range.Contains addr) :
    ph = ph' := by
  by_contra hne
  exact h.apart.forall hin hin' hne hload hload' addr ⟨haddr, haddr'⟩

/-- The file data of a consistent segment goes to the start of its range. -/
theorem ConsistentHeaders.range_of_target
    (h : ConsistentHeaders headers size)
    {ph : ProgramHeader}
    (hin : ph ∈ headers) (hload : ph.IsLoad)
    {addr : Nat}
    (haddr : ph.target.Contains addr) :
    ph.range.Contains addr := by
  have hle := h.file_le_mem ph hin hload
  exact ⟨haddr.1, haddr.2.trans_le (Nat.add_le_add_left hle _)⟩

variable {profile : Profile} {allocate_pages : UInt64 → UInt64 → Option UInt64}
variable {elf_buf : Slice} {bytes : Nat → UInt8}

theorem mulU64_pages
    (profile : Profile) (bytes : UInt64) :
    profile.mulU64 (bytes / 0x1000) 0x1000 = .ok (bytes / 0x1000 * 0x1000) := by
  have hpage : (0x1000 : UInt64).toNat = 4096 := rfl
  have hlt := bytes.toNat_lt
  have hfits : (bytes / 0x1000).toNat * (0x1000 : UInt64).toNat < 2 ^ 64 := by
    rw [UInt64.toNat_div, hpage]
    omega
  exact (profile.mulU64_of_lt hfits).1

/-- With consistent headers of known types only the firmware can stop the loader. -/
theorem ConsistentHeaders.load_returns
    (h : ConsistentHeaders headers elf_buf.length)
    (htypes : ∀ ph ∈ headers, ph.get_type ≠ none) :
    (∃ kernel, load profile allocate_pages elf_buf headers bytes = .ok kernel) ∨
      load profile allocate_pages elf_buf headers bytes = .error .allocation := by
  obtain ⟨bounds, hfirst⟩ := exists_firstPass_eq_ok profile LoadBounds.start htypes
    (fun ph hin hload => by have := h.no_overflow ph hin hload; omega)
  have hcovers := firstPass_covers hfirst
  have hlt := h.lt_of_covers hcovers
  have hround := h.round_lt hcovers
  have hnonempty : ¬ bounds.load_min ≥ bounds.load_max := by
    intro hge
    have := UInt64.le_iff_toNat_le.1 hge
    omega
  have hadd : profile.addU64 bounds.load_max 0xFFF = .ok (bounds.load_max + 0xFFF) :=
    Profile.u64_of_lt hround
  have hle : pageDown bounds.load_min ≤ pageDown (bounds.load_max + 0xFFF) := by
    have := le_pageUp bounds.load_max.toNat
    rw [UInt64.le_iff_toNat_le, toNat_pageDown, toNat_pageDown_round hround]
    omega
  have hsub : profile.subU64 (pageDown (bounds.load_max + 0xFFF)) (pageDown bounds.load_min) =
      .ok (pageDown (bounds.load_max + 0xFFF) - pageDown bounds.load_min) := if_pos hle
  have hmul := mulU64_pages profile (pageDown (bounds.load_max + 0xFFF) - pageDown bounds.load_min)
  rcases halloc : allocate_pages (pageDown bounds.load_min)
      ((pageDown (bounds.load_max + 0xFFF) - pageDown bounds.load_min) / 0x1000) with
    _ | alloc_addr
  · refine Or.inr ?_
    simp only [load, hfirst, if_neg hnonempty, hadd, hsub, halloc, liftArith, bind, Except.bind]
    rfl
  · have hsecond : ∃ memory, secondPass profile elf_buf headers
        ((LoggedMemory.start bytes).write
          (zeroedSlice alloc_addr (pageDown bounds.load_min)
            (pageDown (bounds.load_max + 0xFFF))) (fun _ => 0)) = .ok memory :=
      exists_secondPass_eq_ok htypes h.in_file
    obtain ⟨memory, hsecond⟩ := hsecond
    refine Or.inl
      ⟨⟨pageDown bounds.load_min, pageDown (bounds.load_max + 0xFFF), memory⟩, ?_⟩
    rw [zeroedSlice] at hsecond
    simp only [load, hfirst, if_neg hnonempty, hadd, hsub, halloc, hmul, hsecond, liftArith,
      bind, Except.bind, pure, Except.pure]

/-- The pages cover the ranges of all LOAD segments. -/
theorem ConsistentHeaders.zeroed_of_range
    (h : ConsistentHeaders headers size)
    (hcovers : Covers headers LoadBounds.start bounds)
    (addr : UInt64)
    (hfixed : addr = pageDown bounds.load_min)
    {ph : ProgramHeader}
    (hin : ph ∈ headers) (hload : ph.IsLoad)
    {byte : Nat}
    (hbyte : ph.range.Contains byte) :
    (zeroedSlice addr (pageDown bounds.load_min)
      (pageDown (bounds.load_max + 0xFFF))).Contains byte := by
  have hround := h.round_lt hcovers
  have hmin := hcovers.min_le_addr ph hin hload
  have hmax := hcovers.stop_le_max ph hin hload
  rw [toNat_stop (h.no_overflow ph hin hload)] at hmax
  have hle := le_pageUp bounds.load_max.toNat
  have hstart := toNat_pageDown bounds.load_min
  have hstop := toNat_pageDown_round hround
  have hlength := length_zeroedSlice addr (pageDown bounds.load_min)
    (pageDown (bounds.load_max + 0xFFF)) (by omega) (by rw [toNat_pageDown]; omega)
  have hlt := (pageDown (bounds.load_max + 0xFFF)).toNat_lt
  obtain ⟨hlow, hhigh⟩ := hbyte
  simp only [ProgramHeader.range] at hlow hhigh
  subst hfixed
  refine ⟨?_, ?_⟩
  · show (pageDown bounds.load_min).toNat ≤ byte
    omega
  · show byte < (pageDown bounds.load_min).toNat + _
    omega

/-- The copies of consistent segments do not meet. -/
theorem ConsistentHeaders.targets_apart
    (h : ConsistentHeaders headers size) :
    headers.Pairwise fun q q' => q.Copied → q'.Copied → q.target.Apart q'.target := by
  refine h.apart.imp_of_mem ?_
  intro q q' hq hq' hapart hcopied hcopied' addr hboth
  exact hapart hcopied.1 hcopied'.1 addr
    ⟨h.range_of_target hq hcopied.1 hboth.1, h.range_of_target hq' hcopied'.1 hboth.2⟩

theorem zeroedSlice_eq
    (addr start stop : UInt64) :
    zeroedSlice addr start stop = ⟨addr.toNat, ((stop - start) / 0x1000).toNat * 4096⟩ := by
  have hpage : (0x1000 : UInt64).toNat = 4096 := rfl
  have hlt := (stop - start).toNat_lt
  rw [zeroedSlice, UInt64.toNat_mul, UInt64.toNat_div, hpage, Nat.mod_eq_of_lt (by omega)]

/-- After the two passes every LOAD segment is in place: the file data first, then zeros. -/
theorem load_places_segments
    (profile : Profile) (allocate_pages : UInt64 → UInt64 → Option UInt64)
    (elf_buf : Slice) (headers : List ProgramHeader) (bytes : Nat → UInt8) (file : List UInt8)
    (hlength : elf_buf.length = file.length)
    (hread : ∀ i byte, file[i]? = some byte → bytes (elf_buf.address + i) = byte)
    (halloc : ∀ start pages addr, allocate_pages start pages = some addr →
      addr = start ∧ Slice.Apart ⟨start.toNat, pages.toNat * 4096⟩ elf_buf)
    (hheaders : ConsistentHeaders headers file.length) :
    (∀ kernel, load profile allocate_pages elf_buf headers bytes = .ok kernel →
      ∀ ph ∈ headers, ph.IsLoad →
        (∀ i < ph.file_size.toNat,
          file[ph.offset.toNat + i]? =
            some (kernel.memory.bytes (ph.physical_addr.toNat + i))) ∧
        ∀ i, ph.file_size.toNat ≤ i → i < ph.mem_size.toNat →
          kernel.memory.bytes (ph.physical_addr.toNat + i) = 0) ∧
    ((∀ ph ∈ headers, ph.get_type ≠ none) →
      (∃ kernel, load profile allocate_pages elf_buf headers bytes = .ok kernel) ∨
        load profile allocate_pages elf_buf headers bytes = .error .allocation) := by
  rw [← hlength] at hheaders
  refine ⟨?_, hheaders.load_returns⟩
  intro kernel hload ph hin hph
  obtain ⟨bounds, alloc_addr, hfirst, hlt, hdev, hstart, hstop, hsome, hsecond⟩ := load_eq_ok hload
  have hcovers := firstPass_covers hfirst
  obtain ⟨hfixed, hpages⟩ := halloc _ _ _ hsome
  obtain ⟨hmemory, -⟩ := secondPass_eq_ok hsecond
  have hfree : (zeroedSlice alloc_addr kernel.alloc_start kernel.alloc_end).Apart elf_buf := by
    rw [zeroedSlice_eq, hfixed]
    exact hpages
  have hzeroed : ∀ q ∈ headers, q.IsLoad → ∀ addr, q.range.Contains addr →
      (zeroedSlice alloc_addr kernel.alloc_start kernel.alloc_end).Contains addr := by
    intro q hq hqload addr haddr
    rw [hstart, hstop]
    exact hheaders.zeroed_of_range hcovers alloc_addr (hfixed.trans hstart) hq hqload haddr
  have hbuf : ∀ q ∈ headers, q.Copied → q.target.Apart elf_buf := fun q hq hcopied addr hboth =>
    hfree addr ⟨hzeroed q hq hcopied.1 addr
      (hheaders.range_of_target hq hcopied.1 hboth.1), hboth.2⟩
  have hfile : ∀ q ∈ headers, q.Copied →
      q.offset.toNat + q.file_size.toNat ≤ elf_buf.length :=
    fun q hq hcopied => (hheaders.in_file q hq hcopied.1).2
  have hle := hheaders.file_le_mem ph hin hph
  rw [hmemory]
  constructor
  · intro i hi
    have hcopied : ph.Copied := by
      refine ⟨hph, fun hempty => ?_⟩
      have hzero : (0 : UInt64).toNat = 0 := rfl
      rw [hempty, hzero] at hle
      omega
    have hbound := hfile ph hin hcopied
    have hsrc : elf_buf.Contains (elf_buf.address + ph.offset.toNat + i) := by
      unfold Slice.Contains
      omega
    have hi' : ph.offset.toNat + i < file.length := by omega
    rw [bytes_placeAll_of_contains hheaders.targets_apart hbuf hfile hin hcopied hi,
      LoggedMemory.bytes_write_of_not_contains (fun hboth => hfree _ ⟨hboth, hsrc⟩),
      List.getElem?_eq_getElem hi', Nat.add_assoc]
    exact congrArg some (hread _ _ (List.getElem?_eq_getElem hi')).symm
  · intro i hlow hhigh
    have hrange : ph.range.Contains (ph.physical_addr.toNat + i) :=
      ⟨Nat.le_add_right _ _, Nat.add_lt_add_left hhigh _⟩
    rw [bytes_placeAll_of_not_contains,
      LoggedMemory.bytes_write_of_contains (hzeroed ph hin hph _ hrange)]
    -- only this segment's own copy could reach the address, and it is too short
    intro q hq hcopied htarget
    obtain rfl := hheaders.eq_of_contains hq hin hcopied.1 hph
      (hheaders.range_of_target hq hcopied.1 htarget) hrange
    have hend := htarget.2
    simp only [ProgramHeader.target] at hend
    omega

/-- Two segments on one page, the higher one first, each with a zeroed tail. -/
def sharedPageHeaders : List ProgramHeader :=
  [⟨some .Load, 2, 0x101800, 1, 0x10⟩, ⟨some .Load, 0, 0x101000, 2, 4⟩]

def sharedPageFile : List UInt8 := [0x12, 0x34, 0x56]

def sharedPageBuf : Slice where
  address := 0x900000
  length := 3

/-- A firmware whose free memory ends where the file was read to. -/
def allocateBelowBuf (start pages : UInt64) : Option UInt64 :=
  if start.toNat + pages.toNat * 4096 ≤ 0x900000 then some start else none

theorem consistent_sharedPageHeaders :
    ConsistentHeaders sharedPageHeaders sharedPageFile.length where
  file_le_mem := by decide
  in_file := by decide
  no_overflow := by decide
  apart := by
    simp [sharedPageHeaders, ProgramHeader.Apart, Slice.Apart, Slice.Contains,
      ProgramHeader.range]
    omega
  nonempty := by decide

theorem load_places_segments_shared_page :
    ∃ kernel,
      load .dev allocateBelowBuf sharedPageBuf sharedPageHeaders
        (fun addr => sharedPageFile.getD (addr - 0x900000) 0xFF) = .ok kernel ∧
      ∀ ph ∈ sharedPageHeaders, ph.IsLoad →
        (∀ i < ph.file_size.toNat,
          sharedPageFile[ph.offset.toNat + i]? =
            some (kernel.memory.bytes (ph.physical_addr.toNat + i))) ∧
        ∀ i, ph.file_size.toNat ≤ i → i < ph.mem_size.toNat →
          kernel.memory.bytes (ph.physical_addr.toNat + i) = 0 := by
  have halloc : ∀ start pages addr, allocateBelowBuf start pages = some addr →
      addr = start ∧ Slice.Apart ⟨start.toNat, pages.toNat * 4096⟩ sharedPageBuf := by
    intro start pages addr hsome
    rw [allocateBelowBuf] at hsome
    split at hsome
    · cases hsome
      refine ⟨rfl, ?_⟩
      simp only [Slice.Apart, Slice.Contains, sharedPageBuf]
      omega
    · cases hsome
  have hread : ∀ i byte, sharedPageFile[i]? = some byte →
      sharedPageFile.getD (0x900000 + i - 0x900000) 0xFF = byte := by
    intro i byte hbyte
    rw [Nat.add_sub_cancel_left, List.getD_eq_getElem?_getD, hbyte, Option.getD_some]
  have hload : load .dev allocateBelowBuf sharedPageBuf sharedPageHeaders
      (fun addr => sharedPageFile.getD (addr - 0x900000) 0xFF) = .ok _ := rfl
  exact ⟨_, hload,
    (load_places_segments .dev allocateBelowBuf sharedPageBuf sharedPageHeaders
      (fun addr => sharedPageFile.getD (addr - 0x900000) 0xFF) sharedPageFile rfl hread halloc
      consistent_sharedPageHeaders).1 _ hload⟩

end Image

end Loader
end OpenKernel
