import OpenKernel.LoggedMemory
import OpenKernel.MachineWords

/-!
# The ELF loader of the bootloader

`efi_main` goes through the program headers twice.  The first pass finds the
lowest and highest physical address of the LOAD segments; the pages between them
are allocated and zeroed; the second pass copies the file data of every segment
to its physical address.

The headers are those that the ELF parser yields, with the result of `get_type`.
The file was read to `elf_buf`, a slice of the same memory that the segments are
copied to.  The firmware's `allocate_pages` is a parameter.
-/

namespace OpenKernel
namespace Loader

/-- `xmas_elf::program::Type`, as far as the loader tells its values apart. -/
inductive SegmentType where
  | Load
  | Other
deriving DecidableEq

structure ProgramHeader where
  /-- `get_type()`, which fails on an unknown type. -/
  get_type : Option SegmentType
  offset : UInt64
  physical_addr : UInt64
  file_size : UInt64
  mem_size : UInt64
deriving DecidableEq

/-- How `efi_main` stops before it jumps to the kernel. -/
inductive LoadError where
  /-- `return Status::NOT_FOUND`. -/
  | notFound
  /-- `ph.get_type().unwrap()`. -/
  | segmentType
  | arith (panic : ArithPanic)
  /-- `.expect("Failed to allocate pages for kernel")`. -/
  | allocation
  /-- `&elf_buf[offset..offset + p_filesz]` out of range. -/
  | sliceIndex
  /-- `copy_from_slice` of a slice of another length. -/
  | sliceLength
deriving DecidableEq

/-- An operation on machine words inside the loader. -/
def liftArith {α : Type} : Except ArithPanic α → Except LoadError α
  | .ok value => .ok value
  | .error panic => .error (.arith panic)

structure LoadBounds where
  load_min : UInt64
  load_max : UInt64
deriving DecidableEq

/-- `load_min = u64::MAX`, `load_max = 0`. -/
def LoadBounds.start : LoadBounds where
  load_min := 0xFFFFFFFFFFFFFFFF
  load_max := 0

/-- `if start < load_min {..}` and `if end > load_max {..}`. -/
def LoadBounds.widen (bounds : LoadBounds) (start stop : UInt64) : LoadBounds where
  load_min := if start < bounds.load_min then start else bounds.load_min
  load_max := if stop > bounds.load_max then stop else bounds.load_max

def firstPass (profile : Profile) :
    List ProgramHeader → LoadBounds → Except LoadError LoadBounds
  | [], bounds => .ok bounds
  | ph :: headers, bounds =>
      match ph.get_type with
      | none => .error .segmentType
      | some .Other => firstPass profile headers bounds
      | some .Load => do
          let stop ← liftArith (profile.addU64 ph.physical_addr ph.mem_size)
          firstPass profile headers (bounds.widen ph.physical_addr stop)

/-- `&elf_buf[offset..offset + count]`. -/
def indexRange (profile : Profile) (buf : Slice) (offset count : UInt64) :
    Except LoadError Slice := do
  let stop ← liftArith (profile.addU64 offset count)
  if offset ≤ stop ∧ stop.toNat ≤ buf.length then
    pure ⟨buf.address + offset.toNat, stop.toNat - offset.toNat⟩
  else
    throw .sliceIndex

/-- `dst.copy_from_slice(src)`. -/
def copyFromSlice (memory : LoggedMemory) (dst src : Slice) : Except LoadError LoggedMemory :=
  if dst.length = src.length then
    .ok (memory.write dst (fun i => memory.bytes (src.address + i)))
  else
    .error .sliceLength

def secondPass (profile : Profile) (elf_buf : Slice) :
    List ProgramHeader → LoggedMemory → Except LoadError LoggedMemory
  | [], memory => .ok memory
  | ph :: headers, memory =>
      match ph.get_type with
      | none => .error .segmentType
      | some .Other => secondPass profile elf_buf headers memory
      | some .Load =>
          if ph.mem_size = 0 then
            secondPass profile elf_buf headers memory
          else do
            let src ← indexRange profile elf_buf ph.offset ph.file_size
            let memory ← copyFromSlice memory ⟨ph.physical_addr.toNat, ph.file_size.toNat⟩ src
            secondPass profile elf_buf headers memory

/-- The state in which the loader leaves the two passes. -/
structure LoadedKernel where
  alloc_start : UInt64
  alloc_end : UInt64
  memory : LoggedMemory

/-- `efi_main` from the first pass to the end of the second. -/
def load (profile : Profile) (allocate_pages : UInt64 → UInt64 → Option UInt64)
    (elf_buf : Slice) (headers : List ProgramHeader) (bytes : Nat → UInt8) :
    Except LoadError LoadedKernel := do
  let bounds ← firstPass profile headers LoadBounds.start
  if bounds.load_min ≥ bounds.load_max then
    throw .notFound
  let alloc_start := pageDown bounds.load_min
  let rounded ← liftArith (profile.addU64 bounds.load_max 0xFFF)
  let alloc_end := pageDown rounded
  let size ← liftArith (profile.subU64 alloc_end alloc_start)
  let total_pages := size / 0x1000
  match allocate_pages alloc_start total_pages with
  | none => throw .allocation
  | some alloc_addr => do
      let count ← liftArith (profile.mulU64 total_pages 0x1000)
      let zeroed := (LoggedMemory.start bytes).write
        ⟨alloc_addr.toNat, count.toNat⟩ (fun _ => 0)
      let memory ← secondPass profile elf_buf headers zeroed
      pure ⟨alloc_start, alloc_end, memory⟩

namespace ProgramHeader

def IsLoad (ph : ProgramHeader) : Prop :=
  ph.get_type = some .Load

instance : DecidablePred IsLoad :=
  fun _ => inferInstanceAs (Decidable (_ = _))

/-- `start + ph.mem_size()`, wrapping. -/
def stop (ph : ProgramHeader) : UInt64 :=
  ph.physical_addr + ph.mem_size

/-- Where the second pass copies to. -/
def target (ph : ProgramHeader) : Slice where
  address := ph.physical_addr.toNat
  length := ph.file_size.toNat

/-- The second pass does not skip the segment. -/
def Copied (ph : ProgramHeader) : Prop :=
  ph.IsLoad ∧ ph.mem_size ≠ 0

instance : DecidablePred Copied :=
  fun _ => inferInstanceAs (Decidable (_ ∧ _))

/-- The effect of one round of the second pass. -/
def place (ph : ProgramHeader) (elf_buf : Slice) (memory : LoggedMemory) : LoggedMemory :=
  if ph.Copied then
    memory.write ph.target (fun i => memory.bytes (elf_buf.address + ph.offset.toNat + i))
  else
    memory

theorem place_of_copied
    {ph : ProgramHeader} (elf_buf : Slice) (memory : LoggedMemory)
    (h : ph.Copied) :
    ph.place elf_buf memory =
      memory.write ph.target (fun i => memory.bytes (elf_buf.address + ph.offset.toNat + i)) :=
  if_pos h

theorem place_of_not_copied
    {ph : ProgramHeader} (elf_buf : Slice) (memory : LoggedMemory)
    (h : ¬ ph.Copied) :
    ph.place elf_buf memory = memory :=
  if_neg h

end ProgramHeader

/-- The effect of the second pass. -/
def placeAll (elf_buf : Slice) (headers : List ProgramHeader) (memory : LoggedMemory) :
    LoggedMemory :=
  headers.foldl (fun memory ph => ph.place elf_buf memory) memory

section FirstPass

/-- The bounds after the first pass are tight around the LOAD segments. -/
structure Covers (headers : List ProgramHeader) (bounds bounds' : LoadBounds) : Prop where
  min_le : bounds'.load_min.toNat ≤ bounds.load_min.toNat
  le_max : bounds.load_max.toNat ≤ bounds'.load_max.toNat
  min_le_addr : ∀ ph ∈ headers, ph.IsLoad →
    bounds'.load_min.toNat ≤ ph.physical_addr.toNat
  stop_le_max : ∀ ph ∈ headers, ph.IsLoad → ph.stop.toNat ≤ bounds'.load_max.toNat
  min_eq : bounds'.load_min = bounds.load_min ∨
    ∃ ph ∈ headers, ph.IsLoad ∧ bounds'.load_min = ph.physical_addr
  max_eq : bounds'.load_max = bounds.load_max ∨
    ∃ ph ∈ headers, ph.IsLoad ∧ bounds'.load_max = ph.stop

variable {bounds bounds' : LoadBounds} {ph : ProgramHeader} {headers : List ProgramHeader}

theorem covers_nil :
    Covers [] bounds bounds where
  min_le := le_rfl
  le_max := le_rfl
  min_le_addr := by simp
  stop_le_max := by simp
  min_eq := Or.inl rfl
  max_eq := Or.inl rfl

theorem covers_cons_other
    (hph : ¬ ph.IsLoad)
    (h : Covers headers bounds bounds') :
    Covers (ph :: headers) bounds bounds' := by
  obtain ⟨hmin, hmax, haddr, hstop, hmineq, hmaxeq⟩ := h
  constructor <;> simp_all

/-- Widening takes the smaller start. -/
theorem load_min_widen
    (bounds : LoadBounds) (start stop : UInt64) :
    ((bounds.widen start stop).load_min = start ∨
        (bounds.widen start stop).load_min = bounds.load_min) ∧
      (bounds.widen start stop).load_min.toNat ≤ start.toNat ∧
      (bounds.widen start stop).load_min.toNat ≤ bounds.load_min.toNat := by
  by_cases hlt : start < bounds.load_min
  · have hmin : (bounds.widen start stop).load_min = start := if_pos hlt
    have hle := UInt64.lt_iff_toNat_lt.1 hlt
    rw [hmin]
    exact ⟨Or.inl rfl, le_rfl, hle.le⟩
  · have hmin : (bounds.widen start stop).load_min = bounds.load_min := if_neg hlt
    have hle := mt UInt64.lt_iff_toNat_lt.2 hlt
    rw [hmin]
    exact ⟨Or.inr rfl, Nat.le_of_not_lt hle, le_rfl⟩

/-- Widening takes the larger end. -/
theorem load_max_widen
    (bounds : LoadBounds) (start stop : UInt64) :
    ((bounds.widen start stop).load_max = stop ∨
        (bounds.widen start stop).load_max = bounds.load_max) ∧
      stop.toNat ≤ (bounds.widen start stop).load_max.toNat ∧
      bounds.load_max.toNat ≤ (bounds.widen start stop).load_max.toNat := by
  by_cases hgt : stop > bounds.load_max
  · have hmax : (bounds.widen start stop).load_max = stop := if_pos hgt
    have hle := UInt64.lt_iff_toNat_lt.1 hgt
    rw [hmax]
    exact ⟨Or.inl rfl, le_rfl, hle.le⟩
  · have hmax : (bounds.widen start stop).load_max = bounds.load_max := if_neg hgt
    have hle := mt UInt64.lt_iff_toNat_lt.2 hgt
    rw [hmax]
    exact ⟨Or.inr rfl, Nat.le_of_not_lt hle, le_rfl⟩

theorem covers_cons_load
    (hph : ph.IsLoad)
    (h : Covers headers (bounds.widen ph.physical_addr ph.stop) bounds') :
    Covers (ph :: headers) bounds bounds' := by
  obtain ⟨hmin, hmax, haddr, hstop, hmineq, hmaxeq⟩ := h
  obtain ⟨hlow, hlow_start, hlow_bounds⟩ := load_min_widen bounds ph.physical_addr ph.stop
  obtain ⟨hhigh, hhigh_stop, hhigh_bounds⟩ := load_max_widen bounds ph.physical_addr ph.stop
  constructor
  case min_le => exact hmin.trans hlow_bounds
  case le_max => exact hhigh_bounds.trans hmax
  case min_le_addr =>
    rw [List.forall_mem_cons]
    exact ⟨fun _ => hmin.trans hlow_start, haddr⟩
  case stop_le_max =>
    rw [List.forall_mem_cons]
    exact ⟨fun _ => hhigh_stop.trans hmax, hstop⟩
  case min_eq =>
    rcases hmineq with hmineq | ⟨ph', hin, hload, hmineq⟩
    · rcases hlow with heq | heq
      · exact Or.inr ⟨ph, by simp, hph, hmineq.trans heq⟩
      · exact Or.inl (hmineq.trans heq)
    · exact Or.inr ⟨ph', List.mem_cons_of_mem _ hin, hload, hmineq⟩
  case max_eq =>
    rcases hmaxeq with hmaxeq | ⟨ph', hin, hload, hmaxeq⟩
    · rcases hhigh with heq | heq
      · exact Or.inr ⟨ph, by simp, hph, hmaxeq.trans heq⟩
      · exact Or.inl (hmaxeq.trans heq)
    · exact Or.inr ⟨ph', List.mem_cons_of_mem _ hin, hload, hmaxeq⟩

theorem liftArith_eq_ok_iff
    {α : Type} {result : Except ArithPanic α} {value : α} :
    liftArith result = .ok value ↔ result = .ok value := by
  cases result <;> simp [liftArith]

theorem firstPass_covers
    {profile : Profile}
    (h : firstPass profile headers bounds = .ok bounds') :
    Covers headers bounds bounds' := by
  induction headers generalizing bounds with
  | nil =>
      cases h
      exact covers_nil
  | cons ph headers ih =>
      rw [firstPass] at h
      rcases htype : ph.get_type with _ | ⟨_ | _⟩
      · rw [htype] at h
        cases h
      · rw [htype] at h
        obtain ⟨stop, hstop, hrest⟩ := bind_eq_ok_iff.1 h
        obtain ⟨rfl, -⟩ := Profile.u64_eq_ok (liftArith_eq_ok_iff.1 hstop)
        exact covers_cons_load htype (ih hrest)
      · rw [htype] at h
        have hother : ¬ ph.IsLoad := by
          rw [ProgramHeader.IsLoad, htype]
          decide
        exact covers_cons_other hother (ih h)

/-- Where all types parse and all sums fit, the first pass returns. -/
theorem exists_firstPass_eq_ok
    (profile : Profile) (bounds : LoadBounds)
    (htypes : ∀ ph ∈ headers, ph.get_type ≠ none)
    (hsums : ∀ ph ∈ headers, ph.IsLoad →
      ph.physical_addr.toNat + ph.mem_size.toNat < 2 ^ 64) :
    ∃ bounds', firstPass profile headers bounds = .ok bounds' := by
  induction headers generalizing bounds with
  | nil => exact ⟨bounds, rfl⟩
  | cons ph headers ih =>
      have ih' := fun bounds => ih bounds (fun q hq => htypes q (List.mem_cons_of_mem _ hq))
        (fun q hq => hsums q (List.mem_cons_of_mem _ hq))
      rw [firstPass]
      rcases htype : ph.get_type with _ | ⟨_ | _⟩
      · exact absurd htype (htypes ph (by simp))
      · have hadd : profile.addU64 ph.physical_addr ph.mem_size = .ok ph.stop :=
          Profile.u64_of_lt (hsums ph (by simp) htype)
        obtain ⟨bounds', hrest⟩ := ih' (bounds.widen ph.physical_addr ph.stop)
        exact ⟨bounds', by simp only [hadd, liftArith, bind, Except.bind, hrest]⟩
      · exact ih' bounds

end FirstPass

section SecondPass

variable {profile : Profile} {elf_buf : Slice} {memory memory' : LoggedMemory}
variable {ph : ProgramHeader} {headers : List ProgramHeader}

/-- A range of the file that can be indexed lies in it, and is as long as asked for. -/
theorem indexRange_eq_ok
    {offset count : UInt64} {src : Slice}
    (h : indexRange profile elf_buf offset count = .ok src) :
    src = ⟨elf_buf.address + offset.toNat, count.toNat⟩ ∧
      offset.toNat + count.toNat ≤ elf_buf.length := by
  obtain ⟨stop, hstop, hrest⟩ := bind_eq_ok_iff.1 h
  obtain ⟨rfl, -⟩ := Profile.u64_eq_ok (liftArith_eq_ok_iff.1 hstop)
  by_cases hin : offset ≤ offset + count ∧ (offset + count).toNat ≤ elf_buf.length
  · rw [if_pos hin] at hrest
    cases hrest
    -- a range that starts before its end has not wrapped
    have hle := UInt64.le_iff_toNat_le.1 hin.1
    have hsum := UInt64.toNat_add offset count
    have hoffset := offset.toNat_lt
    have hcount := count.toNat_lt
    refine ⟨?_, by omega⟩
    rw [Slice.mk.injEq]
    exact ⟨rfl, by omega⟩
  · rw [if_neg hin] at hrest
    cases hrest

theorem indexRange_of_le
    {offset count : UInt64}
    (hfits : offset.toNat + count.toNat < 2 ^ 64)
    (hin : offset.toNat + count.toNat ≤ elf_buf.length) :
    indexRange profile elf_buf offset count =
      .ok ⟨elf_buf.address + offset.toNat, count.toNat⟩ := by
  obtain ⟨hadd, hsum⟩ := profile.addU64_of_lt hfits
  have hle : offset ≤ offset + count := by
    rw [UInt64.le_iff_toNat_le, hsum]
    omega
  rw [indexRange, hadd]
  simp only [liftArith, bind, Except.bind, pure, Except.pure, hle, hsum, hin, and_self, if_true,
    Nat.add_sub_cancel_left]

/-- The second pass is the fold of its rounds. -/
theorem secondPass_eq_ok
    (h : secondPass profile elf_buf headers memory = .ok memory') :
    memory' = placeAll elf_buf headers memory ∧
      ∀ ph ∈ headers, ph.Copied → ph.offset.toNat + ph.file_size.toNat ≤ elf_buf.length := by
  induction headers generalizing memory with
  | nil =>
      cases h
      exact ⟨rfl, by simp⟩
  | cons ph headers ih =>
      rw [secondPass] at h
      rw [placeAll, List.foldl_cons, List.forall_mem_cons]
      have hskip : ¬ ph.Copied → secondPass profile elf_buf headers memory = .ok memory' →
          memory' = placeAll elf_buf headers (ph.place elf_buf memory) ∧
            (ph.Copied → ph.offset.toNat + ph.file_size.toNat ≤ elf_buf.length) ∧
            ∀ ph ∈ headers, ph.Copied →
              ph.offset.toNat + ph.file_size.toNat ≤ elf_buf.length := by
        intro hph hrest
        obtain ⟨hmemory, hin⟩ := ih hrest
        refine ⟨?_, fun hcopied => absurd hcopied hph, hin⟩
        rwa [ProgramHeader.place_of_not_copied _ _ hph]
      rcases htype : ph.get_type with _ | ⟨_ | _⟩
      · rw [htype] at h
        cases h
      · rw [htype] at h
        by_cases hzero : ph.mem_size = 0
        · simp only [if_pos hzero] at h
          exact hskip (fun hcopied => hcopied.2 hzero) h
        · have hcopied : ph.Copied := ⟨htype, hzero⟩
          simp only [if_neg hzero] at h
          obtain ⟨src, hsrc, hcopy⟩ := bind_eq_ok_iff.1 h
          obtain ⟨rfl, hfile⟩ := indexRange_eq_ok hsrc
          obtain ⟨copied, hwrite, hrest⟩ := bind_eq_ok_iff.1 hcopy
          rw [copyFromSlice, if_pos rfl] at hwrite
          cases hwrite
          obtain ⟨hmemory, hin⟩ := ih hrest
          refine ⟨?_, fun _ => hfile, hin⟩
          rw [ProgramHeader.place_of_copied _ _ hcopied]
          exact hmemory
      · rw [htype] at h
        refine hskip (fun hcopied => ?_) h
        have hload := hcopied.1
        rw [ProgramHeader.IsLoad, htype] at hload
        cases hload

/-- Where all types parse and the file data is in the file, the second pass returns. -/
theorem exists_secondPass_eq_ok
    (htypes : ∀ ph ∈ headers, ph.get_type ≠ none)
    (hfile : ∀ ph ∈ headers, ph.IsLoad →
      ph.offset.toNat + ph.file_size.toNat < 2 ^ 64 ∧
        ph.offset.toNat + ph.file_size.toNat ≤ elf_buf.length) :
    ∃ memory', secondPass profile elf_buf headers memory = .ok memory' := by
  induction headers generalizing memory with
  | nil => exact ⟨memory, rfl⟩
  | cons ph headers ih =>
      have ih' := fun memory => @ih memory (fun q hq => htypes q (List.mem_cons_of_mem _ hq))
        (fun q hq => hfile q (List.mem_cons_of_mem _ hq))
      rw [secondPass]
      rcases htype : ph.get_type with _ | ⟨_ | _⟩
      · exact absurd htype (htypes ph (by simp))
      · by_cases hzero : ph.mem_size = 0
        · simpa only [if_pos hzero] using ih' memory
        · obtain ⟨hfits, hin⟩ := hfile ph (by simp) htype
          simpa only [if_neg hzero, indexRange_of_le hfits hin, copyFromSlice, if_true, bind,
            Except.bind] using ih' _
      · exact ih' memory

/-- The second pass writes the targets of the copied segments. -/
theorem mem_writes_placeAll
    {slice : Slice} :
    slice ∈ (placeAll elf_buf headers memory).writes ↔
      slice ∈ memory.writes ∨ ∃ ph ∈ headers, ph.Copied ∧ slice = ph.target := by
  induction headers generalizing memory with
  | nil => simp [placeAll]
  | cons ph headers ih =>
      rw [placeAll, List.foldl_cons, ← placeAll, ih]
      by_cases hph : ph.Copied
      · simp only [ProgramHeader.place_of_copied _ _ hph, LoggedMemory.writes_write,
          List.mem_append, List.mem_cons, List.not_mem_nil, or_false, exists_eq_or_imp, hph,
          true_and, or_assoc]
      · simp only [ProgramHeader.place_of_not_copied _ _ hph, List.mem_cons, exists_eq_or_imp,
          hph, false_and, false_or]

/-- An address outside all targets keeps its byte. -/
theorem bytes_placeAll_of_not_contains
    {addr : Nat}
    (hout : ∀ ph ∈ headers, ph.Copied → ¬ ph.target.Contains addr) :
    (placeAll elf_buf headers memory).bytes addr = memory.bytes addr := by
  induction headers generalizing memory with
  | nil => rfl
  | cons ph headers ih =>
      rw [placeAll, List.foldl_cons, ← placeAll,
        ih (fun q hq => hout q (List.mem_cons_of_mem _ hq))]
      by_cases hph : ph.Copied
      · rw [ProgramHeader.place_of_copied _ _ hph]
        exact LoggedMemory.bytes_write_of_not_contains (hout ph (by simp) hph)
      · rw [ProgramHeader.place_of_not_copied _ _ hph]

/-- Where the targets are apart from each other and from the file, each of them receives
the file data of its segment. -/
theorem bytes_placeAll_of_contains
    (hapart : headers.Pairwise fun q q' => q.Copied → q'.Copied → q.target.Apart q'.target)
    (hbuf : ∀ q ∈ headers, q.Copied → q.target.Apart elf_buf)
    (hfile : ∀ q ∈ headers, q.Copied → q.offset.toNat + q.file_size.toNat ≤ elf_buf.length)
    (hph : ph ∈ headers) (hcopied : ph.Copied)
    {i : Nat}
    (hi : i < ph.file_size.toNat) :
    (placeAll elf_buf headers memory).bytes (ph.physical_addr.toNat + i) =
      memory.bytes (elf_buf.address + ph.offset.toNat + i) := by
  have htarget : ph.target.Contains (ph.physical_addr.toNat + i) :=
    ⟨Nat.le_add_right _ _, Nat.add_lt_add_left hi _⟩
  induction headers generalizing memory with
  | nil => cases hph
  | cons q headers ih =>
      obtain ⟨hq, hrest⟩ := List.pairwise_cons.1 hapart
      rw [placeAll, List.foldl_cons, ← placeAll]
      rcases List.mem_cons.1 hph with rfl | hin
      · -- the later rounds leave the data of this one alone
        rw [bytes_placeAll_of_not_contains (fun q' hq' hcopied' hboth =>
            hq q' hq' hcopied hcopied' _ ⟨htarget, hboth⟩),
          ProgramHeader.place_of_copied _ _ hcopied,
          LoggedMemory.bytes_write_of_contains htarget, ProgramHeader.target,
          Nat.add_sub_cancel_left]
      · rw [ih hrest (fun q' hq' => hbuf q' (List.mem_cons_of_mem _ hq'))
            (fun q' hq' => hfile q' (List.mem_cons_of_mem _ hq')) hin]
        by_cases hqc : q.Copied
        · -- an earlier round has not touched the file
          have hbound := hfile ph hph hcopied
          have hsrc : elf_buf.Contains (elf_buf.address + ph.offset.toNat + i) := by
            unfold Slice.Contains
            omega
          rw [ProgramHeader.place_of_copied _ _ hqc]
          exact LoggedMemory.bytes_write_of_not_contains
            (fun hboth => hbuf q (by simp) hqc _ ⟨hboth, hsrc⟩)
        · rw [ProgramHeader.place_of_not_copied _ _ hqc]

end SecondPass

end Loader
end OpenKernel
