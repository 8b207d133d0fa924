import OpenKernel.PageMapper

/-!
# The kernel heap

`init_heap` walks over the pages of the heap range, takes a frame for each and
has the mapper map it; the range goes to the global allocator at the end.  Like
`map_to` it is generic in the allocator, so it is a program that asks for frames.

The paging library promises its part only for fresh frames.  That the kernel's
allocator gives no others is the contract of `FrameAllocator`, and is proved here.

Main facts:

* `mapPages_accounts`: where all the frames go, for any answers of any allocator;
* `heap_init_outcome`: the setup never panics, succeeds whenever the firmware
  reports 256 conventional pages, and fails only when all of them are gone;
* `heap_bytes_backed`: distinct addresses of the heap are distinct bytes of
  conventional memory, none of them in a new page table.
-/

namespace OpenKernel
namespace Memory

def HEAP_START : Nat := 0x444444440000

def HEAP_SIZE : Nat := 256 * 1024

/-- What `init_heap` changes: the page tables, and the range that the global allocator
manages (`None` for `LockedHeap::empty()`). -/
structure HeapState (M : Mapper) where
  mapper : M.State
  heap : Option (Nat × Nat)

/-- The pages of the loop of `init_heap`. -/
def heapPages : List Page :=
  let heap_start := HEAP_START
  let heap_end := heap_start + HEAP_SIZE - 1
  Page.rangeInclusive (Page.containingAddress heap_start) (Page.containingAddress heap_end)

def heapFlags : PageTableFlags :=
  PageTableFlags.PRESENT.union PageTableFlags.WRITABLE

/-- The loop of `init_heap`. -/
def mapPages (M : Mapper) :
    List Page → M.State → FrameClient (Except MapToError Unit × M.State)
  | [], mapper => .done (.ok (), mapper)
  | page :: pages, mapper => .ask fun answer =>
      match answer with
      | none => .done (.error .FrameAllocationFailed, mapper)
      | some frame => (M.map_to mapper page frame heapFlags).andThen (mapPages M pages)

def initHeap (M : Mapper) (st : HeapState M) :
    FrameClient (Except MapToError Unit × HeapState M) :=
  (mapPages M heapPages st.mapper).bind fun (result, mapper) =>
    match result with
    | .ok () => .done (.ok (), ⟨mapper, some (HEAP_START, HEAP_SIZE)⟩)
    | .error e => .done (.error e, ⟨mapper, st.heap⟩)

section Accounts

variable {M : Mapper}

/-- Where frames went: into mappings, into page tables, or nowhere because the mapping failed. -/
structure FrameLedger where
  mapped : List PhysFrame
  tables : List PhysFrame
  lost : List PhysFrame

/-- All the frames, in no particular order. -/
def FrameLedger.frames (ledger : FrameLedger) : List PhysFrame :=
  ledger.mapped ++ ledger.tables ++ ledger.lost

/-- The ledger of a setup of `pages`, given the answers of the allocator. -/
structure FrameLedger.Accounts (ledger : FrameLedger) (M : Mapper) (pages : List Page)
    (before after : M.State) (answers : List (Option PhysFrame))
    (result : Except MapToError Unit) : Prop where
  answered : answers.reduceOption.Perm ledger.frames
  tables : M.tables after = M.tables before ++ ledger.tables
  entries : ∀ i : Nat, pages[i]?.bind (M.entry after) =
    ledger.mapped[i]?.map fun frame => (frame, heapFlags)
  others : ∀ page ∉ pages, M.entry after page = M.entry before page
  finished : result = .ok () → ledger.mapped.length = pages.length ∧ ledger.lost = [] ∧
    none ∉ answers
  failed : ∀ e, result = .error e → e = .FrameAllocationFailed ∧ none ∈ answers ∧
    ledger.lost.length ≤ 1

theorem accounts_nil
    (mapper : M.State) :
    FrameLedger.Accounts ⟨[], [], []⟩ M [] mapper mapper [] (.ok ()) where
  answered := .refl _
  tables := (List.append_nil _).symm
  entries := fun i => by simp
  others := fun page _ => rfl
  finished := fun _ => ⟨rfl, rfl, by simp⟩
  failed := fun e h => by cases h

/-- The allocator has nothing for the next page. -/
theorem accounts_none
    {pages : List Page} {mapper : M.State}
    (hunmapped : ∀ page ∈ pages, M.entry mapper page = none) :
    FrameLedger.Accounts ⟨[], [], []⟩ M pages mapper mapper [none]
      (.error .FrameAllocationFailed) where
  answered := .refl _
  tables := (List.append_nil _).symm
  entries := by
    intro i
    rcases hpage : pages[i]? with _ | page
    · rfl
    · exact hunmapped page (List.mem_of_getElem? hpage)
  others := fun page _ => rfl
  finished := fun h => by cases h
  failed := fun e h => by
    cases h
    exact ⟨rfl, by simp, Nat.zero_le 1⟩

/-- The mapping of the next page fails. -/
theorem accounts_failed
    {page : Page} {pages : List Page} {mapper mapper' : M.State} {frame : PhysFrame}
    {answers : List (Option PhysFrame)} {e : MapToError}
    (hnew : page ∉ pages)
    (hunmapped : ∀ page ∈ pages, M.entry mapper page = none)
    (hmaps : M.MapsTo mapper mapper' page frame heapFlags answers (.error e)) :
    FrameLedger.Accounts ⟨[], answers.reduceOption, [frame]⟩ M (page :: pages) mapper mapper'
      (some frame :: answers) (.error e) where
  answered := by
    rw [List.reduceOption_cons_of_some]
    exact (List.perm_append_singleton frame answers.reduceOption).symm
  tables := hmaps.tables
  entries := by
    intro i
    rcases hpage : (page :: pages)[i]? with _ | page'
    · rfl
    · rcases List.mem_cons.1 (List.mem_of_getElem? hpage) with rfl | hin
      · exact (hmaps.failed e rfl).1
      · have hne : page' ≠ page := fun h => hnew (h ▸ hin)
        exact (hmaps.others page' hne).trans (hunmapped page' hin)
  others := fun page' hout => hmaps.others page' fun h => hout (h ▸ List.mem_cons_self)
  finished := fun h => by cases h
  failed := fun e' h => by
    cases h
    obtain ⟨-, he, hnone⟩ := hmaps.failed e rfl
    exact ⟨he, List.mem_cons_of_mem _ hnone, Nat.le_refl 1⟩

/-- The next page is mapped, and the others are accounted for. -/
theorem accounts_cons
    {page : Page} {pages : List Page} {mapper between after : M.State} {frame : PhysFrame}
    {first second : List (Option PhysFrame)} {result : Except MapToError Unit}
    {ledger : FrameLedger}
    (hnew : page ∉ pages)
    (hmaps : M.MapsTo mapper between page frame heapFlags first (.ok ()))
    (h : ledger.Accounts M pages between after second result) :
    FrameLedger.Accounts
      ⟨frame :: ledger.mapped, first.reduceOption ++ ledger.tables, ledger.lost⟩ M
      (page :: pages) mapper after (some frame :: (first ++ second)) result where
  answered := by
    have hperm : (first.reduceOption ++ second.reduceOption).Perm
        (ledger.mapped ++ (first.reduceOption ++ ledger.tables) ++ ledger.lost) := by
      have hrest : (first.reduceOption ++ second.reduceOption).Perm
          (first.reduceOption ++ ledger.frames) := h.answered.append_left _
      refine hrest.trans ?_
      rw [FrameLedger.frames, ← List.append_assoc, ← List.append_assoc, ← List.append_assoc]
      exact (List.perm_append_comm.append_right ledger.tables).append_right ledger.lost
    rw [List.reduceOption_cons_of_some, List.reduceOption_append]
    exact hperm.cons frame
  tables := by
    rw [h.tables, hmaps.tables, List.append_assoc]
  entries := by
    intro i
    cases i with
    | zero => exact (h.others page hnew).trans (hmaps.mapped rfl).1
    | succ i => exact h.entries i
  others := by
    intro page' hout
    obtain ⟨hne, hin⟩ := not_or.1 (mt List.mem_cons.2 hout)
    exact (h.others page' hin).trans (hmaps.others page' hne)
  finished := by
    intro hok
    obtain ⟨hlen, hlost, hnone⟩ := h.finished hok
    refine ⟨congrArg (· + 1) hlen, hlost, ?_⟩
    simpa using ⟨(hmaps.mapped rfl).2, hnone⟩
  failed := by
    intro e he
    obtain ⟨hfailed, hnone, hlost⟩ := h.failed e he
    exact ⟨hfailed, by simp [hnone], hlost⟩

/-- However the allocator answers, as long as its frames are fresh. -/
theorem mapPages_accounts
    (hdoc : M.Documented)
    {pages : List Page} {mapper after : M.State}
    {answers : List (Option PhysFrame)} {result : Except MapToError Unit}
    (hnodup : pages.Nodup)
    (hfree : ∀ page ∈ pages, M.Free mapper page)
    (hfresh : M.Fresh mapper answers.reduceOption)
    (h : (mapPages M pages mapper).Returns answers (result, after)) :
    ∃ ledger : FrameLedger, ledger.Accounts M pages mapper after answers result := by
  induction pages generalizing mapper answers with
  | nil =>
      obtain ⟨rfl, hresult⟩ := Client.returns_done_iff.1 h
      cases hresult
      exact ⟨_, accounts_nil _⟩
  | cons page pages ih =>
      obtain ⟨hnew, hnodup'⟩ := List.nodup_cons.1 hnodup
      have hunmapped : ∀ page' ∈ page :: pages, M.entry mapper page' = none :=
        fun page' hin => hdoc.unmapped mapper page' (hfree page' hin)
      have hpage : M.Free mapper page := hfree page List.mem_cons_self
      obtain ⟨answer, answers', rfl, hrest⟩ := Client.returns_ask_iff.1 h
      cases answer with
      | none =>
          obtain ⟨rfl, hresult⟩ := Client.returns_done_iff.1 hrest
          cases hresult
          exact ⟨_, accounts_none hunmapped⟩
      | some frame =>
          rw [List.reduceOption_cons_of_some] at hfresh
          rcases Client.returns_andThen_iff.1 hrest with
            ⟨e, rfl, hfail⟩ | ⟨first, second, between, rfl, hfirst, hsecond⟩
          · have hmaps := hdoc.maps _ _ _ _ _ _ _ hfail hpage hfresh
            exact ⟨_, accounts_failed hnew
              (fun page' hin => hunmapped page' (List.mem_cons_of_mem page hin)) hmaps⟩
          · rw [List.reduceOption_append] at hfresh
            have husable : M.Fresh mapper (frame :: first.reduceOption) :=
              hfresh.sublist ((List.sublist_append_left _ _).cons_cons frame)
            have hmaps := hdoc.maps _ _ _ _ _ _ _ hfirst hpage husable
            have hfree' : ∀ page' ∈ pages, M.Free between page' := by
              intro page' hin
              have hne : page' ≠ page := fun h => hnew (h ▸ hin)
              exact hmaps.free page' hne (hfree page' (List.mem_cons_of_mem page hin))
            have hfresh' : M.Fresh between second.reduceOption :=
              (hfresh.sublist (List.sublist_cons_self frame _)).after hmaps.tables
            obtain ⟨ledger, hledger⟩ := ih hnodup' hfree' hfresh' hsecond
            exact ⟨_, accounts_cons hnew hmaps hledger⟩

theorem bounded_mapPages
    (hdoc : M.Documented)
    (pages : List Page) (mapper : M.State) :
    (mapPages M pages mapper).Bounded (4 * pages.length) := by
  induction pages generalizing mapper with
  | nil => exact .done _ _
  | cons page pages ih =>
      have hall : (mapPages M (page :: pages) mapper).Bounded (3 + 4 * pages.length + 1) := by
        refine .ask ?_
        rintro (_ | frame)
        · exact .done _ _
        · exact (hdoc.bounded mapper page frame heapFlags).andThen ih
      exact hall.mono (by simp only [List.length_cons]; omega)

end Accounts

section BootAllocator

variable {map : MemoryMap}

theorem allocateFrame_eq_ok
    (h : GoodAddrs (usableAddrs map))
    {next : Nat}
    (hnext : next + 1 < 2 ^ 64) :
    BootInfoFrameAllocator.allocateFrame ⟨map, next⟩ =
      .ok ((usableAddrs map)[next]?.map PhysFrame.mk, ⟨map, next + 1⟩) := by
  simp only [BootInfoFrameAllocator.allocateFrame, nthFrame_eq_ok h, bind, Except.bind, pure,
    Except.pure, if_pos hnext]

/-- The allocator answers with the usable addresses in order, whoever asks. -/
theorem serves_allocateFrame
    (h : GoodAddrs (usableAddrs map))
    {allocator allocator' : BootInfoFrameAllocator} {answers : List (Option PhysFrame)}
    (hmap : allocator.memory_map = map)
    (hserves : Client.Serves BootInfoFrameAllocator.allocateFrame allocator answers allocator') :
    answers = (List.range' allocator.next answers.length).map
        (fun i => ((usableAddrs map).map PhysFrame.mk)[i]?) ∧
      allocator' = ⟨map, allocator.next + answers.length⟩ := by
  induction hserves with
  | nil allocator =>
      subst hmap
      exact ⟨rfl, rfl⟩
  | @cons allocator between last answer answers hfirst _ ih =>
      subst hmap
      have hnext : allocator.next + 1 < 2 ^ 64 := by
        by_contra hfull
        simp only [BootInfoFrameAllocator.allocateFrame, nthFrame_eq_ok h, bind, Except.bind,
          if_neg hfull, throw, throwThe, MonadExceptOf.throw] at hfirst
        cases hfirst
      have hstep := (allocateFrame_eq_ok h hnext).symm.trans hfirst
      injection hstep with hpair
      injection hpair with hanswer hbetween
      obtain ⟨hrest, hlast⟩ := ih (by rw [← hbetween])
      refine ⟨?_, ?_⟩
      · rw [List.length_cons, List.range'_succ, List.map_cons, List.getElem?_map, hanswer]
        rw [← hbetween] at hrest
        exact congrArg (answer :: ·) hrest
      · rw [hlast, ← hbetween, List.length_cons, Nat.add_assoc, Nat.add_comm 1]

/-- The number of conventional pages in the descriptors that the kernel's map has room for. -/
def bootPageCount (descs : List MemoryDescriptor) : Nat :=
  (((descs.take REGIONS).filter (fun desc => desc.ty = CONVENTIONAL)).map
    (fun desc => desc.page_count.toNat)).sum

theorem length_frameAddrs_exactRegion
    {desc : MemoryDescriptor}
    (h : desc.physEnd < 2 ^ 64) :
    desc.exactRegion.frameAddrs.length = desc.page_count.toNat := by
  have hend : desc.exactRegion.range.end_addr.toNat = desc.physEnd := toNat_end_addr h
  have hstart : desc.exactRegion.range.start_addr = desc.phys_start := rfl
  rw [MemoryRegion.frameAddrs, List.length_range', hend, hstart]
  unfold MemoryDescriptor.physEnd
  omega

theorem length_usableAddrs
    {descs : List MemoryDescriptor}
    (hfw : FirmwareMap descs)
    (hiter : map.iter = (descs.take REGIONS).map MemoryDescriptor.exactRegion) :
    (usableAddrs map).length = bootPageCount descs := by
  rw [usableAddrs_eq hiter, List.length_flatMap, bootPageCount]
  refine congrArg List.sum (List.map_congr_left fun desc hdesc => ?_)
  have hin : desc ∈ descs := List.mem_of_mem_take (List.mem_filter.1 hdesc).1
  have := hfw.below desc hin
  exact length_frameAddrs_exactRegion (by omega)

end BootAllocator

section HeapRange

/-- `addr` is an address of the heap. -/
def InHeap (addr : Nat) : Prop :=
  HEAP_START ≤ addr ∧ addr < HEAP_START + HEAP_SIZE

theorem heapPages_eq :
    heapPages = (List.range' HEAP_START 64 4096).map Page.mk := rfl

theorem length_heapPages :
    heapPages.length = 64 := by
  rw [heapPages_eq, List.length_map, List.length_range']

theorem nodup_heapPages :
    heapPages.Nodup := by
  have hinj : Function.Injective Page.mk := fun _ _ h => congrArg Page.start_address h
  exact (List.nodup_range' 4096 (by decide)).map hinj

/-- The page of a heap address is the page of the loop that its offset gives. -/
theorem getElem?_heapPages
    {addr : Nat}
    (h : InHeap addr) :
    heapPages[(addr - HEAP_START) / 4096]? = some (Page.containingAddress addr) := by
  obtain ⟨hstart, hend⟩ := h
  unfold HEAP_SIZE at hend
  unfold HEAP_START at *
  have hlt : (addr - 0x444444440000) / 4096 < 64 := by omega
  rw [heapPages_eq, List.getElem?_map]
  unfold HEAP_START
  rw [List.getElem?_range' hlt]
  unfold Page.containingAddress
  simp only [Option.map_some, Option.some.injEq, Page.mk.injEq]
  omega

end HeapRange

section InitHeap

variable {M : Mapper} {descs : List MemoryDescriptor} {map : MemoryMap}

theorem bounded_initHeap
    (hdoc : M.Documented)
    (st : HeapState M) :
    (initHeap M st).Bounded 256 := by
  have hloop : (mapPages M heapPages st.mapper).Bounded 256 := by
    have hall := bounded_mapPages hdoc heapPages st.mapper
    rwa [length_heapPages] at hall
  have hall : (initHeap M st).Bounded (256 + 0) := by
    refine hloop.bind ?_
    rintro ⟨e | value, mapper⟩
    · exact .done _ 0
    · exact .done _ 0
  exact hall

/-- The global allocator gets the range after the last page, and not at all when a page fails. -/
theorem returns_initHeap
    {st after : HeapState M} {answers : List (Option PhysFrame)}
    {result : Except MapToError Unit}
    (h : (initHeap M st).Returns answers (result, after)) :
    (mapPages M heapPages st.mapper).Returns answers (result, after.mapper) ∧
      (result = .ok () → after.heap = some (HEAP_START, HEAP_SIZE)) ∧
      ∀ e, result = .error e → after.heap = st.heap := by
  obtain ⟨first, second, ⟨e | value, mapper⟩, rfl, hfirst, hsecond⟩ := Client.returns_bind_iff.1 h
  · obtain ⟨rfl, hresult⟩ := Client.returns_done_iff.1 hsecond
    cases hresult
    exact ⟨by simpa using hfirst, fun h => (by cases h), fun _ _ => rfl⟩
  · obtain ⟨rfl, hresult⟩ := Client.returns_done_iff.1 hsecond
    cases hresult
    exact ⟨by simpa using hfirst, fun _ => rfl, fun _ h => (by cases h)⟩

/-- The page tables of the firmware do not lie in conventional memory. -/
def Mapper.Apart (M : Mapper) (mapper : M.State) (descs : List MemoryDescriptor) : Prop :=
  ∀ table ∈ M.tables mapper, ∀ desc ∈ descs, desc.ty = CONVENTIONAL →
    ∀ addr, table.start_address ≤ addr → addr < table.start_address + 4096 →
      ¬ desc.Contains addr

/-- The frames that the allocator gives are what its contract demands. -/
theorem fresh_of_exactResults
    {mapper : M.State} {answers : List (Option PhysFrame)}
    (hapart : M.Apart mapper descs)
    (h : ExactResults descs map answers) :
    M.Fresh mapper answers.reduceOption := by
  refine ⟨h.distinct, fun frame hframe htable => ?_⟩
  obtain ⟨-, desc, hdesc, hty, hstart, hend⟩ := h.inside frame hframe
  exact hapart frame htable desc hdesc hty frame.start_address (Nat.le_refl _) (by omega)
    ⟨hstart, by omega⟩

/-- A run of the setup on the kernel's own allocator, with everything that is known of it. -/
structure HeapRun (M : Mapper) (descs : List MemoryDescriptor) (map : MemoryMap)
    (mapper : M.State) (answers : List (Option PhysFrame)) (result : Except MapToError Unit)
    (after : HeapState M) (ledger : FrameLedger) : Prop where
  answers_eq : answers =
    (List.range answers.length).map (fun i => ((usableAddrs map).map PhysFrame.mk)[i]?)
  length_le : answers.length ≤ 256
  exact : ExactResults descs map answers
  accounts : ledger.Accounts M heapPages mapper after.mapper answers result
  heap_ok : result = .ok () → after.heap = some (HEAP_START, HEAP_SIZE)
  heap_error : ∀ e, result = .error e → after.heap = none

theorem heapRun_of_run
    (hdoc : M.Documented)
    (hfw : FirmwareMap descs)
    (hiter : map.iter = (descs.take REGIONS).map MemoryDescriptor.exactRegion)
    {mapper : M.State}
    (hfree : ∀ page ∈ heapPages, M.Free mapper page)
    (hapart : M.Apart mapper descs)
    {result : Except MapToError Unit} {after : HeapState M}
    {allocator : BootInfoFrameAllocator}
    (hrun : (initHeap M ⟨mapper, none⟩).run BootInfoFrameAllocator.allocateFrame (.init map) =
      .ok ((result, after), allocator)) :
    ∃ answers ledger, HeapRun M descs map mapper answers result after ledger := by
  have hgood := goodAddrs_usableAddrs hfw hiter
  obtain ⟨answers, hserves, hreturns⟩ := Client.run_eq_ok_iff.1 hrun
  obtain ⟨hanswers, -⟩ := serves_allocateFrame hgood rfl hserves
  have hlookups : answers =
      (List.range answers.length).map (fun i => ((usableAddrs map).map PhysFrame.mk)[i]?) := by
    rw [List.range_eq_range']
    exact hanswers
  have hexact : ExactResults descs map answers := exactResults_of_lookups hfw hiter hlookups
  obtain ⟨hloop, hok, herror⟩ := returns_initHeap hreturns
  obtain ⟨ledger, hledger⟩ := mapPages_accounts hdoc nodup_heapPages hfree
    (fresh_of_exactResults hapart hexact) hloop
  exact ⟨answers, ledger, hlookups, (bounded_initHeap hdoc _).length_le hreturns, hexact, hledger,
    hok, herror⟩

variable {mapper : M.State} {answers : List (Option PhysFrame)}
  {result : Except MapToError Unit} {after : HeapState M} {ledger : FrameLedger}

namespace HeapRun

theorem nodup_frames
    (h : HeapRun M descs map mapper answers result after ledger) :
    ledger.frames.Nodup :=
  h.accounts.answered.nodup_iff.1 h.exact.distinct

theorem inside
    (h : HeapRun M descs map mapper answers result after ledger)
    {frame : PhysFrame}
    (hframe : frame ∈ ledger.frames) :
    frame.start_address % 4096 = 0 ∧ ∃ desc ∈ descs, desc.ty = CONVENTIONAL ∧
      desc.phys_start.toNat ≤ frame.start_address ∧
      frame.start_address + 4096 ≤ desc.physEnd :=
  h.exact.inside frame (h.accounts.answered.mem_iff.2 hframe)

/-- The setup cannot fail while there are 256 pages. -/
theorem eq_ok
    (h : HeapRun M descs map mapper answers result after ledger)
    (hpages : 256 ≤ (usableAddrs map).length) :
    result = .ok () := by
  rcases hresult : result with e | value
  · obtain ⟨-, hnone, -⟩ := h.accounts.failed e hresult
    rw [h.answers_eq] at hnone
    obtain ⟨i, hi, hlookup⟩ := List.mem_map.1 hnone
    have hlen := h.length_le
    have hlt := List.mem_range.1 hi
    rw [List.getElem?_eq_none_iff, List.length_map] at hlookup
    omega
  · rfl

/-- When it fails, no page of the usable regions is left. -/
theorem mem_frames_of_error
    (h : HeapRun M descs map mapper answers result after ledger)
    {e : MapToError}
    (hresult : result = .error e)
    {region : MemoryRegion} {page : Nat}
    (hregion : region ∈ map.iter)
    (husable : region.region_type = .Usable)
    (hpage : region.HasPage page) :
    PhysFrame.mk page ∈ ledger.frames := by
  obtain ⟨-, hnone, -⟩ := h.accounts.failed e hresult
  obtain ⟨i, hi⟩ := List.mem_iff_getElem?.1 hnone
  have hcount := h.exact.exhausted i hi region hregion husable page hpage
  have hbefore : PhysFrame.mk page ∈ (answers.take i).reduceOption :=
    List.count_pos_iff.1 (by rw [hcount]; exact Nat.zero_lt_one)
  have hsub : ((answers.take i).reduceOption).Sublist answers.reduceOption :=
    List.Sublist.filterMap id (List.take_sublist i answers)
  exact h.accounts.answered.mem_iff.1 (hsub.subset hbefore)

end HeapRun

/-- The run exists: the allocator answers as often as it is asked. -/
theorem exists_heapRun
    (hdoc : M.Documented)
    (profile : Profile)
    (hfw : FirmwareMap descs)
    {mapper : M.State}
    (hfree : ∀ page ∈ heapPages, M.Free mapper page)
    (hapart : M.Apart mapper descs) :
    ∃ map result after allocator answers ledger,
      bootMemoryMap profile descs = .ok map ∧
      (usableAddrs map).length = bootPageCount descs ∧
      (initHeap M ⟨mapper, none⟩).run BootInfoFrameAllocator.allocateFrame (.init map) =
        .ok ((result, after), allocator) ∧
      HeapRun M descs map mapper answers result after ledger := by
  have hend : ∀ desc ∈ descs, desc.physEnd < 2 ^ 64 := by
    intro desc hdesc
    have := hfw.below desc hdesc
    omega
  obtain ⟨map, hmap, hiter⟩ := bootMemoryMap_spec profile hend
  have hgood := goodAddrs_usableAddrs hfw hiter
  have hserver : ∀ answers allocator,
      Client.Serves BootInfoFrameAllocator.allocateFrame (.init map) answers allocator →
      answers.length < 256 →
      ∃ answer allocator', allocator.allocateFrame = .ok (answer, allocator') := by
    intro answers allocator hserves hlt
    obtain ⟨-, rfl⟩ := serves_allocateFrame hgood rfl hserves
    have hnext : (BootInfoFrameAllocator.init map).next + answers.length + 1 < 2 ^ 64 := by
      have hzero : (BootInfoFrameAllocator.init map).next = 0 := rfl
      omega
    exact ⟨_, _, allocateFrame_eq_ok hgood hnext⟩
  obtain ⟨⟨result, after⟩, allocator, hrun⟩ :=
    Client.exists_run_eq_ok (bounded_initHeap hdoc ⟨mapper, none⟩) hserver
  obtain ⟨answers, ledger, h⟩ := heapRun_of_run hdoc hfw hiter hfree hapart hrun
  exact ⟨map, result, after, allocator, answers, ledger, hmap, length_usableAddrs hfw hiter, hrun,
    h⟩

/-- The heap setup of the boot: no panic, success while there are 256 conventional pages, and
every frame that was taken is accounted for. -/
theorem heap_init_outcome
    (M : Mapper)
    (hdoc : M.Documented)
    (profile : Profile) (descs : List MemoryDescriptor)
    (hfw : FirmwareMap descs)
    (mapper : M.State)
    (hfree : ∀ page ∈ heapPages, M.Free mapper page)
    (hapart : M.Apart mapper descs) :
    ∃ map result after allocator,
      bootMemoryMap profile descs = .ok map ∧
      (initHeap M ⟨mapper, none⟩).run BootInfoFrameAllocator.allocateFrame (.init map) =
        .ok ((result, after), allocator) ∧
      (256 ≤ bootPageCount descs → result = .ok ()) ∧
      ∃ ledger : FrameLedger,
        M.tables after.mapper = M.tables mapper ++ ledger.tables ∧
        (∀ i : Nat, heapPages[i]?.bind (M.entry after.mapper) =
          ledger.mapped[i]?.map fun frame => (frame, heapFlags)) ∧
        (∀ page ∉ heapPages, M.entry after.mapper page = M.entry mapper page) ∧
        ledger.frames.Nodup ∧
        (∀ frame ∈ ledger.frames, frame.start_address % 4096 = 0 ∧
          ∃ desc ∈ descs, desc.ty = CONVENTIONAL ∧
            desc.phys_start.toNat ≤ frame.start_address ∧
            frame.start_address + 4096 ≤ desc.physEnd) ∧
        (result = .ok () ∧ after.heap = some (HEAP_START, HEAP_SIZE) ∧
            ledger.mapped.length = 64 ∧ ledger.lost = [] ∨
          result = .error .FrameAllocationFailed ∧ after.heap = none ∧ ledger.lost.length ≤ 1 ∧
            ∀ region ∈ map.iter, region.region_type = .Usable →
              ∀ page, region.HasPage page → PhysFrame.mk page ∈ ledger.frames) := by
  obtain ⟨map, result, after, allocator, answers, ledger, hmap, hpages, hrun, h⟩ :=
    exists_heapRun hdoc profile hfw hfree hapart
  refine ⟨map, result, after, allocator, hmap, hrun, ?_, ledger, h.accounts.tables,
    h.accounts.entries, h.accounts.others, h.nodup_frames, fun frame hframe => h.inside hframe, ?_⟩
  · intro henough
    exact h.eq_ok (by rwa [hpages])
  · rcases hresult : result with e | value
    · obtain ⟨rfl, -, hlost⟩ := h.accounts.failed e hresult
      exact .inr ⟨rfl, h.heap_error _ hresult, hlost, fun region hregion husable page hpage =>
        h.mem_frames_of_error hresult hregion husable hpage⟩
    · obtain ⟨hmapped, hlost, -⟩ := h.accounts.finished hresult
      exact .inl ⟨rfl, h.heap_ok hresult, hmapped.trans length_heapPages, hlost⟩

/-- 512 conventional pages from the first megabyte on. -/
def roomyFirmwareMap : List MemoryDescriptor :=
  [⟨CONVENTIONAL, 0x100000, 512⟩]

theorem firmwareMap_roomyFirmwareMap :
    FirmwareMap roomyFirmwareMap where
  aligned := by simp [roomyFirmwareMap]
  below := by simp [roomyFirmwareMap, MemoryDescriptor.physEnd]
  disjoint := List.pairwise_singleton _ _

/-- Where the setup on this map gets its frames from, in either build: three tables are made
while the first page is mapped. -/
theorem roomy_frames
    {profile : Profile} {map : MemoryMap} {result : Except MapToError Unit}
    {after : HeapState FourLevels.mapper} {allocator : BootInfoFrameAllocator}
    (hmap : bootMemoryMap profile roomyFirmwareMap = .ok map)
    (hrun : (initHeap FourLevels.mapper ⟨FourLevels.empty, none⟩).run
      BootInfoFrameAllocator.allocateFrame (.init map) = .ok ((result, after), allocator)) :
    FourLevels.mapper.tables after.mapper = [⟨0x101000⟩, ⟨0x102000⟩, ⟨0x103000⟩] ∧
      FourLevels.mapper.entry after.mapper ⟨HEAP_START⟩ = some (⟨0x100000⟩, heapFlags) ∧
      FourLevels.mapper.entry after.mapper ⟨HEAP_START + 0x1000⟩ =
        some (⟨0x104000⟩, heapFlags) := by
  have hframes : (bootMemoryMap profile roomyFirmwareMap).toOption.bind (fun map =>
      ((initHeap FourLevels.mapper ⟨FourLevels.empty, none⟩).run
        BootInfoFrameAllocator.allocateFrame (.init map)).toOption.map fun done =>
          (done.1.2.mapper.frames, done.1.2.mapper.leaf ⟨HEAP_START⟩,
            done.1.2.mapper.leaf ⟨HEAP_START + 0x1000⟩)) =
      some ([⟨0x101000⟩, ⟨0x102000⟩, ⟨0x103000⟩], some (⟨0x100000⟩, heapFlags),
        some (⟨0x104000⟩, heapFlags)) := by
    cases profile <;> decide +kernel
  rw [hmap, Except.toOption, Option.bind_some, hrun] at hframes
  simp only [Except.toOption, Option.map_some, Option.some.injEq, Prod.mk.injEq] at hframes
  exact hframes

/-- The setup on this map succeeds, and its first pages lie in these frames. -/
theorem heap_init_outcome_roomy :
    ∃ map after allocator,
      bootMemoryMap .dev roomyFirmwareMap = .ok map ∧
      (initHeap FourLevels.mapper ⟨FourLevels.empty, none⟩).run
          BootInfoFrameAllocator.allocateFrame (.init map) =
        .ok ((.ok (), after), allocator) ∧
      FourLevels.mapper.tables after.mapper = [⟨0x101000⟩, ⟨0x102000⟩, ⟨0x103000⟩] ∧
      FourLevels.mapper.entry after.mapper ⟨HEAP_START⟩ = some (⟨0x100000⟩, heapFlags) ∧
      FourLevels.mapper.entry after.mapper ⟨HEAP_START + 0x1000⟩ =
        some (⟨0x104000⟩, heapFlags) ∧
      after.heap = some (HEAP_START, HEAP_SIZE) := by
  obtain ⟨map, result, after, allocator, hmap, hrun, henough, ledger, -, -, -, -, -, hend⟩ :=
    heap_init_outcome FourLevels.mapper FourLevels.documented .dev roomyFirmwareMap
      firmwareMap_roomyFirmwareMap FourLevels.empty (fun _ _ => rfl) (fun _ h => nomatch h)
  obtain rfl : result = .ok () := henough (by decide)
  obtain ⟨htables, hfirst, hsecond⟩ := roomy_frames hmap hrun
  rcases hend with ⟨-, hheap, -⟩ | ⟨hfailed, -⟩
  · exact ⟨map, after, allocator, hmap, hrun, htables, hfirst, hsecond, hheap⟩
  · cases hfailed

end InitHeap

section HeapBytes

variable {M : Mapper} {descs : List MemoryDescriptor} {map : MemoryMap}
  {mapper : M.State} {answers : List (Option PhysFrame)} {after : HeapState M}
  {ledger : FrameLedger}

/-- The physical address that the tables give for a virtual one. -/
def Mapper.physical (M : Mapper) (mapper : M.State) (addr : Nat) : Option Nat :=
  (M.entry mapper (Page.containingAddress addr)).map fun (frame, _) =>
    frame.start_address + addr % 4096

/-- The frame under a heap address is the one that the ledger has for its page. -/
theorem HeapRun.physical_eq
    (h : HeapRun M descs map mapper answers (.ok ()) after ledger)
    {addr : Nat}
    (haddr : InHeap addr) :
    ∃ frame, ledger.mapped[(addr - HEAP_START) / 4096]? = some frame ∧
      M.physical after.mapper addr = some (frame.start_address + addr % 4096) := by
  have hentry := h.accounts.entries ((addr - HEAP_START) / 4096)
  rw [getElem?_heapPages haddr, Option.bind_some] at hentry
  have hlen : ledger.mapped.length = 64 := (h.accounts.finished rfl).1.trans length_heapPages
  have hlt : (addr - HEAP_START) / 4096 < ledger.mapped.length := by
    obtain ⟨-, hend⟩ := haddr
    unfold HEAP_SIZE at hend
    omega
  obtain ⟨frame, hframe⟩ : ∃ frame, ledger.mapped[(addr - HEAP_START) / 4096]? = some frame :=
    ⟨_, List.getElem?_eq_getElem hlt⟩
  rw [hframe] at hentry
  refine ⟨frame, hframe, ?_⟩
  rw [Mapper.physical, hentry]
  rfl

/-- A page table, old or new, has no byte in common with a frame of the heap. -/
theorem HeapRun.table_apart
    (h : HeapRun M descs map mapper answers (.ok ()) after ledger)
    (hapart : M.Apart mapper descs)
    {frame table : PhysFrame} {byte : Nat}
    (hframe : frame ∈ ledger.mapped)
    (htable : table ∈ M.tables after.mapper)
    (hstart : frame.start_address ≤ byte)
    (hend : byte < frame.start_address + 4096) :
    ¬ (table.start_address ≤ byte ∧ byte < table.start_address + 4096) := by
  rintro ⟨hstart', hend'⟩
  have hin : frame ∈ ledger.frames :=
    List.mem_append_left _ (List.mem_append_left _ hframe)
  obtain ⟨haligned, desc, hdesc, hty, hlow, hhigh⟩ := h.inside hin
  rw [h.accounts.tables, List.mem_append] at htable
  rcases htable with hold | hnew
  · exact hapart table hold desc hdesc hty byte hstart' hend' ⟨by omega, by omega⟩
  · have hin' : table ∈ ledger.frames := List.mem_append_left _ (List.mem_append_right _ hnew)
    have haligned' := (h.inside hin').1
    have heq : table.start_address = frame.start_address := by omega
    have hdistinct : frame ≠ table :=
      (List.nodup_append.1 (List.nodup_append.1 h.nodup_frames).1).2.2 frame hframe table hnew
    exact hdistinct (congrArg PhysFrame.mk heq.symm)

/-- Frames of different pages of the heap have no byte in common. -/
theorem HeapRun.physical_injective
    (h : HeapRun M descs map mapper answers (.ok ()) after ledger)
    {addr addr' : Nat}
    (haddr : InHeap addr)
    (haddr' : InHeap addr')
    (heq : M.physical after.mapper addr = M.physical after.mapper addr') :
    addr = addr' := by
  obtain ⟨frame, hframe, hphys⟩ := h.physical_eq haddr
  obtain ⟨frame', hframe', hphys'⟩ := h.physical_eq haddr'
  have hbyte : frame.start_address + addr % 4096 = frame'.start_address + addr' % 4096 :=
    Option.some.inj (hphys.symm.trans (heq.trans hphys'))
  have haligned : ∀ {frame : PhysFrame}, frame ∈ ledger.mapped → frame.start_address % 4096 = 0 :=
    fun hin => (h.inside (List.mem_append_left _ (List.mem_append_left _ hin))).1
  have hmem := haligned (List.mem_of_getElem? hframe)
  have hmem' := haligned (List.mem_of_getElem? hframe')
  have hsame : frame = frame' := congrArg PhysFrame.mk (by omega)
  have hnodup : ledger.mapped.Nodup :=
    (List.nodup_append.1 (List.nodup_append.1 h.nodup_frames).1).1
  obtain ⟨hi, hget⟩ := List.getElem?_eq_some_iff.1 hframe
  obtain ⟨hi', hget'⟩ := List.getElem?_eq_some_iff.1 hframe'
  have hpage : (addr - HEAP_START) / 4096 = (addr' - HEAP_START) / 4096 :=
    (hnodup.getElem_inj_iff).1 (hget.trans (hsame.trans hget'.symm))
  obtain ⟨hstart, -⟩ := haddr
  obtain ⟨hstart', -⟩ := haddr'
  unfold HEAP_START at *
  omega

end HeapBytes

/-- After a successful setup the heap range is memory of its own: every address has a byte of
conventional memory outside all page tables, and no two addresses share one. -/
theorem heap_bytes_backed
    (M : Mapper)
    (hdoc : M.Documented)
    (profile : Profile) (descs : List MemoryDescriptor)
    (hfw : FirmwareMap descs)
    (mapper : M.State)
    (hfree : ∀ page ∈ heapPages, M.Free mapper page)
    (hapart : M.Apart mapper descs) :
    ∃ map result after allocator,
      bootMemoryMap profile descs = .ok map ∧
      (initHeap M ⟨mapper, none⟩).run BootInfoFrameAllocator.allocateFrame (.init map) =
        .ok ((result, after), allocator) ∧
      (256 ≤ bootPageCount descs → result = .ok ()) ∧
      (result = .ok () →
        (∀ addr, InHeap addr → ∃ byte, M.physical after.mapper addr = some byte ∧
          (∃ desc ∈ descs, desc.ty = CONVENTIONAL ∧ desc.Contains byte) ∧
          ∀ table ∈ M.tables after.mapper,
            ¬ (table.start_address ≤ byte ∧ byte < table.start_address + 4096)) ∧
        ∀ addr addr', InHeap addr → InHeap addr' →
          M.physical after.mapper addr = M.physical after.mapper addr' → addr = addr') := by
  obtain ⟨map, result, after, allocator, answers, ledger, hmap, hpages, hrun, h⟩ :=
    exists_heapRun hdoc profile hfw hfree hapart
  refine ⟨map, result, after, allocator, hmap, hrun, fun henough => h.eq_ok (by rwa [hpages]), ?_⟩
  rintro rfl
  refine ⟨fun addr haddr => ?_, fun addr addr' haddr haddr' heq =>
    h.physical_injective haddr haddr' heq⟩
  obtain ⟨frame, hframe, hphys⟩ := h.physical_eq haddr
  have hmem : frame ∈ ledger.mapped := List.mem_of_getElem? hframe
  obtain ⟨-, desc, hdesc, hty, hlow, hhigh⟩ :=
    h.inside (List.mem_append_left _ (List.mem_append_left _ hmem))
  have hoffset : addr % 4096 < 4096 := Nat.mod_lt addr (by omega)
  exact ⟨_, hphys, ⟨desc, hdesc, hty, by omega, by omega⟩, fun table htable =>
    h.table_apart hapart hmem htable (by omega) (by omega)⟩

/-- On this map one byte of the second page lies at this physical address, and no other
byte of the heap does. -/
theorem heap_bytes_backed_roomy :
    ∃ map after allocator,
      bootMemoryMap .release roomyFirmwareMap = .ok map ∧
      (initHeap FourLevels.mapper ⟨FourLevels.empty, none⟩).run
          BootInfoFrameAllocator.allocateFrame (.init map) =
        .ok ((.ok (), after), allocator) ∧
      FourLevels.mapper.physical after.mapper (HEAP_START + 0x1234) = some 0x104234 ∧
      ∀ addr, InHeap addr → FourLevels.mapper.physical after.mapper addr = some 0x104234 →
        addr = HEAP_START + 0x1234 := by
  obtain ⟨map, result, after, allocator, hmap, hrun, henough, hbacked⟩ :=
    heap_bytes_backed FourLevels.mapper FourLevels.documented .release roomyFirmwareMap
      firmwareMap_roomyFirmwareMap FourLevels.empty (fun _ _ => rfl) (fun _ h => nomatch h)
  obtain rfl : result = .ok () := henough (by decide)
  obtain ⟨-, -, hsecond⟩ := roomy_frames hmap hrun
  have hpage : Page.containingAddress (HEAP_START + 0x1234) = ⟨HEAP_START + 0x1000⟩ := by
    decide
  have hphys : FourLevels.mapper.physical after.mapper (HEAP_START + 0x1234) = some 0x104234 := by
    rw [Mapper.physical, hpage, hsecond]
    rfl
  have hin : InHeap (HEAP_START + 0x1234) := by
    simp [InHeap, HEAP_SIZE]
  exact ⟨map, after, allocator, hmap, hrun, hphys, fun addr haddr hsame =>
    (hbacked rfl).2 addr (HEAP_START + 0x1234) haddr hin (hsame.trans hphys.symm)⟩

end Memory
end OpenKernel
