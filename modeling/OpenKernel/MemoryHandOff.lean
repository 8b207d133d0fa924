import Mathlib.Data.Set.Basic
import OpenKernel.FrameAllocator

/-!
# What the boot hand-off keeps of the usable memory

The pages of the usable regions in the map that the kernel gets, compared with
the pages of the firmware's conventional descriptors.  The map keeps the first
256 descriptors (`add_region` has a guard for the table's size), so it keeps
their pages, and all usable pages iff no later conventional descriptor has any
(`hand_off_keeps_first`).  The only assumption on the sizes is that the
bootloader's sums fit, which its own build checks.
-/

namespace OpenKernel
namespace Memory

section Pages

/-- The numbers of the pages of a region with aligned bounds. -/
def MemoryRegion.pages (region : MemoryRegion) : Set Nat :=
  {page | region.range.start_addr.toNat ≤ page * 4096 ∧
    page * 4096 < region.range.end_addr.toNat}

def MemoryDescriptor.pages (desc : MemoryDescriptor) : Set Nat :=
  {page | desc.Contains (page * 4096)}

/-- The pages of the usable regions that `iter` yields. -/
def usablePages (map : MemoryMap) : Set Nat :=
  {page | ∃ region ∈ map.iter, region.region_type = .Usable ∧ page ∈ region.pages}

def conventionalPages (descs : List MemoryDescriptor) : Set Nat :=
  {page | ∃ desc ∈ descs, desc.ty = CONVENTIONAL ∧ page ∈ desc.pages}

variable {profile : Profile} {descs : List MemoryDescriptor} {map map' : MemoryMap}

theorem pages_exactRegion
    {desc : MemoryDescriptor}
    (h : desc.physEnd < 2 ^ 64) :
    desc.exactRegion.pages = desc.pages := by
  ext page
  have hend := toNat_end_addr h
  simp only [MemoryRegion.pages, MemoryDescriptor.pages, MemoryDescriptor.Contains,
    Set.mem_ofPred_eq, hend]
  rfl

/-- With overflow checks a region that is made has exact bounds. -/
theorem physEnd_lt_of_region
    {desc : MemoryDescriptor} {region : MemoryRegion}
    (h : desc.region .dev = .ok region) :
    desc.physEnd < 2 ^ 64 := by
  obtain ⟨bytes, hmul, hadd⟩ := bind_eq_ok_iff.1 h
  obtain ⟨end_addr, hadd, -⟩ := bind_eq_ok_iff.1 hadd
  obtain ⟨rfl, hbytes⟩ := Profile.u64_eq_ok hmul
  obtain ⟨-, hend⟩ := Profile.u64_eq_ok hadd
  have hmul_lt := hbytes rfl
  have hend_lt := hend rfl
  have hpage : (4096 : UInt64).toNat = 4096 := rfl
  rw [hpage] at hmul_lt
  rw [toNat_mul_page hmul_lt] at hend_lt
  exact hend_lt

theorem physEnd_lt_of_fillMap
    (h : fillMap .dev descs map = .ok map') :
    ∀ desc ∈ descs, desc.physEnd < 2 ^ 64 := by
  induction descs generalizing map with
  | nil => simp
  | cons desc descs ih =>
      obtain ⟨region, hregion, hrest⟩ := bind_eq_ok_iff.1 h
      intro d hd
      rcases List.mem_cons.1 hd with rfl | hd
      · exact physEnd_lt_of_region hregion
      · exact ih hrest d hd

/-- The regions of the map are those of the first 256 descriptors. -/
theorem iter_of_bootMemoryMap
    (h : bootMemoryMap profile descs = .ok map)
    (hend : ∀ desc ∈ descs, desc.physEnd < 2 ^ 64) :
    map.iter = (descs.take REGIONS).map MemoryDescriptor.exactRegion := by
  obtain ⟨map', hmap', hiter⟩ := bootMemoryMap_spec profile hend
  obtain rfl : map' = map := by
    rw [hmap'] at h
    exact Except.ok.inj h
  exact hiter

theorem usablePages_eq
    (hend : ∀ desc ∈ descs, desc.physEnd < 2 ^ 64)
    (hiter : map.iter = (descs.take REGIONS).map MemoryDescriptor.exactRegion) :
    usablePages map = conventionalPages (descs.take REGIONS) := by
  ext page
  constructor
  · rintro ⟨region, hregion, hty, hpage⟩
    rw [hiter] at hregion
    obtain ⟨desc, hdesc, rfl⟩ := List.mem_map.1 hregion
    rw [pages_exactRegion (hend desc (List.mem_of_mem_take hdesc))] at hpage
    exact ⟨desc, hdesc, regionType_eq_usable_iff.1 hty, hpage⟩
  · rintro ⟨desc, hdesc, hty, hpage⟩
    rw [← pages_exactRegion (hend desc (List.mem_of_mem_take hdesc))] at hpage
    have hregion : desc.exactRegion ∈ map.iter := by
      rw [hiter]
      exact List.mem_map_of_mem hdesc
    exact ⟨_, hregion, regionType_eq_usable_iff.2 hty, hpage⟩

theorem conventionalPages_append
    (first rest : List MemoryDescriptor) :
    conventionalPages (first ++ rest) = conventionalPages first ∪ conventionalPages rest := by
  ext page
  simp only [conventionalPages, Set.mem_ofPred_eq, Set.mem_union, List.mem_append, or_and_right,
    exists_or]

/-- An aligned descriptor that is not empty has a first page. -/
theorem firstPage_mem_pages
    {desc : MemoryDescriptor}
    (haligned : desc.phys_start.toNat % 4096 = 0)
    (hcount : desc.page_count.toNat ≠ 0) :
    desc.phys_start.toNat / 4096 ∈ desc.pages := by
  have hdiv : desc.phys_start.toNat / 4096 * 4096 = desc.phys_start.toNat := by omega
  rw [MemoryDescriptor.pages, Set.mem_ofPred_eq, MemoryDescriptor.Contains,
    MemoryDescriptor.physEnd, hdiv]
  omega

/-- What stands in later descriptors, disjoint from the first, is missing. -/
theorem conventionalPages_eq_append_iff
    {first rest : List MemoryDescriptor}
    (haligned : ∀ desc ∈ rest, desc.phys_start.toNat % 4096 = 0)
    (hdisjoint : ∀ desc ∈ first, ∀ desc' ∈ rest, desc.Disjoint desc') :
    conventionalPages first = conventionalPages (first ++ rest) ↔
      ∀ desc ∈ rest, desc.ty = CONVENTIONAL → desc.page_count = 0 := by
  rw [conventionalPages_append, eq_comm, Set.union_eq_left]
  constructor
  · intro hsub desc hdesc hty
    by_contra hcount
    have hnat : desc.page_count.toNat ≠ 0 := fun h => hcount (UInt64.toNat_inj.1 h)
    have hpage := firstPage_mem_pages (haligned desc hdesc) hnat
    obtain ⟨desc', hdesc', -, hpage'⟩ := hsub ⟨desc, hdesc, hty, hpage⟩
    exact hdisjoint desc' hdesc' desc hdesc _ ⟨hpage', hpage⟩
  · rintro hempty page ⟨desc, hdesc, hty, hlow, hhigh⟩
    have hcount : desc.page_count.toNat = 0 := by
      rw [hempty desc hdesc hty]
      rfl
    rw [MemoryDescriptor.physEnd, hcount] at hhigh
    omega

end Pages

section HandOff

/--
The kernel gets the pages of the conventional descriptors among the first 256,
and so all of them iff every later conventional descriptor is empty.
-/
theorem hand_off_keeps_first
    (profile : Profile) (descs : List MemoryDescriptor) (map : MemoryMap)
    (haligned : ∀ desc ∈ descs, desc.phys_start.toNat % 4096 = 0)
    (hdisjoint : descs.Pairwise MemoryDescriptor.Disjoint)
    (hfits : profile = .release → ∀ desc ∈ descs, desc.physEnd < 2 ^ 64)
    (h : bootMemoryMap profile descs = .ok map) :
    usablePages map = conventionalPages (descs.take REGIONS) ∧
    (usablePages map = conventionalPages descs ↔
      ∀ desc ∈ descs.drop REGIONS, desc.ty = CONVENTIONAL → desc.page_count = 0) := by
  have hend : ∀ desc ∈ descs, desc.physEnd < 2 ^ 64 := by
    cases profile with
    | dev => exact physEnd_lt_of_fillMap h
    | release => exact hfits rfl
  have husable := usablePages_eq hend (iter_of_bootMemoryMap h hend)
  refine ⟨husable, ?_⟩
  have hcut := List.take_append_drop REGIONS descs
  have hiff := conventionalPages_eq_append_iff
    (fun desc hdesc => haligned desc (List.mem_of_mem_drop hdesc))
    (fun desc hdesc desc' hdesc' =>
      (List.pairwise_append.1 (hcut.symm ▸ hdisjoint)).2.2 desc hdesc desc' hdesc')
  rw [hcut] at hiff
  rw [husable, hiff]

/-- Of two descriptors no page is lost. -/
theorem hand_off_keeps_first_two :
    ∃ map, bootMemoryMap .dev [⟨0, 0, 1⟩, ⟨CONVENTIONAL, 4096, 2⟩] = .ok map ∧
      usablePages map = conventionalPages [⟨0, 0, 1⟩, ⟨CONVENTIONAL, 4096, 2⟩] := by
  obtain ⟨map, hmap, -⟩ := @bootMemoryMap_spec .dev [⟨0, 0, 1⟩, ⟨CONVENTIONAL, 4096, 2⟩] (by
    simp [MemoryDescriptor.physEnd])
  have hdisjoint : ([⟨0, 0, 1⟩, ⟨CONVENTIONAL, 4096, 2⟩] : List MemoryDescriptor).Pairwise
      MemoryDescriptor.Disjoint := by
    simp only [List.pairwise_cons]
    simp [MemoryDescriptor.Disjoint, MemoryDescriptor.Contains, MemoryDescriptor.physEnd]
    omega
  have hkeeps := hand_off_keeps_first .dev _ map (by simp) hdisjoint (fun h => by cases h) hmap
  exact ⟨map, hmap, hkeeps.2.2 (fun desc hdesc => absurd hdesc List.not_mem_nil)⟩

/-- A conventional descriptor of one page. -/
def pageDescriptor (page : Nat) : MemoryDescriptor :=
  ⟨CONVENTIONAL, UInt64.ofNat (page * 4096), 1⟩

theorem toNat_phys_start_pageDescriptor
    {page : Nat}
    (h : page < 257) :
    (pageDescriptor page).phys_start.toNat = page * 4096 := by
  rw [pageDescriptor, UInt64.toNat_ofNat']
  exact Nat.mod_eq_of_lt (by omega)

theorem contains_pageDescriptor_iff
    {page addr : Nat}
    (h : page < 257) :
    (pageDescriptor page).Contains addr ↔ page * 4096 ≤ addr ∧ addr < page * 4096 + 4096 := by
  have hcount : (pageDescriptor page).page_count.toNat = 1 := rfl
  rw [MemoryDescriptor.Contains, MemoryDescriptor.physEnd, toNat_phys_start_pageDescriptor h,
    hcount]

/-- The 257th of 257 usable pages in a row does not reach the kernel. -/
theorem hand_off_loses_last :
    let descs := (List.range 257).map pageDescriptor
    (∀ desc ∈ descs, desc.phys_start.toNat % 4096 = 0) ∧
    descs.Pairwise MemoryDescriptor.Disjoint ∧
    ∃ map, bootMemoryMap .dev descs = .ok map ∧
      256 ∈ conventionalPages descs ∧ 256 ∉ usablePages map := by
  intro descs
  have hmem : ∀ desc ∈ descs, ∃ page < 257, pageDescriptor page = desc := by
    intro desc hdesc
    obtain ⟨page, hpage, rfl⟩ := List.mem_map.1 hdesc
    exact ⟨page, List.mem_range.1 hpage, rfl⟩
  have hend : ∀ desc ∈ descs, desc.physEnd < 2 ^ 64 := by
    intro desc hdesc
    obtain ⟨page, hpage, rfl⟩ := hmem desc hdesc
    rw [MemoryDescriptor.physEnd, toNat_phys_start_pageDescriptor hpage]
    simp only [pageDescriptor, UInt64.reduceToNat]
    omega
  refine ⟨?_, ?_, ?_⟩
  · intro desc hdesc
    obtain ⟨page, hpage, rfl⟩ := hmem desc hdesc
    rw [toNat_phys_start_pageDescriptor hpage]
    omega
  · refine List.pairwise_map.2 (List.pairwise_lt_range.imp_of_mem ?_)
    intro page page' hpage hpage' hlt addr
    rw [contains_pageDescriptor_iff (List.mem_range.1 hpage),
      contains_pageDescriptor_iff (List.mem_range.1 hpage')]
    omega
  · obtain ⟨map, hmap, hiter⟩ := bootMemoryMap_spec .dev hend
    refine ⟨map, hmap, ⟨pageDescriptor 256, ?_, rfl, ?_⟩, ?_⟩
    · exact List.mem_map_of_mem (List.mem_range.2 (by decide))
    · exact (contains_pageDescriptor_iff (by decide)).2 (by decide)
    · rw [usablePages_eq hend hiter, ← List.map_take, List.take_range]
      rintro ⟨desc, hdesc, -, hcontains⟩
      obtain ⟨page, hpage, rfl⟩ := List.mem_map.1 hdesc
      have hlt : page < 256 := by simpa [REGIONS] using hpage
      have hbounds := (contains_pageDescriptor_iff (by omega)).1 hcontains
      omega

end HandOff

end Memory
end OpenKernel
