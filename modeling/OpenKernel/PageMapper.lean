import OpenKernel.ClientPrograms
import OpenKernel.FrameAllocator

/-!
# Page tables, as the kernel uses them

`Mapper` is the interface of the paging library that the kernel calls.  Its
`map_to` is handed the frame allocator and takes frames of its own for page
tables, so it is a program that asks the allocator.  `Documented` states what
the library promises: `map_to` takes at most three frames, and changes the
mapping of the given page only, provided the frames that it gets are fresh.

`FourLevels` is a mapper with tables of four levels that keeps the promises
(`FourLevels.documented`).
-/

namespace OpenKernel
namespace Memory

/-- `Page<Size4KiB>`, by its start address. -/
structure Page where
  start_address : Nat
deriving DecidableEq

namespace Page

def containingAddress (addr : Nat) : Page :=
  ⟨addr / 4096 * 4096⟩

/-- The pages that `Page::range_inclusive` goes through. -/
def rangeInclusive (start stop : Page) : List Page :=
  let count := (stop.start_address + 4096 - start.start_address) / 4096
  (List.range' start.start_address count 4096).map Page.mk

end Page

structure PageTableFlags where
  bits : Nat
deriving DecidableEq

namespace PageTableFlags

def PRESENT : PageTableFlags := ⟨1⟩

def WRITABLE : PageTableFlags := ⟨2⟩

def union (flags flags' : PageTableFlags) : PageTableFlags :=
  ⟨flags.bits ||| flags'.bits⟩

end PageTableFlags

inductive MapToError where
  | FrameAllocationFailed
  | ParentEntryHugePage
  | PageAlreadyMapped (frame : PhysFrame)
deriving DecidableEq

/-- Code that is generic in the `FrameAllocator`. -/
abbrev FrameClient (α : Type) : Type := Client (Option PhysFrame) α

/-- `Mapper<Size4KiB>`, with what can be seen of a state of the page tables. -/
structure Mapper where
  State : Type
  map_to : State → Page → PhysFrame → PageTableFlags →
    FrameClient (Except MapToError Unit × State)
  /-- The mapping of a page. -/
  entry : State → Page → Option (PhysFrame × PageTableFlags)
  /-- The frames that the tables lie in. -/
  tables : State → List PhysFrame
  /-- Neither the page nor a larger page around it is mapped. -/
  Free : State → Page → Prop

section Contract

variable {M : Mapper}

/-- The contract of `FrameAllocator`: the frames are distinct, and no page table lies in them. -/
def Mapper.Fresh (M : Mapper) (mapper : M.State) (frames : List PhysFrame) : Prop :=
  frames.Nodup ∧ ∀ frame ∈ frames, frame ∉ M.tables mapper

/-- The documented effect of one `map_to` on a free page. -/
structure Mapper.MapsTo (M : Mapper) (mapper mapper' : M.State) (page : Page)
    (frame : PhysFrame) (flags : PageTableFlags)
    (answers : List (Option PhysFrame)) (result : Except MapToError Unit) : Prop where
  tables : M.tables mapper' = M.tables mapper ++ answers.reduceOption
  others : ∀ page' ≠ page, M.entry mapper' page' = M.entry mapper page'
  free : ∀ page' ≠ page, M.Free mapper page' → M.Free mapper' page'
  mapped : result = .ok () → M.entry mapper' page = some (frame, flags) ∧ none ∉ answers
  failed : ∀ e, result = .error e →
    M.entry mapper' page = none ∧ e = .FrameAllocationFailed ∧ none ∈ answers

/-- What the paging library documents. -/
structure Mapper.Documented (M : Mapper) : Prop where
  bounded : ∀ mapper page frame flags, (M.map_to mapper page frame flags).Bounded 3
  unmapped : ∀ mapper page, M.Free mapper page → M.entry mapper page = none
  maps : ∀ mapper mapper' page frame flags answers result,
    (M.map_to mapper page frame flags).Returns answers (result, mapper') →
    M.Free mapper page →
    M.Fresh mapper (frame :: answers.reduceOption) →
    M.MapsTo mapper mapper' page frame flags answers result

theorem Mapper.Fresh.sublist
    {mapper : M.State} {frames frames' : List PhysFrame}
    (h : M.Fresh mapper frames)
    (hsub : frames'.Sublist frames) :
    M.Fresh mapper frames' :=
  ⟨h.1.sublist hsub, fun frame hframe => h.2 frame (hsub.subset hframe)⟩

/-- What was not used for tables is still fresh. -/
theorem Mapper.Fresh.after
    {mapper mapper' : M.State} {used rest : List PhysFrame}
    (h : M.Fresh mapper (used ++ rest))
    (htables : M.tables mapper' = M.tables mapper ++ used) :
    M.Fresh mapper' rest := by
  obtain ⟨hnodup, hout⟩ := h
  obtain ⟨-, hrest, hapart⟩ := List.nodup_append.1 hnodup
  refine ⟨hrest, fun frame hframe hmem => ?_⟩
  rw [htables, List.mem_append] at hmem
  rcases hmem with hold | hused
  · exact hout frame (List.mem_append_right used hframe) hold
  · exact hapart frame hused frame hframe rfl

end Contract

section FourLevels

/-- Tables of four levels, seen as paths: which tables exist below the top one, by shift and
index, and the entries of the lowest. -/
structure FourLevels where
  present : List (Nat × Nat)
  frames : List PhysFrame
  leaf : Page → Option (PhysFrame × PageTableFlags)

namespace FourLevels

def empty : FourLevels where
  present := []
  frames := []
  leaf := fun _ => none

def tableOf (shift : Nat) (page : Page) : Nat × Nat :=
  (shift, page.start_address / 2 ^ shift)

/-- Makes the table of `page` at a level, unless it is there. -/
def createNextTable (shift : Nat) (page : Page) (st : FourLevels) :
    FrameClient (Except MapToError Unit × FourLevels) :=
  if tableOf shift page ∈ st.present then
    .done (.ok (), st)
  else
    .ask fun answer =>
      match answer with
      | none => .done (.error .FrameAllocationFailed, st)
      | some frame => .done (.ok (),
          { st with present := tableOf shift page :: st.present, frames := st.frames ++ [frame] })

def setLeaf (page : Page) (frame : PhysFrame) (flags : PageTableFlags) (st : FourLevels) :
    FrameClient (Except MapToError Unit × FourLevels) :=
  match st.leaf page with
  | some _ => .done (.error (.PageAlreadyMapped frame), st)
  | none => .done (.ok (), { st with
      leaf := fun page' => if page' = page then some (frame, flags) else st.leaf page' })

def mapTo (st : FourLevels) (page : Page) (frame : PhysFrame) (flags : PageTableFlags) :
    FrameClient (Except MapToError Unit × FourLevels) :=
  (createNextTable 39 page st).andThen fun st =>
    (createNextTable 30 page st).andThen fun st =>
      (createNextTable 21 page st).andThen (setLeaf page frame flags)

def mapper : Mapper where
  State := FourLevels
  map_to := mapTo
  entry := FourLevels.leaf
  tables := FourLevels.frames
  Free := fun st page => st.leaf page = none

/-- What making tables for a page does. -/
structure Grows (st st' : FourLevels) (answers : List (Option PhysFrame))
    (result : Except MapToError Unit) : Prop where
  frames : st'.frames = st.frames ++ answers.reduceOption
  leaf : st'.leaf = st.leaf
  made : result = .ok () → none ∉ answers
  failed : ∀ e, result = .error e → e = .FrameAllocationFailed ∧ none ∈ answers

theorem bounded_createNextTable
    (shift : Nat) (page : Page) (st : FourLevels) :
    (createNextTable shift page st).Bounded 1 := by
  unfold createNextTable
  split
  · exact .done _ 1
  · refine .ask ?_
    rintro (_ | frame)
    · exact .done _ 0
    · exact .done _ 0

theorem grows_createNextTable
    {shift : Nat} {page : Page} {st st' : FourLevels}
    {answers : List (Option PhysFrame)} {result : Except MapToError Unit}
    (h : (createNextTable shift page st).Returns answers (result, st')) :
    Grows st st' answers result := by
  unfold createNextTable at h
  split at h
  · obtain ⟨rfl, hresult⟩ := Client.returns_done_iff.1 h
    cases hresult
    exact ⟨by simp, rfl, fun _ => by simp, fun e h => by cases h⟩
  · obtain ⟨answer, answers', rfl, hrest⟩ := Client.returns_ask_iff.1 h
    cases answer with
    | none =>
        obtain ⟨rfl, hresult⟩ := Client.returns_done_iff.1 hrest
        cases hresult
        exact ⟨by simp, rfl, fun h => (by cases h), fun e h => by cases h; simp⟩
    | some frame =>
        obtain ⟨rfl, hresult⟩ := Client.returns_done_iff.1 hrest
        cases hresult
        exact ⟨by simp, rfl, fun _ => by simp, fun e h => by cases h⟩

theorem Grows.trans
    {st st' st'' : FourLevels} {first second : List (Option PhysFrame)}
    {result : Except MapToError Unit}
    (h : Grows st st' first (.ok ()))
    (h' : Grows st' st'' second result) :
    Grows st st'' (first ++ second) result where
  frames := by rw [h'.frames, h.frames, List.reduceOption_append, List.append_assoc]
  leaf := h'.leaf.trans h.leaf
  made := fun hok => by simpa using ⟨h.made rfl, h'.made hok⟩
  failed := fun e he => ⟨(h'.failed e he).1, List.mem_append_right first (h'.failed e he).2⟩

/-- A mapping that fails for want of a table has changed no entry. -/
theorem mapsTo_of_grows_error
    {st st' : FourLevels} {page : Page} {frame : PhysFrame} {flags : PageTableFlags}
    {answers : List (Option PhysFrame)} {e : MapToError}
    (hfree : st.leaf page = none)
    (h : Grows st st' answers (.error e)) :
    mapper.MapsTo st st' page frame flags answers (.error e) where
  tables := h.frames
  others := fun page' _ => congrFun h.leaf page'
  free := fun page' _ hpage => (congrFun h.leaf page').trans hpage
  mapped := fun h => by cases h
  failed := fun e' he => by
    cases he
    exact ⟨(congrFun h.leaf page).trans hfree, h.failed e rfl⟩

theorem mapsTo_setLeaf
    {st between st' : FourLevels} {page : Page} {frame : PhysFrame} {flags : PageTableFlags}
    {first second : List (Option PhysFrame)} {result : Except MapToError Unit}
    (hfree : st.leaf page = none)
    (hgrows : Grows st between first (.ok ()))
    (h : (setLeaf page frame flags between).Returns second (result, st')) :
    mapper.MapsTo st st' page frame flags (first ++ second) result := by
  have hunused : between.leaf page = none := (congrFun hgrows.leaf page).trans hfree
  simp only [setLeaf, hunused] at h
  obtain ⟨rfl, hresult⟩ := Client.returns_done_iff.1 h
  cases hresult
  have hkeep : ∀ page' ≠ page, (if page' = page then some (frame, flags) else
      between.leaf page') = st.leaf page' :=
    fun page' hne => (if_neg hne).trans (congrFun hgrows.leaf page')
  rw [List.append_nil]
  exact ⟨hgrows.frames, hkeep, fun page' hne hpage => (hkeep page' hne).trans hpage,
    fun _ => ⟨if_pos rfl, hgrows.made rfl⟩, fun e he => by cases he⟩

theorem documented :
    mapper.Documented where
  bounded := by
    intro st page frame flags
    have hleaf : ∀ st, (setLeaf page frame flags st).Bounded 0 := by
      intro st
      unfold setLeaf
      split
      · exact .done _ 0
      · exact .done _ 0
    exact (bounded_createNextTable 39 page st).andThen fun st =>
      (bounded_createNextTable 30 page st).andThen fun st =>
        (bounded_createNextTable 21 page st).andThen hleaf
  unmapped := fun _ _ h => h
  maps := by
    intro st st' page frame flags answers result hreturns hfree _
    have h : (mapTo st page frame flags).Returns answers (result, st') := hreturns
    unfold mapTo at h
    rcases Client.returns_andThen_iff.1 h with
      ⟨e, rfl, hfail⟩ | ⟨first, rest, st₃, rfl, hthird, h⟩
    · exact mapsTo_of_grows_error hfree (grows_createNextTable hfail)
    have hgrows := grows_createNextTable hthird
    rcases Client.returns_andThen_iff.1 h with
      ⟨e, rfl, hfail⟩ | ⟨second, rest', st₂, rfl, hsecond, h⟩
    · exact mapsTo_of_grows_error hfree (hgrows.trans (grows_createNextTable hfail))
    have hgrows' := hgrows.trans (grows_createNextTable hsecond)
    rcases Client.returns_andThen_iff.1 h with
      ⟨e, rfl, hfail⟩ | ⟨third, last, st₁, rfl, hfirst, h⟩
    · rw [← List.append_assoc]
      exact mapsTo_of_grows_error hfree (hgrows'.trans (grows_createNextTable hfail))
    have hgrows'' := hgrows'.trans (grows_createNextTable hfirst)
    rw [← List.append_assoc, ← List.append_assoc]
    exact mapsTo_setLeaf hfree hgrows'' h

end FourLevels

end FourLevels

end Memory
end OpenKernel
