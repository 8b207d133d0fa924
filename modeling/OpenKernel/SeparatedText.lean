import Mathlib.Data.List.DropRight
import Mathlib.Tactic

/-!
# Text cut at a separator

A text is a list over any alphabet and `c` is its separator.  The module
defines the pieces of a text (`segments`, the non-empty parts between
separators), removal of separators at both ends (`trimMatches`), the last
occurrence of the separator (`rfind`) and the cut there (`splitAtLast`), with
the laws that relate them:

* `segments_append_sep`: the segments of two texts joined by a separator;
* `segments_trimMatches`: trimming does not change the segments;
* `segments_splitAtLast`: cutting a trimmed text at its last separator takes
  off exactly its last segment;
* `segments_joined`: joining segments and cutting again gives them back.
-/

namespace OpenKernel

universe u

section SeparatedText

variable {α : Type u} [DecidableEq α]

/-- The text without the separators at its two ends. -/
def trimMatches (c : α) (s : List α) : List α :=
  (s.dropWhile (· == c)).rdropWhile (· == c)

/-- The index of the last separator. -/
def rfind (c : α) : List α → Option Nat
  | [] => none
  | x :: xs =>
      match rfind c xs with
      | some idx => some (idx + 1)
      | none => if x = c then some 0 else none

/-- What stands before and after the last separator. -/
def splitAtLast (c : α) (s : List α) : List α × List α :=
  match rfind c s with
  | some idx => (s.take idx, s.drop (idx + 1))
  | none => ([], s)

/-- The non-empty parts between separators. -/
def segments (c : α) (s : List α) : List (List α) :=
  (s.splitOn c).filter (fun seg => !seg.isEmpty)

/-- A list of non-empty parts without separators. -/
def IsSegmentList (c : α) (segs : List (List α)) : Prop :=
  ∀ seg ∈ segs, seg ≠ [] ∧ c ∉ seg

variable {c : α}

@[simp] theorem segments_nil :
    segments c ([] : List α) = [] := by
  rfl

theorem segments_append_sep
    (a b : List α) :
    segments c (a ++ c :: b) = segments c a ++ segments c b := by
  unfold segments
  rw [List.splitOn_append_cons_self, List.filter_append]

@[simp] theorem segments_cons_sep
    (b : List α) :
    segments c (c :: b) = segments c b := by
  simpa using segments_append_sep (c := c) [] b

@[simp] theorem segments_concat_sep
    (a : List α) :
    segments c (a ++ [c]) = segments c a := by
  simpa using segments_append_sep (c := c) a []

theorem segments_of_notMem
    {s : List α}
    (h : c ∉ s) (hne : s ≠ []) :
    segments c s = [s] := by
  unfold segments
  rw [List.splitOn_eq_singleton h]
  simp [hne]

theorem notMem_of_mem_splitOn
    {s seg : List α}
    (h : seg ∈ s.splitOn c) :
    c ∉ seg := by
  induction s generalizing seg with
  | nil =>
      simp at h
      simp [h]
  | cons x xs ih =>
      rw [List.splitOn_cons_eq_if_modifyHead] at h
      by_cases hx : x = c
      · simp only [hx, beq_self_eq_true, if_true, List.mem_cons] at h
        rcases h with rfl | h
        · simp
        · exact ih h
      · simp only [beq_iff_eq, hx, if_false] at h
        rcases hsplit : xs.splitOn c with _ | ⟨first, rest⟩
        · simp [hsplit] at h
        · rw [hsplit, List.modifyHead_cons, List.mem_cons] at h
          rcases h with rfl | h
          · have hfirst : c ∉ first := ih (by simp [hsplit])
            simp [hfirst, Ne.symm hx]
          · exact ih (by simp [hsplit, h])

theorem isSegmentList_segments
    (s : List α) :
    IsSegmentList c (segments c s) := by
  intro seg hseg
  obtain ⟨hmem, hne⟩ := List.mem_filter.1 hseg
  exact ⟨by simpa using hne, notMem_of_mem_splitOn hmem⟩

theorem segments_dropWhile
    (s : List α) :
    segments c (s.dropWhile (· == c)) = segments c s := by
  induction s with
  | nil => rfl
  | cons x xs ih =>
      by_cases hx : x = c
      · subst hx
        simp [ih]
      · simp [hx]

theorem segments_rdropWhile
    (s : List α) :
    segments c (s.rdropWhile (· == c)) = segments c s := by
  induction s using List.reverseRecOn with
  | nil => rfl
  | append_singleton xs x ih =>
      by_cases hx : x = c
      · subst hx
        simp [ih]
      · simp [hx]

/-- Trimming does not change the segments. -/
@[simp] theorem segments_trimMatches
    (s : List α) :
    segments c (trimMatches c s) = segments c s := by
  rw [trimMatches, segments_rdropWhile, segments_dropWhile]

/-- A trimmed text does not end with the separator. -/
theorem trimMatches_ne_concat
    (s a : List α) :
    trimMatches c s ≠ a ++ [c] := by
  intro h
  have hne : (s.dropWhile (· == c)).rdropWhile (· == c) ≠ [] := by
    show trimMatches c s ≠ []
    simp [h]
  have hlast := List.rdropWhile_last_not (· == c) (s.dropWhile (· == c)) hne
  have hc : ((s.dropWhile (· == c)).rdropWhile (· == c)).getLast hne = c := by
    rw [List.getLast_congr hne (by simp) h]
    simp
  simp [hc] at hlast

theorem rfind_eq_none_iff
    {s : List α} :
    rfind c s = none ↔ c ∉ s := by
  induction s with
  | nil => simp [rfind]
  | cons x xs ih =>
      rcases hrest : rfind c xs with _ | idx
      · have hxs := ih.1 hrest
        by_cases hx : x = c
        · simp [rfind, hrest, hx]
        · simp [rfind, hrest, hx, hxs, Ne.symm hx]
      · have hxs : c ∈ xs := by
          by_contra hnot
          simp [ih.2 hnot] at hrest
        simp [rfind, hrest, hxs]

theorem rfind_eq_some
    {s : List α} {idx : Nat}
    (h : rfind c s = some idx) :
    s = s.take idx ++ c :: s.drop (idx + 1) ∧ c ∉ s.drop (idx + 1) := by
  induction s generalizing idx with
  | nil => simp [rfind] at h
  | cons x xs ih =>
      rcases hrest : rfind c xs with _ | i
      · by_cases hx : x = c
        · obtain rfl : 0 = idx := by simpa [rfind, hrest, hx] using h
          simp [hx, rfind_eq_none_iff.1 hrest]
        · simp [rfind, hrest, hx] at h
      · obtain rfl : i + 1 = idx := by simpa [rfind, hrest] using h
        obtain ⟨hcut, hnot⟩ := ih hrest
        refine ⟨?_, by simpa using hnot⟩
        rw [List.take_succ_cons, List.drop_succ_cons, List.cons_append, ← hcut]

/-- The cut at the last separator takes off the last segment. -/
theorem segments_splitAtLast
    {s : List α}
    (hne : trimMatches c s ≠ []) :
    (splitAtLast c (trimMatches c s)).2 ≠ [] ∧
    c ∉ (splitAtLast c (trimMatches c s)).2 ∧
    segments c s =
      segments c (splitAtLast c (trimMatches c s)).1 ++
        [(splitAtLast c (trimMatches c s)).2] := by
  unfold splitAtLast
  rcases hfind : rfind c (trimMatches c s) with _ | idx
  · have hnot := rfind_eq_none_iff.1 hfind
    refine ⟨hne, hnot, ?_⟩
    rw [segments_nil, List.nil_append, ← segments_trimMatches,
      segments_of_notMem hnot hne]
  · obtain ⟨hcut, hnot⟩ := rfind_eq_some hfind
    have hname : (trimMatches c s).drop (idx + 1) ≠ [] := by
      intro hnil
      rw [hnil] at hcut
      exact trimMatches_ne_concat s _ hcut
    refine ⟨hname, hnot, ?_⟩
    calc segments c s = segments c (trimMatches c s) :=
          (segments_trimMatches s).symm
      _ = segments c ((trimMatches c s).take idx ++
            c :: (trimMatches c s).drop (idx + 1)) := by rw [← hcut]
      _ = _ := by rw [segments_append_sep, segments_of_notMem hnot hname]

/-- A text has no segments iff trimming leaves nothing of it. -/
theorem segments_eq_nil_iff
    {s : List α} :
    segments c s = [] ↔ trimMatches c s = [] := by
  constructor
  · intro h
    by_contra hne
    have hlast := (segments_splitAtLast hne).2.2
    simp [h] at hlast
  · intro h
    rw [← segments_trimMatches, h, segments_nil]

/-- Joined segments are cut into the same segments. -/
theorem segments_joined
    {segs : List (List α)}
    (h : IsSegmentList c segs) :
    segments c ([c].intercalate segs) = segs := by
  cases segs with
  | nil => rfl
  | cons seg rest =>
      unfold segments
      rw [List.splitOn_intercalate c (fun l hl => (h l hl).2) (by simp)]
      refine List.filter_eq_self.2 ?_
      intro l hl
      simpa using (h l hl).1

end SeparatedText

end OpenKernel
