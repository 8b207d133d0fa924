import Mathlib.Data.Set.Finite.Basic
import Mathlib.Data.List.Infix
import Mathlib.Tactic

/-!
# Prefix-closed finite maps

The purpose of a file system, without its representation: a finite map from
paths (lists of keys) to files and directories in which the root is a directory
and every entry stands in a directory.  The invariants are fields, so every
`PathMap` is such a map, and the three updates `putFile`, `putDirectory` and
`erase` carry the proof that they keep them.
-/

namespace OpenKernel

universe u v

/-- What stands at a path. -/
inductive Entry (β : Type v) where
  | file (content : β)
  | directory

namespace Entry

variable {β : Type v}

def isDirectory : Entry β → Bool
  | file _ => false
  | directory => true

end Entry

structure PathMap (κ : Type u) (β : Type v) where
  entry : List κ → Option (Entry β)
  root_directory : entry [] = some .directory
  parent_directory : ∀ p k, (entry (p ++ [k])).isSome → entry p = some .directory
  finite : {p | (entry p).isSome}.Finite

namespace PathMap

section Paths

variable {κ : Type u} {β : Type v} (m : PathMap κ β)

/-- Every proper ancestor of an entry is a directory. -/
theorem directory_of_append
    (p q : List κ)
    (hq : q ≠ [])
    (h : (m.entry (p ++ q)).isSome) :
    m.entry p = some .directory := by
  induction q using List.reverseRecOn with
  | nil => exact absurd rfl hq
  | append_singleton q k ih =>
      rw [← List.append_assoc] at h
      have hparent := m.parent_directory (p ++ q) k h
      by_cases hnil : q = []
      · simpa [hnil] using hparent
      · exact ih hnil (by simp [hparent])

/-- Every ancestor of a directory is a directory. -/
theorem directory_of_isPrefix
    {p q : List κ}
    (hpq : p <+: q)
    (h : m.entry q = some .directory) :
    m.entry p = some .directory := by
  obtain ⟨r, rfl⟩ := hpq
  by_cases hr : r = []
  · simpa [hr] using h
  · exact m.directory_of_append p r hr (by simp [h])

/-- A path is writable: its parent is a directory, and it is absent or a file. -/
def CanWrite (p : List κ) : Prop :=
  p ≠ [] ∧ m.entry p.dropLast = some .directory ∧
    (m.entry p = none ∨ ∃ content, m.entry p = some (.file content))

/-- A directory can be made at a path: its parent is one, and it is absent. -/
def CanMkdir (p : List κ) : Prop :=
  p ≠ [] ∧ m.entry p.dropLast = some .directory ∧ m.entry p = none

/-- A path can be removed: it is not the root and it is present. -/
def CanRemove (p : List κ) : Prop :=
  p ≠ [] ∧ (m.entry p).isSome

theorem CanMkdir.canWrite
    {m : PathMap κ β} {p : List κ}
    (h : m.CanMkdir p) :
    m.CanWrite p :=
  ⟨h.1, h.2.1, .inl h.2.2⟩

theorem CanWrite.ne_directory
    {m : PathMap κ β} {p : List κ}
    (h : m.CanWrite p) :
    m.entry p ≠ some .directory := by
  rcases h.2.2 with habsent | ⟨content, hfile⟩
  · simp [habsent]
  · simp [hfile]

/-- Put an entry at a writable path. -/
noncomputable def put
    (p : List κ) (e : Entry β)
    (h : m.CanWrite p) : PathMap κ β := by
  classical
  exact
    { entry := fun q => if q = p then some e else m.entry q
      root_directory := by
        simpa [Ne.symm h.1] using m.root_directory
      parent_directory := by
        intro q k hchild
        by_cases hqp : q = p
        · -- nothing stands below a writable path
          subst hqp
          have hk : q ++ [k] ≠ q := by simp
          rw [if_neg hk] at hchild
          exact absurd (m.parent_directory q k hchild) h.ne_directory
        · rw [if_neg hqp]
          by_cases hkp : q ++ [k] = p
          · have hparent := h.2.1
            rw [← hkp, List.dropLast_concat] at hparent
            exact hparent
          · rw [if_neg hkp] at hchild
            exact m.parent_directory q k hchild
      finite := by
        refine Set.Finite.subset (m.finite.insert p) ?_
        intro q hq
        by_cases hqp : q = p
        · exact .inl hqp
        · right
          simpa [hqp] using hq }

/-- `writeFile`: the entry becomes a file. -/
noncomputable def putFile
    (p : List κ) (content : β)
    (h : m.CanWrite p) : PathMap κ β :=
  m.put p (.file content) h

/-- `mkdir`: the entry becomes a directory. -/
noncomputable def putDirectory
    (p : List κ)
    (h : m.CanMkdir p) : PathMap κ β :=
  m.put p .directory h.canWrite

/-- `remove`: the entry and everything below it disappear. -/
noncomputable def erase
    (p : List κ)
    (h : m.CanRemove p) : PathMap κ β := by
  classical
  exact
    { entry := fun q => if p <+: q then none else m.entry q
      root_directory := by
        simpa [h.1] using m.root_directory
      parent_directory := by
        intro q k hchild
        by_cases hpk : p <+: q ++ [k]
        · simp [hpk] at hchild
        · have hpq : ¬ p <+: q := fun hpq => hpk (hpq.trans (List.prefix_append _ _))
          rw [if_neg hpk] at hchild
          rw [if_neg hpq]
          exact m.parent_directory q k hchild
      finite := by
        refine Set.Finite.subset m.finite ?_
        intro q hq
        by_cases hpq : p <+: q
        · simp [hpq] at hq
        · simpa [hpq] using hq }

theorem entry_putFile
    {p : List κ} {content : β}
    (h : m.CanWrite p)
    (q : List κ) [Decidable (q = p)] :
    (m.putFile p content h).entry q =
      if q = p then some (.file content) else m.entry q := by
  simp only [putFile, put]
  congr

theorem entry_putDirectory
    {p : List κ}
    (h : m.CanMkdir p)
    (q : List κ) [Decidable (q = p)] :
    (m.putDirectory p h).entry q =
      if q = p then some .directory else m.entry q := by
  simp only [putDirectory, put]
  congr

theorem entry_erase
    {p : List κ}
    (h : m.CanRemove p)
    (q : List κ) [Decidable (p <+: q)] :
    (m.erase p h).entry q =
      if p <+: q then none else m.entry q := by
  simp only [erase]
  congr

/-- Two maps with the same entries are the same map. -/
theorem ext_entry
    {m₁ m₂ : PathMap κ β}
    (h : ∀ q, m₁.entry q = m₂.entry q) :
    m₁ = m₂ := by
  cases m₁
  cases m₂
  simp only [mk.injEq]
  exact funext h

end Paths

end PathMap

end OpenKernel
