import OpenKernel.VfsRefinement

/-!
# The two ways `src/vfs.rs` takes a path apart

`find_node_mut` trims a path, splits it at every slash and drops the empty
parts.  `write_file`, `mkdir` and `remove` trim it and cut it once, at its last
slash, and look up what stands before the cut.  The module shows that the two
agree (`path_splitters_agree`): the parts of a path are the parts of its parent
and then its name, so a lookup of the path ends at the first child of that name
of the directory that a lookup of the parent finds.
-/

namespace OpenKernel
namespace Vfs

section Walks

/-- The loop over the children finds the first one of a name. -/
theorem findChild_eq_some_iff
    {part : Str} {children : List VfsNode} {idx : Nat} {child : VfsNode} :
    findChild part children = some (idx, child) ↔
      children[idx]? = some child ∧ child.name = part ∧
        ∀ i < idx, ∀ c, children[i]? = some c → c.name ≠ part := by
  constructor
  · intro h
    obtain ⟨hget, hname⟩ := findChild_eq_some h
    refine ⟨hget, hname, ?_⟩
    rw [findChild] at h
    split at h
    · rename_i found hfound
      obtain ⟨_, -, hpair⟩ := Option.map_eq_some_iff.1 h
      obtain rfl : found = idx := (Prod.mk.inj hpair).1
      obtain ⟨_, -, hbefore⟩ := List.findIdx?_eq_some_iff_getElem.1 hfound
      intro i hi c hc
      obtain ⟨_, rfl⟩ := List.getElem?_eq_some_iff.1 hc
      simpa using hbefore i hi
    · cases h
  · rintro ⟨hget, hname, hfirst⟩
    obtain ⟨hidx, hchild⟩ := List.getElem?_eq_some_iff.1 hget
    have hfound : children.findIdx? (fun c => c.name == part) = some idx := by
      refine List.findIdx?_eq_some_iff_getElem.2 ⟨hidx, by simp [hchild, hname], ?_⟩
      intro i hi
      simpa using hfirst i hi _ (List.getElem?_eq_getElem (Nat.lt_trans hi hidx))
    rw [findChild, hfound]
    simp [hget]

/-- A walk goes on from where its first part ends. -/
theorem walk_append
    (node : VfsNode) (segs segs' : List Str) :
    walk node (segs ++ segs') =
      (walk node segs).bind
        (fun r => (walk r.node segs').map (fun r' => ⟨r.pos ++ r'.pos, r'.node⟩)) := by
  induction segs generalizing node with
  | nil =>
      rcases hwalk : walk node segs' with _ | r <;> simp [hwalk]
  | cons seg segs ih =>
      cases node with
      | File name content => rfl
      | Directory name children =>
          rw [List.cons_append, walk, walk]
          rcases findChild seg children with _ | ⟨idx, child⟩
          · rfl
          · simp only [ih]
            rcases walk child segs with _ | r
            · rfl
            · rcases hrest : walk r.node segs' with _ | r' <;> simp [hrest]

/-- A walk of one step. -/
theorem walk_singleton_eq_some_iff
    {node : VfsNode} {name : Str} {r : NodeMut} :
    walk node [name] = some r ↔
      ∃ dir children idx, node = .Directory dir children ∧
        findChild name children = some (idx, r.node) ∧ r.pos = [idx] := by
  constructor
  · intro h
    obtain ⟨dir, children, idx, child, r', rfl, hfind, hwalk, rfl⟩ := walk_cons_eq_some h
    obtain rfl : (⟨[], child⟩ : NodeMut) = r' := by simpa using hwalk
    exact ⟨dir, children, idx, rfl, hfind, rfl⟩
  · rintro ⟨dir, children, idx, rfl, hfind, hpos⟩
    obtain ⟨pos, child⟩ := r
    obtain rfl : pos = [idx] := hpos
    simp [walk, hfind]

end Walks

section Splitters

/-- A path with another character than the slash is not trimmed away. -/
theorem trimMatches_ne_nil
    {path : Str}
    (h : ∃ ch ∈ path, ch ≠ '/') :
    trimMatches '/' path ≠ [] := by
  obtain ⟨ch, hmem, hch⟩ := h
  intro hnil
  rw [trimMatches, List.rdropWhile_eq_nil_iff] at hnil
  have hne : path.dropWhile (· == '/') ≠ [] := by
    intro hdrop
    rw [List.dropWhile_eq_nil_iff] at hdrop
    exact hch (by simpa using hdrop ch hmem)
  have hhead := List.head_dropWhile_not (· == '/') hne
  rw [hnil _ (List.head_mem hne)] at hhead
  exact Bool.noConfusion hhead

/--
Cutting a trimmed path at its last slash agrees with splitting it at every
slash: the name is one part, the parts that `find_node_mut` walks for the path
are those that it walks for the parent and the name, and a lookup of the path is
the lookup of the name among the children of the parent.
-/
theorem path_splitters_agree
    (path : Str)
    (hpath : ∃ ch ∈ path, ch ≠ '/')
    (parent_path name : Str)
    (hcut : splitAtLast '/' (trimMatches '/' path) = (parent_path, name)) :
    name ≠ [] ∧ '/' ∉ name ∧
    walkedParts path = walkedParts parent_path ++ [name] ∧
    (∀ (fs : FileSystem) (p : Str), fs.findNodeMut p = walk fs.root (walkedParts p)) ∧
    ∀ (fs : FileSystem) (r : NodeMut),
      fs.findNodeMut path = some r ↔
        ∃ pos dir children idx,
          fs.findNodeMut parent_path = some ⟨pos, .Directory dir children⟩ ∧
          children[idx]? = some r.node ∧ r.node.name = name ∧
          (∀ i < idx, ∀ c, children[i]? = some c → c.name ≠ name) ∧
          r.pos = pos ++ [idx] := by
  obtain ⟨hname, hslash, hsegs⟩ := segments_splitAtLast (trimMatches_ne_nil hpath)
  simp only [hcut] at hname hslash hsegs
  have hparts : walkedParts path = walkedParts parent_path ++ [name] := by
    rw [walkedParts_eq_segments, walkedParts_eq_segments, hsegs]
  refine ⟨hname, hslash, hparts, findNodeMut_eq_walk_walkedParts, ?_⟩
  intro fs r
  rw [findNodeMut_eq_walk_walkedParts, findNodeMut_eq_walk_walkedParts, hparts, walk_append,
    Option.bind_eq_some_iff]
  constructor
  · rintro ⟨⟨pos, node⟩, hparent, hlast⟩
    obtain ⟨r', hwalk, rfl⟩ := Option.map_eq_some_iff.1 hlast
    obtain ⟨dir, children, idx, rfl, hfind, hpos⟩ := walk_singleton_eq_some_iff.1 hwalk
    obtain ⟨hget, hchild, hfirst⟩ := findChild_eq_some_iff.1 hfind
    exact ⟨pos, dir, children, idx, hparent, hget, hchild, hfirst, by rw [hpos]⟩
  · rintro ⟨pos, dir, children, idx, hparent, hget, hchild, hfirst, hpos⟩
    have hwalk : walk (.Directory dir children) [name] = some ⟨[idx], r.node⟩ :=
      walk_singleton_eq_some_iff.2
        ⟨dir, children, idx, rfl, findChild_eq_some_iff.2 ⟨hget, hchild, hfirst⟩, rfl⟩
    refine ⟨_, hparent, ?_⟩
    rw [hwalk, Option.map_some, ← hpos]

theorem path_splitters_agree_slashes :
    let path := "//a//b/".toList
    let parent_path := "a/".toList
    let name := "b".toList
    name ≠ [] ∧ '/' ∉ name ∧
    walkedParts path = walkedParts parent_path ++ [name] ∧
    (∀ (fs : FileSystem) (p : Str), fs.findNodeMut p = walk fs.root (walkedParts p)) ∧
    ∀ (fs : FileSystem) (r : NodeMut),
      fs.findNodeMut path = some r ↔
        ∃ pos dir children idx,
          fs.findNodeMut parent_path = some ⟨pos, .Directory dir children⟩ ∧
          children[idx]? = some r.node ∧ r.node.name = name ∧
          (∀ i < idx, ∀ c, children[i]? = some c → c.name ≠ name) ∧
          r.pos = pos ++ [idx] :=
  path_splitters_agree _ ⟨'a', by decide, by decide⟩ _ _ (by decide)

end Splitters

end Vfs
end OpenKernel
