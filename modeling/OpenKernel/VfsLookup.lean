import OpenKernel.PathMap
import OpenKernel.VfsTree

/-!
# Lookups in the tree, and what an update does to them

A lookup follows the first child of each name.  This module describes lookups
by the entry they find (`entryAt`), and an update of one node by the entries
that it changes:

* `entryAt_replaceAt`: replacing the node found at a path by a node of the same
  name changes the entries below that path and no others;
* `EveryDir P`: the names in every directory of a tree satisfy `P`; lookups
  stay inside such a tree and replacements keep it such a tree;
* `walk_namesAlong`: when siblings have different names, the path of a node's
  names leads to that very node.
-/

namespace OpenKernel
namespace Vfs

section Children

/-- The names of the children, in order. -/
def names (children : List VfsNode) : List Str :=
  children.map VfsNode.name

@[simp] theorem findChild_nil
    (part : Str) :
    findChild part [] = none := rfl

theorem findChild_cons
    (part : Str) (child : VfsNode) (rest : List VfsNode) :
    findChild part (child :: rest) =
      if child.name = part then some (0, child)
      else (findChild part rest).map (fun r => (r.1 + 1, r.2)) := by
  unfold findChild
  rw [List.findIdx?_cons]
  by_cases h : child.name = part
  · simp [h]
  · simp only [beq_iff_eq, h, if_false]
    generalize List.findIdx? _ rest = found
    cases found with
    | none => rfl
    | some idx =>
        simp only [Option.map_some, List.getElem?_cons_succ]
        cases rest[idx]? <;> rfl

theorem findChild_eq_some
    {part : Str} {children : List VfsNode} {idx : Nat} {child : VfsNode}
    (h : findChild part children = some (idx, child)) :
    children[idx]? = some child ∧ child.name = part := by
  induction children generalizing idx with
  | nil => simp at h
  | cons c rest ih =>
      rw [findChild_cons] at h
      by_cases hc : c.name = part
      · rw [if_pos hc] at h
        obtain ⟨rfl, rfl⟩ : 0 = idx ∧ c = child := by simpa using h
        exact ⟨rfl, hc⟩
      · rw [if_neg hc, Option.map_eq_some_iff] at h
        obtain ⟨⟨i, d⟩, hrest, hr⟩ := h
        obtain ⟨rfl, rfl⟩ : i + 1 = idx ∧ d = child := by simpa using hr
        simpa using ih hrest

theorem findChild_eq_none_iff
    {part : Str} {children : List VfsNode} :
    findChild part children = none ↔ part ∉ names children := by
  induction children with
  | nil => simp [names]
  | cons c rest ih =>
      rw [findChild_cons]
      by_cases hc : c.name = part
      · simp [hc, names]
      · rw [if_neg hc, Option.map_eq_none_iff, ih]
        simp [names, Ne.symm hc]

/-- Among different names the first child of a name is the only one. -/
theorem findChild_of_getElem?
    {children : List VfsNode} {idx : Nat} {child : VfsNode}
    (hnodup : (names children).Nodup)
    (h : children[idx]? = some child) :
    findChild child.name children = some (idx, child) := by
  induction children generalizing idx with
  | nil => simp at h
  | cons c rest ih =>
      simp only [names, List.map_cons, List.nodup_cons] at hnodup
      rw [findChild_cons]
      cases idx with
      | zero =>
          obtain rfl : c = child := by simpa using h
          simp
      | succ idx =>
          rw [List.getElem?_cons_succ] at h
          have hmem : child.name ∈ rest.map VfsNode.name :=
            List.mem_map_of_mem (List.mem_of_getElem? h)
          have hne : c.name ≠ child.name := by
            intro heq
            exact hnodup.1 (heq ▸ hmem)
          rw [if_neg hne, ih hnodup.2 h]
          rfl

/-- Changing one child without its name changes no other lookup. -/
theorem findChild_modify
    (part : Str) (children : List VfsNode) (idx : Nat) (f : VfsNode → VfsNode)
    (hname : ∀ child, children[idx]? = some child → (f child).name = child.name) :
    findChild part (children.modify idx f) =
      (findChild part children).map
        (fun r => (r.1, if r.1 = idx then f r.2 else r.2)) := by
  induction children generalizing idx with
  | nil => simp
  | cons c rest ih =>
      cases idx with
      | zero =>
          have hc : (f c).name = c.name := hname c rfl
          rw [List.modify_zero_cons, findChild_cons, findChild_cons, hc]
          by_cases hpart : c.name = part
          · simp [hpart]
          · simp [hpart, Function.comp_def]
      | succ idx =>
          rw [List.modify_succ_cons, findChild_cons, findChild_cons]
          by_cases hpart : c.name = part
          · simp [hpart]
          · rw [if_neg hpart, if_neg hpart, ih idx (by simpa using hname)]
            rcases findChild part rest with _ | ⟨i, d⟩ <;> simp

theorem names_modify
    (children : List VfsNode) (idx : Nat) (f : VfsNode → VfsNode)
    (hname : ∀ child, children[idx]? = some child → (f child).name = child.name) :
    names (children.modify idx f) = names children := by
  unfold names
  apply List.ext_getElem?
  intro i
  rw [List.getElem?_map, List.getElem?_map, List.getElem?_modify]
  by_cases hi : idx = i
  · subst hi
    rcases hget : children[idx]? with _ | child
    · simp
    · simp [hname child hget]
  · simp [hi]

end Children

section Lookups

/-- The node that a lookup finds. -/
def lookup (node : VfsNode) (segs : List Str) : Option VfsNode :=
  (walk node segs).map NodeMut.node

/-- What a node is to its users. -/
def VfsNode.entry : VfsNode → Entry Bytes
  | .File _ content => .file content
  | .Directory _ _ => .directory

/-- What a lookup finds at a path. -/
def entryAt (node : VfsNode) (segs : List Str) : Option (Entry Bytes) :=
  (lookup node segs).map VfsNode.entry

@[simp] theorem walk_nil
    (node : VfsNode) :
    walk node [] = some ⟨[], node⟩ := by
  cases node <;> rfl

/-- A walk that takes a step goes into the first child of that name. -/
theorem walk_cons_eq_some
    {node : VfsNode} {seg : Str} {segs : List Str} {r : NodeMut}
    (h : walk node (seg :: segs) = some r) :
    ∃ name children idx child r', node = .Directory name children ∧
      findChild seg children = some (idx, child) ∧
      walk child segs = some r' ∧ r = ⟨idx :: r'.pos, r'.node⟩ := by
  cases node with
  | File name content => simp [walk] at h
  | Directory name children =>
      rw [walk] at h
      rcases hfind : findChild seg children with _ | ⟨idx, child⟩
      · simp [hfind] at h
      · simp only [hfind, Option.map_eq_some_iff] at h
        obtain ⟨r', hwalk, rfl⟩ := h
        exact ⟨name, children, idx, child, r', rfl, hfind, hwalk, rfl⟩

@[simp] theorem lookup_nil
    (node : VfsNode) :
    lookup node [] = some node := by
  simp [lookup]

@[simp] theorem lookup_file_cons
    (name : Str) (content : Bytes) (seg : Str) (segs : List Str) :
    lookup (.File name content) (seg :: segs) = none := rfl

theorem lookup_directory_cons
    (name : Str) (children : List VfsNode) (seg : Str) (segs : List Str) :
    lookup (.Directory name children) (seg :: segs) =
      (findChild seg children).bind (fun r => lookup r.2 segs) := by
  unfold lookup
  rw [walk]
  rcases findChild seg children with _ | ⟨idx, child⟩
  · rfl
  · rcases hwalk : walk child segs with _ | r <;> simp [hwalk]

@[simp] theorem entryAt_nil
    (node : VfsNode) :
    entryAt node [] = some node.entry := by
  simp [entryAt]

@[simp] theorem entryAt_file_cons
    (name : Str) (content : Bytes) (seg : Str) (segs : List Str) :
    entryAt (.File name content) (seg :: segs) = none := rfl

theorem entryAt_directory_cons
    (name : Str) (children : List VfsNode) (seg : Str) (segs : List Str) :
    entryAt (.Directory name children) (seg :: segs) =
      (findChild seg children).bind (fun r => entryAt r.2 segs) := by
  unfold entryAt
  rw [lookup_directory_cons]
  rcases findChild seg children with _ | r <;> rfl

/-- A lookup goes on from where its first part ends. -/
theorem lookup_append
    (node : VfsNode) (segs segs' : List Str) :
    lookup node (segs ++ segs') =
      (lookup node segs).bind (fun child => lookup child segs') := by
  induction segs generalizing node with
  | nil => simp
  | cons seg segs ih =>
      cases node with
      | File name content => simp
      | Directory name children =>
          rw [List.cons_append, lookup_directory_cons, lookup_directory_cons]
          rcases findChild seg children with _ | ⟨idx, child⟩
          · rfl
          · simpa using ih child

theorem entryAt_append
    (node : VfsNode) (segs segs' : List Str) :
    entryAt node (segs ++ segs') =
      (lookup node segs).bind (fun child => entryAt child segs') := by
  unfold entryAt
  rw [lookup_append]
  rcases lookup node segs with _ | child <;> rfl

end Lookups

section Replacement

/-- A replacement that keeps the name of its node keeps the name of the tree. -/
theorem name_replaceAt
    {node node' : VfsNode} {segs : List Str} {r : NodeMut}
    (h : walk node segs = some r)
    (hname : node'.name = r.node.name) :
    (node.replaceAt r.pos node').name = node.name := by
  cases segs with
  | nil =>
      obtain rfl : (⟨[], node⟩ : NodeMut) = r := by simpa using h
      simpa [VfsNode.replaceAt] using hname
  | cons seg segs =>
      obtain ⟨name, children, idx, child, r', rfl, -, -, rfl⟩ := walk_cons_eq_some h
      rfl

/-- The child that a walk goes into keeps its name. -/
theorem name_replaceAt_child
    {node' child : VfsNode} {children : List VfsNode} {idx : Nat}
    {segs : List Str} {r : NodeMut}
    (hget : children[idx]? = some child)
    (h : walk child segs = some r)
    (hname : node'.name = r.node.name) :
    ∀ c, children[idx]? = some c → (c.replaceAt r.pos node').name = c.name := by
  intro c hc
  obtain rfl : child = c := by simpa [hget] using hc
  exact name_replaceAt h hname

/-- A replacement changes the entries below its path and no others. -/
theorem entryAt_replaceAt
    {node node' : VfsNode} {segs : List Str} {r : NodeMut}
    (h : walk node segs = some r)
    (hname : node'.name = r.node.name)
    (q : List Str) :
    entryAt (node.replaceAt r.pos node') q =
      if segs <+: q then entryAt node' (q.drop segs.length) else entryAt node q := by
  induction segs generalizing node r q with
  | nil =>
      obtain rfl : (⟨[], node⟩ : NodeMut) = r := by simpa using h
      simp [VfsNode.replaceAt]
  | cons seg segs ih =>
      obtain ⟨name, children, idx, child, r', rfl, hfind, hwalk, rfl⟩ := walk_cons_eq_some h
      obtain ⟨hget, hseg⟩ := findChild_eq_some hfind
      cases q with
      | nil => simp [VfsNode.replaceAt, VfsNode.entry]
      | cons m q =>
          rw [VfsNode.replaceAt, entryAt_directory_cons, entryAt_directory_cons,
            findChild_modify m children idx _ (name_replaceAt_child hget hwalk hname)]
          by_cases hm : seg = m
          · subst hm
            simp [hfind, ih hwalk hname q]
          · rw [if_neg (by simp [hm])]
            rcases hother : findChild m children with _ | ⟨j, c⟩
            · rfl
            · have hj : j ≠ idx := by
                rintro rfl
                obtain ⟨hget', hm'⟩ := findChild_eq_some hother
                obtain rfl : child = c := by simpa [hget] using hget'
                exact hm (hseg.symm.trans hm')
              simp [hj]

end Replacement

section EveryDirectory

/-- The names in every directory of the tree satisfy `P`. -/
inductive EveryDir (P : List Str → Prop) : VfsNode → Prop
  | file (name : Str) (content : Bytes) :
      EveryDir P (.File name content)
  | directory (name : Str) (children : List VfsNode)
      (here : P (names children))
      (inside : ∀ child ∈ children, EveryDir P child) :
      EveryDir P (.Directory name children)

variable {P : List Str → Prop}

theorem EveryDir.here
    {name : Str} {children : List VfsNode}
    (h : EveryDir P (.Directory name children)) :
    P (names children) := by
  cases h with
  | directory _ _ here inside => exact here

theorem EveryDir.child
    {name : Str} {children : List VfsNode}
    (h : EveryDir P (.Directory name children)) :
    ∀ child ∈ children, EveryDir P child := by
  cases h with
  | directory _ _ here inside => exact inside

theorem EveryDir.imp
    {Q : List Str → Prop} {node : VfsNode}
    (hPQ : ∀ ns, P ns → Q ns)
    (h : EveryDir P node) :
    EveryDir Q node := by
  induction h with
  | file name content => exact EveryDir.file name content
  | directory name children here _ ih =>
      exact EveryDir.directory name children (hPQ _ here) ih

/-- A lookup stays inside the tree. -/
theorem EveryDir.walk
    {node : VfsNode} {segs : List Str} {r : NodeMut}
    (hevery : EveryDir P node)
    (h : walk node segs = some r) :
    EveryDir P r.node := by
  induction segs generalizing node r with
  | nil =>
      obtain rfl : (⟨[], node⟩ : NodeMut) = r := by simpa using h
      exact hevery
  | cons seg segs ih =>
      obtain ⟨name, children, idx, child, r', rfl, hfind, hwalk, rfl⟩ := walk_cons_eq_some h
      have hmem := List.mem_of_getElem? (findChild_eq_some hfind).1
      have hdone : EveryDir P r'.node := ih (hevery.child child hmem) hwalk
      exact hdone

theorem EveryDir.replaceAt
    {node node' : VfsNode} {segs : List Str} {r : NodeMut}
    (hevery : EveryDir P node)
    (hevery' : EveryDir P node')
    (h : Vfs.walk node segs = some r)
    (hname : node'.name = r.node.name) :
    EveryDir P (node.replaceAt r.pos node') := by
  induction segs generalizing node r with
  | nil =>
      obtain rfl : (⟨[], node⟩ : NodeMut) = r := by simpa using h
      simpa [VfsNode.replaceAt] using hevery'
  | cons seg segs ih =>
      obtain ⟨name, children, idx, child, r', rfl, hfind, hwalk, rfl⟩ := walk_cons_eq_some h
      have hget := (findChild_eq_some hfind).1
      refine EveryDir.directory name _ ?_ ?_
      · rw [names_modify children idx _ (name_replaceAt_child hget hwalk hname)]
        exact hevery.here
      · intro c hc
        obtain ⟨i, hi⟩ := List.mem_iff_getElem?.1 hc
        rw [List.getElem?_modify] at hi
        by_cases hidx : idx = i
        · subst hidx
          obtain rfl : child.replaceAt r'.pos node' = c := by
            simpa [hget] using hi
          exact ih (hevery.child child (List.mem_of_getElem? hget)) hwalk hname
        · simp only [hidx, if_false, id_map'] at hi
          exact hevery.child c (List.mem_of_getElem? (by simpa using hi))

/-- The names met on the way to a position. -/
def namesAlong : VfsNode → List Nat → Option (List Str)
  | _, [] => some []
  | .Directory _ children, idx :: pos =>
      match children[idx]? with
      | some child => (namesAlong child pos).map (fun ns => child.name :: ns)
      | none => none
  | .File _ _, _ :: _ => none

/-- Each name met on the way stands among the names of a directory. -/
theorem EveryDir.namesAlong
    {node : VfsNode} {pos : List Nat} {ns : List Str}
    (hevery : EveryDir P node)
    (h : Vfs.namesAlong node pos = some ns) :
    ∀ n ∈ ns, ∃ siblings, P siblings ∧ n ∈ siblings := by
  induction pos generalizing node ns with
  | nil =>
      obtain rfl : [] = ns := by
        cases node <;> simpa [Vfs.namesAlong] using h
      simp
  | cons idx pos ih =>
      cases node with
      | File name content => simp [Vfs.namesAlong] at h
      | Directory name children =>
          rcases hget : children[idx]? with _ | child
          · simp [Vfs.namesAlong, hget] at h
          · simp only [Vfs.namesAlong, hget, Option.map_eq_some_iff] at h
            obtain ⟨ns', hrest, rfl⟩ := h
            have hmem := List.mem_of_getElem? hget
            intro n hn
            rcases List.mem_cons.1 hn with rfl | hn
            · exact ⟨names children, hevery.here, List.mem_map_of_mem hmem⟩
            · exact ih (hevery.child child hmem) hrest n hn

/-- When siblings have different names, a node's names lead to that very node. -/
theorem walk_namesAlong
    {node target : VfsNode} {pos : List Nat} {ns : List Str}
    (hevery : EveryDir List.Nodup node)
    (htarget : node.nodeAt pos = some target)
    (hnames : namesAlong node pos = some ns) :
    walk node ns = some ⟨pos, target⟩ := by
  induction pos generalizing node ns with
  | nil =>
      obtain rfl : node = target := by
        cases node <;> simpa [VfsNode.nodeAt] using htarget
      obtain rfl : [] = ns := by
        cases node <;> simpa [namesAlong] using hnames
      simp
  | cons idx pos ih =>
      cases node with
      | File name content => simp [VfsNode.nodeAt] at htarget
      | Directory name children =>
          rcases hget : children[idx]? with _ | child
          · simp [VfsNode.nodeAt, hget] at htarget
          · simp only [VfsNode.nodeAt, hget] at htarget
            simp only [namesAlong, hget, Option.map_eq_some_iff] at hnames
            obtain ⟨ns', hrest, rfl⟩ := hnames
            have hchild := hevery.child child (List.mem_of_getElem? hget)
            rw [walk, findChild_of_getElem? hevery.here hget]
            simp [ih hchild htarget hrest]

end EveryDirectory

end Vfs
end OpenKernel
