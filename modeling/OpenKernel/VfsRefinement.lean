import OpenKernel.RunInvariants
import OpenKernel.VfsLookup

/-!
# The file system refines a prefix-closed finite map

For every tree that `mkdir`, `write_file` and `remove` can build from
`FileSystem::new`, the entries found by lookups form a `PathMap`, and each
method does to that map what its name says: the abstract update at the segments
of its path, exactly when the abstract update is possible, and nothing
otherwise.

The methods share `editParent`, so the argument is made once.  An edit of the
children of one directory is described by `ChildEdit` (what it does to each
name), `EditSpec` lifts it to all calls of the edit, and `editParent_entry`
carries it through the tree.
-/

namespace OpenKernel
namespace Vfs

section ChildEdits

/-- The first child of a name. -/
def childNamed (name : Str) (children : List VfsNode) : Option VfsNode :=
  (findChild name children).map Prod.snd

@[simp] theorem childNamed_nil
    (name : Str) :
    childNamed name [] = none := rfl

theorem childNamed_cons
    (name : Str) (child : VfsNode) (rest : List VfsNode) :
    childNamed name (child :: rest) =
      if child.name = name then some child else childNamed name rest := by
  unfold childNamed
  rw [findChild_cons]
  split
  · rfl
  · rw [Option.map_map]
    rfl

theorem childNamed_eq_some
    {name : Str} {children : List VfsNode} {child : VfsNode}
    (h : childNamed name children = some child) :
    child ∈ children ∧ child.name = name := by
  obtain ⟨⟨idx, c⟩, hfind, rfl⟩ := Option.map_eq_some_iff.1 h
  obtain ⟨hget, hname⟩ := findChild_eq_some hfind
  exact ⟨List.mem_of_getElem? hget, hname⟩

theorem childNamed_eq_none_iff
    {name : Str} {children : List VfsNode} :
    childNamed name children = none ↔ name ∉ names children := by
  rw [childNamed, Option.map_eq_none_iff, findChild_eq_none_iff]

theorem childNamed_append
    (name : Str) (children more : List VfsNode) :
    childNamed name (children ++ more) =
      (childNamed name children).or (childNamed name more) := by
  induction children with
  | nil => simp
  | cons child rest ih =>
      rw [List.cons_append, childNamed_cons, childNamed_cons, ih]
      split <;> simp

theorem entryAt_cons
    (dir : Str) (children : List VfsNode) (seg : Str) (segs : List Str) :
    entryAt (.Directory dir children) (seg :: segs) =
      (childNamed seg children).bind (fun child => entryAt child segs) := by
  rw [entryAt_directory_cons, childNamed, Option.bind_map]
  rfl

/-- What an edit at `name` does to the names of a directory. -/
def NamesStep (name : Str) (ns ns' : List Str) : Prop :=
  ns'.Sublist ns ∨ (name ∉ ns ∧ ns' = ns ++ [name])

theorem NamesStep.nodup
    {name : Str} {ns ns' : List Str}
    (h : NamesStep name ns ns')
    (hns : ns.Nodup) :
    ns'.Nodup := by
  rcases h with hsub | ⟨hnew, rfl⟩
  · exact hns.sublist hsub
  · rw [← List.concat_eq_append]
    exact hns.concat hnew

/-- An edit of the children that puts `new` at `name` and changes nothing else. -/
structure ChildEdit
    (name : Str) (children children' : List VfsNode)
    (new : Option VfsNode) : Prop where
  at_name : childNamed name children' = new
  elsewhere : ∀ m, m ≠ name → childNamed m children' = childNamed m children
  names_step : NamesStep name (names children) (names children')
  members : ∀ child ∈ children', child ∈ children ∨ new = some child

/-- A child in front does not disturb an edit at another name. -/
theorem ChildEdit.cons
    {name : Str} {child : VfsNode} {children children' : List VfsNode}
    {new : Option VfsNode}
    (hne : child.name ≠ name)
    (h : ChildEdit name children children' new) :
    ChildEdit name (child :: children) (child :: children') new := by
  refine ⟨?_, ?_, ?_, ?_⟩
  · rw [childNamed_cons, if_neg hne, h.at_name]
  · intro m hm
    rw [childNamed_cons, childNamed_cons, h.elsewhere m hm]
  · rcases h.names_step with hsub | ⟨hnew, heq⟩
    · exact .inl (hsub.cons_cons child.name)
    · refine .inr ⟨?_, ?_⟩
      · simpa [names, Ne.symm hne] using hnew
      · simpa [names] using heq
  · intro c hc
    rcases List.mem_cons.1 hc with rfl | hc
    · exact .inl (by simp)
    · exact (h.members c hc).imp_left (List.mem_cons_of_mem child)

/-- Pushing a node of a new name. -/
theorem childEdit_push
    {name : Str} {children : List VfsNode} {new : VfsNode}
    (hname : new.name = name)
    (hnew : childNamed name children = none) :
    ChildEdit name children (children ++ [new]) (some new) := by
  refine ⟨?_, ?_, ?_, ?_⟩
  · rw [childNamed_append, hnew, childNamed_cons, if_pos hname]
    rfl
  · intro m hm
    rw [childNamed_append, childNamed_cons, if_neg (by rw [hname]; exact Ne.symm hm)]
    simp
  · right
    exact ⟨childNamed_eq_none_iff.1 hnew, by simp [names, hname]⟩
  · intro c hc
    rcases List.mem_append.1 hc with hc | hc
    · exact .inl hc
    · exact .inr (by simpa [eq_comm] using hc)

theorem writeChild_eq_some
    {data : Bytes} {name : Str} {children children' : List VfsNode}
    (h : writeChild data name children = some children') :
    ChildEdit name children children' (some (.File name data)) := by
  induction children generalizing children' with
  | nil =>
      obtain rfl : [VfsNode.File name data] = children' := by
        simpa [writeChild] using h
      have hpush : ChildEdit name [] ([] ++ [VfsNode.File name data]) _ :=
        childEdit_push rfl rfl
      exact hpush
  | cons child rest ih =>
      by_cases hc : child.name = name
      · cases child with
        | File n content =>
            obtain rfl : n = name := hc
            obtain rfl : VfsNode.File n data :: rest = children' := by
              simpa [writeChild, VfsNode.name] using h
            refine ⟨by simp [childNamed_cons, VfsNode.name], ?_, .inl ?_, ?_⟩
            · intro m hm
              simp [childNamed_cons, VfsNode.name, Ne.symm hm]
            · exact List.Sublist.refl _
            · intro c hmem
              rcases List.mem_cons.1 hmem with rfl | hmem
              · exact .inr rfl
              · exact .inl (List.mem_cons_of_mem _ hmem)
        | Directory n children =>
            obtain rfl : n = name := hc
            simp [writeChild, VfsNode.name] at h
      · simp only [writeChild, beq_iff_eq, hc, if_false, Option.map_eq_some_iff] at h
        obtain ⟨rest', hrest, rfl⟩ := h
        exact (ih hrest).cons hc

/-- `write_file` refuses exactly a name that a directory has. -/
theorem isSome_writeChild_iff
    (data : Bytes) (name : Str) (children : List VfsNode) :
    (writeChild data name children).isSome ↔
      (childNamed name children).map VfsNode.entry ≠ some .directory := by
  induction children with
  | nil => simp [writeChild]
  | cons child rest ih =>
      by_cases hc : child.name = name
      · cases child <;> simp [writeChild, childNamed_cons, hc, VfsNode.entry]
      · simpa [writeChild, childNamed_cons, hc] using ih

theorem mkdirChild_eq_some
    {name : Str} {children children' : List VfsNode}
    (h : mkdirChild name children = some children') :
    ChildEdit name children children' (some (.Directory name [])) := by
  unfold mkdirChild at h
  split at h
  · cases h
  · rename_i hnew
    obtain rfl : children ++ [VfsNode.Directory name []] = children' := by
      simpa using h
    refine childEdit_push rfl (childNamed_eq_none_iff.2 ?_)
    simpa [names] using hnew

theorem isSome_mkdirChild_iff
    (name : Str) (children : List VfsNode) :
    (mkdirChild name children).isSome ↔
      (childNamed name children).map VfsNode.entry = none := by
  rw [Option.map_eq_none_iff, childNamed_eq_none_iff, mkdirChild]
  split
  · rename_i hany
    simpa [names] using hany
  · rename_i hany
    simpa [names] using hany

theorem removeChild_cons
    (name : Str) (child : VfsNode) (rest : List VfsNode) :
    removeChild name (child :: rest) =
      if child.name = name then some rest
      else (removeChild name rest).map (fun rest' => child :: rest') := by
  unfold removeChild
  rw [List.findIdx?_cons]
  by_cases hc : child.name = name
  · simp [hc]
  · simp only [beq_iff_eq, hc, if_false]
    generalize List.findIdx? _ rest = found
    cases found <;> rfl

/-- Among different names, removing the first child of a name removes the name. -/
theorem removeChild_eq_some
    {name : Str} {children children' : List VfsNode}
    (hnodup : (names children).Nodup)
    (h : removeChild name children = some children') :
    ChildEdit name children children' none := by
  induction children generalizing children' with
  | nil => simp [removeChild] at h
  | cons child rest ih =>
      simp only [names, List.map_cons, List.nodup_cons] at hnodup
      rw [removeChild_cons] at h
      by_cases hc : child.name = name
      · obtain rfl : rest = children' := by simpa [hc] using h
        refine ⟨?_, ?_, .inl ?_, ?_⟩
        · exact childNamed_eq_none_iff.2 (hc ▸ hnodup.1)
        · intro m hm
          rw [childNamed_cons, if_neg (by rw [hc]; exact Ne.symm hm)]
        · exact List.sublist_cons_self _ _
        · exact fun c hmem => .inl (List.mem_cons_of_mem _ hmem)
      · rw [if_neg hc, Option.map_eq_some_iff] at h
        obtain ⟨rest', hrest, rfl⟩ := h
        exact (ih hnodup.2 hrest).cons hc

theorem isSome_removeChild_iff
    (name : Str) (children : List VfsNode) :
    (removeChild name children).isSome ↔
      ((childNamed name children).map VfsNode.entry).isSome := by
  induction children with
  | nil => simp [removeChild]
  | cons child rest ih =>
      rw [removeChild_cons, childNamed_cons]
      by_cases hc : child.name = name
      · simp [hc]
      · simpa [hc] using ih

end ChildEdits

section EditParent

/-- The calls of an edit: which names it takes, and what it puts there. -/
structure EditSpec
    (edit : Str → List VfsNode → Option (List VfsNode))
    (accepts : Option (Entry Bytes) → Prop)
    (new : Str → Option VfsNode) : Prop where
  /-- Which names the edit takes. -/
  isSome_iff : ∀ name children, (edit name children).isSome ↔
    accepts ((childNamed name children).map VfsNode.entry)
  /-- What it does to a name that it takes. -/
  childEdit : ∀ name children children', (names children).Nodup →
    edit name children = some children' →
    ChildEdit name children children' (new name)
  /-- What it puts there has nothing below it. -/
  leaf : ∀ name node seg segs, new name = some node →
    entryAt node (seg :: segs) = none
  /-- What it puts there is a tree of its own. -/
  everyDir : ∀ (P : List Str → Prop) name node, P [] → new name = some node →
    EveryDir P node

theorem editSpec_writeChild
    (data : Bytes) :
    EditSpec (writeChild data) (fun e => e ≠ some .directory)
      (fun name => some (.File name data)) := by
  refine ⟨isSome_writeChild_iff data, fun _ _ _ _ h => writeChild_eq_some h, ?_, ?_⟩
  · rintro name node seg segs ⟨⟩
    rfl
  · rintro P name node _ ⟨⟩
    exact EveryDir.file name data

theorem editSpec_mkdirChild :
    EditSpec mkdirChild (fun e => e = none)
      (fun name => some (.Directory name [])) := by
  refine ⟨isSome_mkdirChild_iff, fun _ _ _ _ h => mkdirChild_eq_some h, ?_, ?_⟩
  · rintro name node seg segs ⟨⟩
    simp [entryAt_cons]
  · rintro P name node hnil ⟨⟩
    exact EveryDir.directory name [] hnil (by simp)

theorem editSpec_removeChild :
    EditSpec removeChild (fun e => e.isSome) (fun _ => none) := by
  refine ⟨isSome_removeChild_iff, fun _ _ _ hnd h => removeChild_eq_some hnd h, ?_, ?_⟩
  · rintro name node seg segs ⟨⟩
  · rintro P name node _ ⟨⟩

/-- The `parts` that `find_node_mut` goes through; a path of slashes has none. -/
def walkedParts (path : Str) : List Str :=
  let clean_path := trimMatches '/' path
  if clean_path.isEmpty then
    []
  else
    (clean_path.splitOn '/').filter (fun s => !s.isEmpty)

theorem findNodeMut_eq_walk_walkedParts
    (fs : FileSystem) (path : Str) :
    fs.findNodeMut path = walk fs.root (walkedParts path) := by
  unfold FileSystem.findNodeMut walkedParts
  by_cases hempty : (trimMatches '/' path).isEmpty = true
  · simp [hempty]
  · simp [hempty]

theorem walkedParts_eq_segments
    (path : Str) :
    walkedParts path = segments '/' path := by
  unfold walkedParts
  by_cases hempty : trimMatches '/' path = []
  · rw [segments_eq_nil_iff.2 hempty]
    simp [hempty]
  · rw [← segments_trimMatches]
    simp [hempty, segments]

/-- `find_node_mut` walks the segments of its path. -/
theorem findNodeMut_eq_walk
    (fs : FileSystem) (path : Str) :
    fs.findNodeMut path = walk fs.root (segments '/' path) := by
  rw [findNodeMut_eq_walk_walkedParts, walkedParts_eq_segments]

variable {edit : Str → List VfsNode → Option (List VfsNode)}
variable {accepts : Option (Entry Bytes) → Prop}
variable {new : Str → Option VfsNode}

theorem editParent_of_nil
    {fs : FileSystem} {path : Str}
    (h : segments '/' path = []) :
    fs.editParent path edit = (false, fs) := by
  simp [FileSystem.editParent, segments_eq_nil_iff.1 h]

/-- `editParent` in terms of the segments of its path. -/
theorem editParent_of_ne_nil
    (edit : Str → List VfsNode → Option (List VfsNode))
    (fs : FileSystem) {path : Str}
    (h : segments '/' path ≠ []) :
    ∃ parent name, segments '/' path = parent ++ [name] ∧
      fs.editParent path edit =
        match walk fs.root parent with
        | some ⟨pos, .Directory dir children⟩ =>
            match edit name children with
            | some children' =>
                (true, ⟨fs.root.replaceAt pos (.Directory dir children')⟩)
            | none => (false, fs)
        | _ => (false, fs) := by
  have hne : trimMatches '/' path ≠ [] := fun hnil => h (segments_eq_nil_iff.2 hnil)
  obtain ⟨-, -, hcut⟩ := segments_splitAtLast hne
  refine ⟨_, _, hcut, ?_⟩
  unfold FileSystem.editParent
  simp only [List.isEmpty_iff, hne, if_false, findNodeMut_eq_walk]
  rfl

/-- Lookups of a directory whose children were edited. -/
theorem entryAt_childEdit
    (hspec : EditSpec edit accepts new)
    {dir name : Str} {children children' : List VfsNode}
    (h : ChildEdit name children children' (new name))
    (q : List Str) :
    entryAt (.Directory dir children') q =
      if [name] <+: q then
        if q = [name] then (new name).map VfsNode.entry else none
      else entryAt (.Directory dir children) q := by
  cases q with
  | nil => simp [VfsNode.entry]
  | cons seg q =>
      rw [entryAt_cons, entryAt_cons]
      by_cases hseg : seg = name
      · subst hseg
        rw [h.at_name]
        cases q with
        | nil => rcases hnew : new seg with _ | node <;> simp
        | cons seg' q =>
            rcases hnew : new seg with _ | node
            · simp
            · simp [hspec.leaf seg node seg' q hnew]
      · rw [h.elsewhere seg hseg]
        simp [Ne.symm hseg]

/-- What a call through `editParent` does to the entries of the tree. -/
theorem editParent_entry
    (hspec : EditSpec edit accepts new)
    {fs : FileSystem}
    (hunique : EveryDir List.Nodup fs.root)
    (path : Str) :
    ((fs.editParent path edit).1 = true ↔
      segments '/' path ≠ [] ∧
      entryAt fs.root (segments '/' path).dropLast = some .directory ∧
      accepts (entryAt fs.root (segments '/' path))) ∧
    ((fs.editParent path edit).1 = false → (fs.editParent path edit).2 = fs) ∧
    ((fs.editParent path edit).1 = true → ∃ name,
      (segments '/' path).getLast? = some name ∧
      ∀ q, entryAt (fs.editParent path edit).2.root q =
        if segments '/' path <+: q then
          if q = segments '/' path then (new name).map VfsNode.entry else none
        else entryAt fs.root q) := by
  by_cases hnil : segments '/' path = []
  · simp [editParent_of_nil hnil, hnil]
  · obtain ⟨parent, name, hsegs, hedit⟩ := editParent_of_ne_nil edit fs hnil
    rw [hedit, hsegs, List.dropLast_concat, List.getLast?_concat]
    rcases hwalk : walk fs.root parent with _ | ⟨pos, node⟩
    · have habsent : entryAt fs.root parent = none := by
        simp [entryAt, lookup, hwalk]
      simp [habsent]
    · have hparent : lookup fs.root parent = some node := by
        simp [lookup, hwalk]
      cases node with
      | File n content =>
          have hfile : entryAt fs.root parent = some (.file content) := by
            simp [entryAt, hparent, VfsNode.entry]
          simp [hfile]
      | Directory dir children =>
          have hdir : entryAt fs.root parent = some .directory := by
            simp [entryAt, hparent, VfsNode.entry]
          have hat : entryAt fs.root (parent ++ [name]) =
              (childNamed name children).map VfsNode.entry := by
            rw [entryAt_append, hparent, Option.bind_some, entryAt_cons]
            rcases childNamed name children with _ | child <;> simp
          have haccepts := hspec.isSome_iff name children
          rw [← hat] at haccepts
          dsimp only
          rcases hcall : edit name children with _ | children'
          · rw [hcall] at haccepts
            simp only [Option.isSome_none, Bool.false_eq_true, false_iff] at haccepts
            simp [haccepts]
          · rw [hcall] at haccepts
            simp only [Option.isSome_some, true_iff] at haccepts
            have hnodup := (hunique.walk hwalk).here
            have hchild := hspec.childEdit name children children' hnodup hcall
            refine ⟨by simp [hdir, haccepts], by simp, fun _ => ⟨name, rfl, fun q => ?_⟩⟩
            have hname : (VfsNode.Directory dir children').name =
                (VfsNode.Directory dir children).name := rfl
            show entryAt (fs.root.replaceAt pos (.Directory dir children')) q = _
            rw [entryAt_replaceAt hwalk hname q]
            by_cases hq : parent <+: q
            · obtain ⟨r, rfl⟩ := hq
              rw [if_pos (List.prefix_append _ _), List.drop_left,
                entryAt_childEdit hspec hchild, entryAt_append, hparent]
              simp [List.prefix_append_right_inj]
            · have hlong : ¬ parent ++ [name] <+: q :=
                fun hlong => hq ((List.prefix_append _ _).trans hlong)
              rw [if_neg hq, if_neg hlong]

/-- A call through `editParent` keeps what every directory satisfies. -/
theorem everyDir_editParent
    {P : List Str → Prop}
    (hspec : EditSpec edit accepts new)
    (hnodup : ∀ ns, P ns → ns.Nodup)
    (hnil : P [])
    {fs : FileSystem} {path : Str}
    (hstep : ∀ name ns ns', name ∈ segments '/' path → P ns →
      NamesStep name ns ns' → P ns')
    (h : EveryDir P fs.root) :
    EveryDir P (fs.editParent path edit).2.root := by
  by_cases hempty : segments '/' path = []
  · rw [editParent_of_nil hempty]
    exact h
  · obtain ⟨parent, name, hsegs, hedit⟩ := editParent_of_ne_nil edit fs hempty
    rw [hedit]
    rcases hwalk : walk fs.root parent with _ | ⟨pos, _ | ⟨dir, children⟩⟩
    · exact h
    · exact h
    · dsimp only
      rcases hcall : edit name children with _ | children'
      · exact h
      · have hdir := h.walk hwalk
        have hchild := hspec.childEdit name children children' (hnodup _ hdir.here) hcall
        refine h.replaceAt ?_ hwalk rfl
        refine EveryDir.directory dir children' ?_ ?_
        · exact hstep name _ _ (by simp [hsegs]) hdir.here hchild.names_step
        · intro child hmem
          rcases hchild.members child hmem with hold | hnew
          · exact hdir.child child hold
          · exact hspec.everyDir P name child hnil hnew

end EditParent

section Refinement

/-- What every tree built by the methods satisfies. -/
structure FileSystem.Valid (fs : FileSystem) : Prop where
  root_directory : entryAt fs.root [] = some .directory
  unique : EveryDir List.Nodup fs.root
  finite : {q | (entryAt fs.root q).isSome}.Finite

/-- The map that a valid tree stands for. -/
noncomputable def FileSystem.toPathMap
    (fs : FileSystem) (h : fs.Valid) : PathMap Str Bytes where
  entry := entryAt fs.root
  root_directory := h.root_directory
  parent_directory := by
    intro q seg hchild
    rw [entryAt_append] at hchild
    rcases hq : lookup fs.root q with _ | _ | ⟨dir, children⟩
    · simp [hq] at hchild
    · simp [hq] at hchild
    · simp [entryAt, hq, VfsNode.entry]
  finite := h.finite

@[simp] theorem entry_toPathMap
    {fs : FileSystem} (h : fs.Valid)
    (q : List Str) :
    (fs.toPathMap h).entry q = entryAt fs.root q := rfl

section Updates

variable {fs : FileSystem} (h : fs.Valid)
include h

/-- Below a path at which no directory stands there is nothing. -/
theorem entryAt_below
    {p : List Str}
    (hp : entryAt fs.root p ≠ some .directory)
    {q : List Str}
    (hpq : p <+: q) (hne : q ≠ p) :
    entryAt fs.root q = none := by
  obtain ⟨r, rfl⟩ := hpq
  by_contra hsome
  have hr : r ≠ [] := by
    rintro rfl
    exact hne (List.append_nil p)
  exact hp ((fs.toPathMap h).directory_of_append p r hr
    (Option.isSome_iff_ne_none.2 hsome))

/-- An edit at a path below which there is nothing replaces one entry. -/
theorem put_entry
    {p : List Str}
    (hp : entryAt fs.root p ≠ some .directory)
    (e : Option (Entry Bytes)) (q : List Str) :
    (if p <+: q then if q = p then e else none else entryAt fs.root q) =
      if q = p then e else entryAt fs.root q := by
  by_cases hq : q = p
  · simp [hq]
  · by_cases hbelow : p <+: q
    · rw [if_pos hbelow, if_neg hq, if_neg hq, entryAt_below h hp hbelow hq]
    · rw [if_neg hbelow, if_neg hq]

theorem writeFile_entry
    (p : Str) (d : Bytes) :
    ((fs.writeFile p d).1 = true ↔ (fs.toPathMap h).CanWrite (segments '/' p)) ∧
    ((fs.writeFile p d).1 = false → (fs.writeFile p d).2 = fs) ∧
    ((fs.writeFile p d).1 = true → ∀ q, entryAt (fs.writeFile p d).2.root q =
      if q = segments '/' p then some (.file d) else entryAt fs.root q) := by
  obtain ⟨hok, hfail, hdone⟩ := editParent_entry (editSpec_writeChild d) h.unique p
  have hcan : (fs.writeFile p d).1 = true ↔
      (fs.toPathMap h).CanWrite (segments '/' p) := by
    rw [FileSystem.writeFile, hok, PathMap.CanWrite, entry_toPathMap, entry_toPathMap]
    rcases hentry : entryAt fs.root (segments '/' p) with _ | _ | _ <;> simp
  refine ⟨hcan, hfail, fun htrue q => ?_⟩
  obtain ⟨name, -, hentry⟩ := hdone htrue
  exact (hentry q).trans (put_entry h (hcan.1 htrue).ne_directory (some (.file d)) q)

theorem mkdir_entry
    (p : Str) :
    ((fs.mkdir p).1 = true ↔ (fs.toPathMap h).CanMkdir (segments '/' p)) ∧
    ((fs.mkdir p).1 = false → (fs.mkdir p).2 = fs) ∧
    ((fs.mkdir p).1 = true → ∀ q, entryAt (fs.mkdir p).2.root q =
      if q = segments '/' p then some .directory else entryAt fs.root q) := by
  obtain ⟨hok, hfail, hdone⟩ := editParent_entry editSpec_mkdirChild h.unique p
  have hcan : (fs.mkdir p).1 = true ↔
      (fs.toPathMap h).CanMkdir (segments '/' p) := hok
  refine ⟨hcan, hfail, fun htrue q => ?_⟩
  obtain ⟨name, -, hentry⟩ := hdone htrue
  have hnot := (hcan.1 htrue).canWrite.ne_directory
  exact (hentry q).trans (put_entry h hnot (some .directory) q)

theorem remove_entry
    (p : Str) :
    ((fs.remove p).1 = true ↔ (fs.toPathMap h).CanRemove (segments '/' p)) ∧
    ((fs.remove p).1 = false → (fs.remove p).2 = fs) ∧
    ((fs.remove p).1 = true → ∀ q, entryAt (fs.remove p).2.root q =
      if segments '/' p <+: q then none else entryAt fs.root q) := by
  obtain ⟨hok, hfail, hdone⟩ := editParent_entry editSpec_removeChild h.unique p
  refine ⟨?_, hfail, fun htrue q => ?_⟩
  · rw [FileSystem.remove, hok, PathMap.CanRemove, entry_toPathMap]
    constructor
    · rintro ⟨hne, -, hsome⟩
      exact ⟨hne, hsome⟩
    · rintro ⟨hne, hsome⟩
      -- a present entry stands in a directory
      obtain ⟨parent, name, hsegs⟩ :=
        (List.eq_nil_or_concat' (segments '/' p)).resolve_left hne
      refine ⟨hne, ?_, hsome⟩
      rw [hsegs, List.dropLast_concat]
      rw [hsegs] at hsome
      exact (fs.toPathMap h).parent_directory parent name hsome
  · obtain ⟨name, -, hentry⟩ := hdone htrue
    rw [FileSystem.remove, hentry q]
    simp

/-- A call through `editParent` leaves a valid tree. -/
theorem valid_editParent
    {edit : Str → List VfsNode → Option (List VfsNode)}
    {accepts : Option (Entry Bytes) → Prop} {new : Str → Option VfsNode}
    (hspec : EditSpec edit accepts new) (p : Str) :
    (fs.editParent p edit).2.Valid := by
  obtain ⟨hok, hfail, hdone⟩ := editParent_entry hspec h.unique p
  rcases hres : (fs.editParent p edit).1 with _ | _
  · rw [hfail hres]
    exact h
  · obtain ⟨hne, -⟩ := hok.1 hres
    obtain ⟨name, -, hentry⟩ := hdone hres
    refine ⟨?_, ?_, ?_⟩
    · rw [hentry, if_neg (by simpa using hne)]
      exact h.root_directory
    · exact everyDir_editParent hspec (fun _ hns => hns) List.nodup_nil
        (fun _ _ _ _ hns hstep => hstep.nodup hns) h.unique
    · -- the only entry that can be new is the one at the path itself
      refine Set.Finite.subset (h.finite.insert (segments '/' p)) ?_
      intro q (hq : (entryAt (fs.editParent p edit).2.root q).isSome)
      rw [hentry q] at hq
      by_cases hqp : q = segments '/' p
      · exact .inl hqp
      · by_cases hbelow : segments '/' p <+: q
        · simp [hbelow, hqp] at hq
        · exact .inr (by simpa [hbelow] using hq)

theorem valid_writeFile
    (p : Str) (d : Bytes) :
    (fs.writeFile p d).2.Valid :=
  valid_editParent h (editSpec_writeChild d) p

theorem valid_mkdir
    (p : Str) :
    (fs.mkdir p).2.Valid :=
  valid_editParent h editSpec_mkdirChild p

theorem valid_remove
    (p : Str) :
    (fs.remove p).2.Valid :=
  valid_editParent h editSpec_removeChild p

end Updates

section Reads

variable {fs : FileSystem}

theorem findNodeMut_node
    (fs : FileSystem) (p : Str) :
    (fs.findNodeMut p).map NodeMut.node = lookup fs.root (segments '/' p) := by
  rw [findNodeMut_eq_walk, lookup]

theorem readFile_eq_some_iff
    {p : Str} {b : Bytes} :
    fs.readFile p = some b ↔
      entryAt fs.root (segments '/' p) = some (.file b) := by
  rw [entryAt, ← findNodeMut_node, FileSystem.readFile]
  rcases fs.findNodeMut p with _ | ⟨pos, _ | _⟩ <;> simp [VfsNode.entry]

theorem listDirectory_eq_some
    {p : Str} {es : List (Str × Bool)}
    (h : fs.listDirectory p = some es) :
    ∃ dir children, lookup fs.root (segments '/' p) = some (.Directory dir children) ∧
      es = children.map (fun child => (child.name, child.isDir)) := by
  rw [← findNodeMut_node]
  rcases hfind : fs.findNodeMut p with _ | ⟨pos, _ | ⟨dir, children⟩⟩
  · simp [FileSystem.listDirectory, hfind] at h
  · simp [FileSystem.listDirectory, hfind] at h
  · refine ⟨dir, children, rfl, ?_⟩
    simpa [FileSystem.listDirectory, hfind, eq_comm] using h

theorem isSome_listDirectory_iff
    {p : Str} :
    (fs.listDirectory p).isSome ↔
      entryAt fs.root (segments '/' p) = some .directory := by
  rw [entryAt, ← findNodeMut_node, FileSystem.listDirectory]
  rcases fs.findNodeMut p with _ | ⟨pos, _ | _⟩ <;> simp [VfsNode.entry]

/-- A listing names every entry of the directory once, with its kind. -/
theorem mem_listDirectory_iff
    (hvalid : fs.Valid)
    {p : Str} {es : List (Str × Bool)}
    (h : fs.listDirectory p = some es) :
    (es.map Prod.fst).Nodup ∧
    ∀ name isDir, (name, isDir) ∈ es ↔
      ∃ e, entryAt fs.root (segments '/' p ++ [name]) = some e ∧
        isDir = e.isDirectory := by
  obtain ⟨dir, children, hlookup, rfl⟩ := listDirectory_eq_some h
  have hkind : ∀ child : VfsNode, child.isDir = child.entry.isDirectory := by
    intro child
    cases child <;> rfl
  have hnodup : (names children).Nodup := by
    obtain ⟨r, hwalk, hnode⟩ := Option.map_eq_some_iff.1 hlookup
    have hdir := hvalid.unique.walk hwalk
    rw [hnode] at hdir
    exact hdir.here
  refine ⟨by simpa [names, Function.comp_def] using hnodup, ?_⟩
  intro name isDir
  rw [entryAt_append, hlookup, Option.bind_some, entryAt_cons]
  constructor
  · intro hmem
    obtain ⟨child, hchild, heq⟩ := List.mem_map.1 hmem
    obtain ⟨rfl, rfl⟩ : child.name = name ∧ child.isDir = isDir := by
      simpa using heq
    obtain ⟨idx, hget⟩ := List.mem_iff_getElem?.1 hchild
    have hfind := findChild_of_getElem? hnodup hget
    exact ⟨child.entry, by simp [childNamed, hfind], hkind child⟩
  · rintro ⟨e, he, rfl⟩
    rcases hchild : childNamed name children with _ | child
    · simp [hchild] at he
    · obtain ⟨hmem, rfl⟩ := childNamed_eq_some hchild
      obtain rfl : child.entry = e := by simpa [hchild] using he
      exact List.mem_map.2 ⟨child, hmem, by rw [hkind child]⟩

end Reads

section Runs

/-- The calls that change the tree. -/
inductive FsCall where
  | mkdir (path : Str)
  | writeFile (path : Str) (data : Bytes)
  | remove (path : Str)

def FileSystem.call (fs : FileSystem) : FsCall → FileSystem
  | .mkdir path => (fs.mkdir path).2
  | .writeFile path data => (fs.writeFile path data).2
  | .remove path => (fs.remove path).2

/-- The trees built by sequences of calls from `FileSystem::new`. -/
def FileSystem.Reachable (fs : FileSystem) : Prop :=
  ∃ tr, Run (fun fs call fs' => fs' = fs.call call) FileSystem.new tr fs

theorem valid_emptyFileSystem :
    emptyFileSystem.Valid where
  root_directory := rfl
  unique := EveryDir.directory _ _ List.nodup_nil (by simp)
  finite := by
    refine Set.Finite.subset (Set.finite_singleton []) ?_
    intro q hq
    cases q with
    | nil => rfl
    | cons seg q => simp [emptyFileSystem, entryAt_cons] at hq

theorem valid_initDefaultStructure
    {fs : FileSystem}
    (h : fs.Valid) :
    (initDefaultStructure fs).Valid := by
  have h₁ := valid_mkdir h "config".toList
  have h₂ := valid_mkdir h₁ "bin".toList
  have h₃ := valid_mkdir h₂ "home".toList
  exact valid_writeFile (valid_writeFile (valid_writeFile h₃ _ _) _ _) _ _

theorem valid_new :
    FileSystem.new.Valid :=
  valid_initDefaultStructure valid_emptyFileSystem

theorem valid_call
    {fs : FileSystem}
    (h : fs.Valid)
    (c : FsCall) :
    (fs.call c).Valid := by
  cases c with
  | mkdir path => exact valid_mkdir h path
  | writeFile path data => exact valid_writeFile h path data
  | remove path => exact valid_remove h path

theorem FileSystem.Reachable.valid
    {fs : FileSystem}
    (h : fs.Reachable) :
    fs.Valid := by
  obtain ⟨tr, hrun⟩ := h
  have hkeep : ∀ (s : FileSystem) a t, s.Valid → t = s.call a → t.Valid := by
    rintro s a t hs rfl
    exact valid_call hs a
  exact Run.invariant hkeep hrun valid_new

/--
Every tree built from `FileSystem::new` behaves as a prefix-closed finite map
from segment lists to files and directories, at every path and for all data.
-/
theorem file_system_refines_path_map
    (fs : FileSystem)
    (h : fs.Reachable) :
    ∃ m : PathMap Str Bytes, (∀ q, m.entry q = entryAt fs.root q) ∧
    ∀ (p : Str) (d : Bytes),
      ((fs.writeFile p d).1 = true ↔ m.CanWrite (segments '/' p)) ∧
      ((fs.writeFile p d).1 = true → ∀ q, entryAt (fs.writeFile p d).2.root q =
        if q = segments '/' p then some (.file d) else m.entry q) ∧
      ((fs.writeFile p d).1 = false → (fs.writeFile p d).2 = fs) ∧
      ((fs.mkdir p).1 = true ↔ m.CanMkdir (segments '/' p)) ∧
      ((fs.mkdir p).1 = true → (fs.mkdir p).2.listDirectory p = some [] ∧
        ∀ q, entryAt (fs.mkdir p).2.root q =
          if q = segments '/' p then some .directory else m.entry q) ∧
      ((fs.mkdir p).1 = false → (fs.mkdir p).2 = fs) ∧
      ((fs.remove p).1 = true ↔ m.CanRemove (segments '/' p)) ∧
      ((fs.remove p).1 = true → ∀ q, entryAt (fs.remove p).2.root q =
        if segments '/' p <+: q then none else m.entry q) ∧
      ((fs.remove p).1 = false → (fs.remove p).2 = fs) ∧
      (∀ b, fs.readFile p = some b ↔ m.entry (segments '/' p) = some (.file b)) ∧
      ((fs.listDirectory p).isSome ↔ m.entry (segments '/' p) = some .directory) ∧
      (∀ es, fs.listDirectory p = some es → (es.map Prod.fst).Nodup ∧
        ∀ name isDir, (name, isDir) ∈ es ↔
          ∃ e, m.entry (segments '/' p ++ [name]) = some e ∧
            isDir = e.isDirectory) := by
  have hvalid := h.valid
  refine ⟨fs.toPathMap hvalid, fun q => rfl, fun p d => ?_⟩
  obtain ⟨hwrite, hwfail, hwdone⟩ := writeFile_entry hvalid p d
  obtain ⟨hmkdir, hmfail, hmdone⟩ := mkdir_entry hvalid p
  obtain ⟨hremove, hrfail, hrdone⟩ := remove_entry hvalid p
  refine ⟨hwrite, hwdone, hwfail, hmkdir, fun hres => ⟨?_, hmdone hres⟩, hmfail,
    hremove, hrdone, hrfail, fun b => readFile_eq_some_iff,
    isSome_listDirectory_iff, fun es hes => mem_listDirectory_iff hvalid hes⟩
  -- a new directory is empty, since nothing stood below an absent path
  have hnew := hmdone hres
  have hsome : ((fs.mkdir p).2.listDirectory p).isSome := by
    rw [isSome_listDirectory_iff, hnew, if_pos rfl]
  obtain ⟨es, hes⟩ := Option.isSome_iff_exists.1 hsome
  have hmem := (mem_listDirectory_iff (valid_mkdir hvalid p) hes).2
  rw [hes, Option.some.injEq, List.eq_nil_iff_forall_not_mem]
  rintro ⟨name, isDir⟩ hin
  obtain ⟨e, he, -⟩ := (hmem name isDir).1 hin
  have habsent := entryAt_below hvalid (hmkdir.1 hres).canWrite.ne_directory
    (List.prefix_append (segments '/' p) [name]) (by simp)
  rw [hnew, if_neg (by simp), habsent] at he
  cases he

/-- The directory that `mkdir` makes in the first tree, under repeated slashes. -/
theorem file_system_refines_path_map_new :
    (FileSystem.new.mkdir "//home//user/".toList).1 = true ∧
    (FileSystem.new.writeFile "/bin".toList []).1 = false ∧
    (FileSystem.new.writeFile "/bin".toList []).2 = FileSystem.new ∧
    ∃ m : PathMap Str Bytes, (∀ q, m.entry q = entryAt FileSystem.new.root q) ∧
      m.CanMkdir ["home".toList, "user".toList] ∧
      ¬ m.CanWrite ["bin".toList] ∧
      ∀ q, entryAt (FileSystem.new.mkdir "//home//user/".toList).2.root q =
        if q = ["home".toList, "user".toList] then some .directory else m.entry q := by
  have hmkdir : (FileSystem.new.mkdir "//home//user/".toList).1 = true := by decide
  have hwrite : (FileSystem.new.writeFile "/bin".toList []).1 = false := by decide
  have hhome : segments '/' "//home//user/".toList = ["home".toList, "user".toList] := by
    decide
  have hbin : segments '/' "/bin".toList = ["bin".toList] := by decide
  obtain ⟨m, hentry, hcalls⟩ :=
    file_system_refines_path_map FileSystem.new ⟨[], Run.nil _⟩
  obtain ⟨-, -, -, hcan, hdone, -⟩ := hcalls "//home//user/".toList []
  obtain ⟨hcannot, -, hsame, -⟩ := hcalls "/bin".toList []
  rw [hhome] at hcan hdone
  rw [hbin, hwrite] at hcannot
  exact ⟨hmkdir, hwrite, hsame hwrite, m, hentry, hcan.1 hmkdir,
    by simpa using hcannot, (hdone hmkdir).2⟩

end Runs

end Refinement

end Vfs
end OpenKernel
