import OpenKernel.VfsRefinement

/-!
# Paths, the current directory and the calls of the shell

This module translates the functions at the end of `src/vfs.rs` that work on
the statics `FS` and `CURRENT_DIR`: `resolve_path` and the calls built on it.
Two results about every sequence of these calls follow.

* `every_node_addressable`: names never repeat among siblings and are never
  empty, dotted or slashed, so the absolute path of a node leads to that node;
* `current_dir_valid_iff`: `CURRENT_DIR` names a directory throughout iff no
  `remove_node` is aimed at the current directory or at an ancestor of it.
-/

namespace OpenKernel
namespace Vfs

section PathResolution

/-- One turn of the loop of `resolve_path`; the top of `parts` is its end. -/
def resolveSegment (parts : List Str) (segment : Str) : List Str :=
  if segment = [] ∨ segment = ".".toList then
    parts
  else if segment = "..".toList then
    parts.dropLast
  else
    parts ++ [segment]

/-- The loop of `resolve_path`. -/
def resolveParts (currentDir inputPath : Str) : List Str :=
  let base := if inputPath.head? = some '/' then "/".toList else currentDir
  (base.splitOn '/' ++ inputPath.splitOn '/').foldl resolveSegment []

def resolvePath (currentDir inputPath : Str) : Str :=
  let parts := resolveParts currentDir inputPath
  if parts.isEmpty then
    "/".toList
  else
    "/".toList ++ "/".toList.intercalate parts

/-- The path of a list of names from the root. -/
def absolutePath (ns : List Str) : Str :=
  '/' :: ['/'].intercalate ns

/-- A name that a path can spell. -/
structure CanonName (n : Str) : Prop where
  ne_nil : n ≠ []
  no_slash : '/' ∉ n
  ne_dot : n ≠ ".".toList
  ne_dotdot : n ≠ "..".toList

instance (n : Str) : Decidable (CanonName n) :=
  decidable_of_iff (n ≠ [] ∧ '/' ∉ n ∧ n ≠ ".".toList ∧ n ≠ "..".toList)
    ⟨fun h => ⟨h.1, h.2.1, h.2.2.1, h.2.2.2⟩,
      fun h => ⟨h.ne_nil, h.no_slash, h.ne_dot, h.ne_dotdot⟩⟩

/-- Names that paths can spell, all different. -/
structure CanonNames (ns : List Str) : Prop where
  nodup : ns.Nodup
  canon : ∀ n ∈ ns, CanonName n

theorem resolvePath_eq_absolutePath
    (currentDir inputPath : Str) :
    resolvePath currentDir inputPath = absolutePath (resolveParts currentDir inputPath) := by
  unfold resolvePath
  rcases resolveParts currentDir inputPath with _ | ⟨n, ns⟩ <;> rfl

theorem segments_absolutePath
    {ns : List Str}
    (h : ∀ n ∈ ns, CanonName n) :
    segments '/' (absolutePath ns) = ns := by
  rw [absolutePath, segments_cons_sep]
  exact segments_joined (fun n hn => ⟨(h n hn).ne_nil, (h n hn).no_slash⟩)

/-- Empty segments leave the stack as it is. -/
theorem foldl_resolveSegment_segments
    (parts : List Str) (s : Str) :
    (s.splitOn '/').foldl resolveSegment parts =
      (segments '/' s).foldl resolveSegment parts := by
  unfold segments
  generalize s.splitOn '/' = segs
  induction segs generalizing parts with
  | nil => rfl
  | cons seg segs ih =>
      rw [List.filter_cons, List.foldl_cons, ih]
      by_cases hseg : seg = []
      · simp [hseg, resolveSegment]
      · simp [hseg]

theorem foldl_resolveSegment_of_canon
    {ns : List Str}
    (h : ∀ n ∈ ns, CanonName n)
    (parts : List Str) :
    ns.foldl resolveSegment parts = parts ++ ns := by
  induction ns generalizing parts with
  | nil => simp
  | cons n ns ih =>
      have hn : CanonName n := h n (by simp)
      have hpush : resolveSegment parts n = parts ++ [n] := by
        simp only [resolveSegment, hn.ne_nil, hn.ne_dot, hn.ne_dotdot, or_self, if_false]
      rw [List.foldl_cons, hpush, ih (fun m hm => h m (List.mem_cons_of_mem n hm)),
        List.append_assoc, List.singleton_append]

/-- The loop leaves only names that a path can spell. -/
theorem canon_foldl_resolveSegment
    {segs parts : List Str}
    (hsegs : ∀ seg ∈ segs, '/' ∉ seg)
    (hparts : ∀ n ∈ parts, CanonName n) :
    ∀ n ∈ segs.foldl resolveSegment parts, CanonName n := by
  induction segs generalizing parts with
  | nil => exact hparts
  | cons seg segs ih =>
      refine ih (fun s hs => hsegs s (List.mem_cons_of_mem seg hs)) ?_
      intro n hn
      unfold resolveSegment at hn
      split_ifs at hn with hskip hup
      · exact hparts n hn
      · exact hparts n (List.dropLast_subset parts hn)
      · rcases List.mem_append.1 hn with hold | hnew
        · exact hparts n hold
        · obtain rfl : n = seg := by simpa using hnew
          obtain ⟨hnil, hdot⟩ := not_or.1 hskip
          exact ⟨hnil, hsegs n (by simp), hdot, hup⟩

theorem canon_resolveParts
    (currentDir inputPath : Str) :
    ∀ n ∈ resolveParts currentDir inputPath, CanonName n := by
  refine canon_foldl_resolveSegment ?_ (by simp)
  intro seg hseg
  rcases List.mem_append.1 hseg with h | h <;> exact notMem_of_mem_splitOn h

/-- A resolved path is walked by the names it was built from. -/
theorem segments_resolvePath
    (currentDir inputPath : Str) :
    segments '/' (resolvePath currentDir inputPath) = resolveParts currentDir inputPath := by
  rw [resolvePath_eq_absolutePath, segments_absolutePath (canon_resolveParts _ _)]

/-- An absolute path of proper names is its own resolution in any directory. -/
theorem resolveParts_absolutePath
    {ns : List Str}
    (h : ∀ n ∈ ns, CanonName n)
    (currentDir : Str) :
    resolveParts currentDir (absolutePath ns) = ns := by
  have hhead : (absolutePath ns).head? = some '/' := rfl
  unfold resolveParts
  rw [if_pos hhead, List.foldl_append, foldl_resolveSegment_segments,
    foldl_resolveSegment_segments, segments_absolutePath h]
  have hroot : segments '/' "/".toList = [] := by decide
  rw [hroot, List.foldl_nil, foldl_resolveSegment_of_canon h, List.nil_append]

end PathResolution

section Calls

/-- The statics `FS` and `CURRENT_DIR`. -/
structure Statics where
  fs : FileSystem
  currentDir : Str

namespace Statics

/-- The statics as they are first used. -/
def init : Statics where
  fs := FileSystem.new
  currentDir := "/".toList

def changeDirectory (st : Statics) (path : Str) : Bool × Statics :=
  let resolved := resolvePath st.currentDir path
  if resolved = "/".toList then
    (true, { st with currentDir := "/".toList })
  else
    match st.fs.findNodeMut resolved with
    | some ⟨_, .Directory _ _⟩ => (true, { st with currentDir := resolved })
    | _ => (false, st)

/-- A call of the file system at the resolved path. -/
def withResolved
    (st : Statics) (path : Str)
    (call : FileSystem → Str → Bool × FileSystem) :
    Bool × Statics :=
  let r := call st.fs (resolvePath st.currentDir path)
  (r.1, { st with fs := r.2 })

def writeFileString (st : Statics) (path content : Str) : Bool × Statics :=
  st.withResolved path (fun fs resolved => fs.writeFile resolved (asBytes content))

def createDir (st : Statics) (path : Str) : Bool × Statics :=
  st.withResolved path (fun fs resolved => fs.mkdir resolved)

def removeNode (st : Statics) (path : Str) : Bool × Statics :=
  st.withResolved path (fun fs resolved => fs.remove resolved)

/-- `String::from_utf8(bytes).ok()`. -/
def fromUtf8 (bytes : Bytes) : Option Str :=
  (String.fromUTF8? ⟨bytes.toArray⟩).map String.toList

def readFileString (st : Statics) (path : Str) : Option Str :=
  (st.fs.readFile (resolvePath st.currentDir path)).bind fromUtf8

/-- `list_directory`, with the lines that it prints to both outputs. -/
def listDirectory (st : Statics) (path : Str) : List Str :=
  let target := if path.isEmpty then st.currentDir else resolvePath st.currentDir path
  match st.fs.listDirectory target with
  | some entries =>
      ("Directory listing [".toList ++ target ++ "]:".toList) ::
        if entries.isEmpty then
          ["  (empty)".toList]
        else
          entries.map (fun (name, is_dir) =>
            "  ".toList ++ name ++ if is_dir then "/".toList else [])
  | none => ["ls: directory not found: ".toList ++ target]

/-- `print_tree`, with the lines that it prints. -/
def printTree (st : Statics) : List Str :=
  ".".toList ::
    match st.fs.listDirectory [] with
    | some entries =>
        entries.map (fun (name, is_dir) =>
          "|-- ".toList ++ name ++ if is_dir then "/".toList else [])
    | none => []

end Statics

inductive VfsCall where
  | changeDirectory (path : Str)
  | createDir (path : Str)
  | writeFileString (path content : Str)
  | removeNode (path : Str)

def Statics.call (st : Statics) : VfsCall → Bool × Statics
  | .changeDirectory path => st.changeDirectory path
  | .createDir path => st.createDir path
  | .writeFileString path content => st.writeFileString path content
  | .removeNode path => st.removeNode path

/-- A call with arbitrary arguments. -/
def Statics.Step (st : Statics) (c : VfsCall) (st' : Statics) : Prop :=
  st' = (st.call c).2

theorem Statics.fs_changeDirectory
    (st : Statics) (path : Str) :
    (st.changeDirectory path).2.fs = st.fs := by
  unfold Statics.changeDirectory
  dsimp only
  split_ifs
  · rfl
  · split <;> rfl

/-- A call changes the tree as one of the three methods does, or not at all. -/
theorem Statics.call_fs
    (st : Statics) (c : VfsCall) :
    (st.call c).2.fs = st.fs ∨
    ∃ path, ∃ fc : FsCall, (st.call c).2.fs = st.fs.call fc ∧
      (fc = .mkdir (resolvePath st.currentDir path) ∨
        (∃ data, fc = .writeFile (resolvePath st.currentDir path) data) ∨
        fc = .remove (resolvePath st.currentDir path)) := by
  cases c with
  | changeDirectory path => exact .inl (st.fs_changeDirectory path)
  | createDir path => exact .inr ⟨path, _, rfl, .inl rfl⟩
  | writeFileString path content => exact .inr ⟨path, _, rfl, .inr (.inl ⟨_, rfl⟩)⟩
  | removeNode path => exact .inr ⟨path, _, rfl, .inr (.inr rfl)⟩

end Calls

section Addressability

theorem CanonNames.nil :
    CanonNames [] where
  nodup := List.nodup_nil
  canon := by simp

/-- An edit at a proper name keeps the names of a directory proper. -/
theorem CanonNames.step
    {name : Str} {ns ns' : List Str}
    (h : CanonNames ns)
    (hname : CanonName name)
    (hstep : NamesStep name ns ns') :
    CanonNames ns' where
  nodup := hstep.nodup h.nodup
  canon := by
    intro n hn
    rcases hstep with hsub | ⟨-, rfl⟩
    · exact h.canon n (hsub.subset hn)
    · rcases List.mem_append.1 hn with hold | hnew
      · exact h.canon n hold
      · obtain rfl : n = name := by simpa using hnew
        exact hname

/-- A method keeps all names proper when the names of its path are proper. -/
theorem everyDir_canonNames_call
    {fs : FileSystem} {path : Str} {fc : FsCall}
    (h : EveryDir CanonNames fs.root)
    (hpath : ∀ n ∈ segments '/' path, CanonName n)
    (hfc : fc = .mkdir path ∨ (∃ data, fc = .writeFile path data) ∨ fc = .remove path) :
    EveryDir CanonNames (fs.call fc).root := by
  have hstep : ∀ name ns ns', name ∈ segments '/' path → CanonNames ns →
      NamesStep name ns ns' → CanonNames ns' :=
    fun name ns ns' hmem hns hst => hns.step (hpath name hmem) hst
  have hnodup : ∀ ns, CanonNames ns → ns.Nodup := fun ns hns => hns.nodup
  rcases hfc with rfl | ⟨data, rfl⟩ | rfl
  · exact everyDir_editParent editSpec_mkdirChild hnodup CanonNames.nil hstep h
  · exact everyDir_editParent (editSpec_writeChild data) hnodup CanonNames.nil hstep h
  · exact everyDir_editParent editSpec_removeChild hnodup CanonNames.nil hstep h

theorem everyDir_canonNames_step
    {st st' : Statics} {c : VfsCall}
    (h : EveryDir CanonNames st.fs.root)
    (hstep : st.Step c st') :
    EveryDir CanonNames st'.fs.root := by
  obtain rfl := hstep
  rcases st.call_fs c with hsame | ⟨path, fc, hfs, hfc⟩
  · rw [hsame]
    exact h
  · rw [hfs]
    refine everyDir_canonNames_call h ?_ hfc
    rw [segments_resolvePath]
    exact canon_resolveParts _ _

theorem everyDir_canonNames_new :
    EveryDir CanonNames FileSystem.new.root := by
  have hmkdir : ∀ (fs : FileSystem) path, EveryDir CanonNames fs.root →
      (∀ n ∈ segments '/' path, CanonName n) → EveryDir CanonNames (fs.mkdir path).2.root :=
    fun fs path h hpath => everyDir_canonNames_call h hpath (.inl rfl)
  have hwrite : ∀ (fs : FileSystem) path data, EveryDir CanonNames fs.root →
      (∀ n ∈ segments '/' path, CanonName n) →
      EveryDir CanonNames (fs.writeFile path data).2.root :=
    fun fs path data h hpath => everyDir_canonNames_call h hpath (.inr (.inl ⟨data, rfl⟩))
  have hempty : EveryDir CanonNames emptyFileSystem.root :=
    EveryDir.directory _ _ CanonNames.nil (by simp)
  have hconfig := hmkdir _ "config".toList hempty (by decide)
  have hbin := hmkdir _ "bin".toList hconfig (by decide)
  have hhome := hmkdir _ "home".toList hbin (by decide)
  exact hwrite _ _ _ (hwrite _ _ _ (hwrite _ _ _ hhome (by decide)) (by decide)) (by decide)

/--
In every tree that the shell's calls can build, siblings have different names
that a path can spell, and the absolute path of a node leads to that very node
from every current directory.
-/
theorem every_node_addressable
    (tr : List (Statics × VfsCall)) (st : Statics)
    (h : Run Statics.Step Statics.init tr st) :
    EveryDir List.Nodup st.fs.root ∧
    EveryDir (fun ns => ∀ n ∈ ns, n ≠ [] ∧ '/' ∉ n ∧ n ≠ ".".toList ∧ n ≠ "..".toList)
      st.fs.root ∧
    ∀ pos node ns, st.fs.root.nodeAt pos = some node →
      namesAlong st.fs.root pos = some ns →
      ∀ currentDir, st.fs.findNodeMut (resolvePath currentDir (absolutePath ns)) =
        some ⟨pos, node⟩ := by
  have hkeep : ∀ s c t, EveryDir CanonNames s.fs.root → Statics.Step s c t →
      EveryDir CanonNames t.fs.root :=
    fun s c t hs hst => everyDir_canonNames_step hs hst
  have hcanon := Run.invariant hkeep h everyDir_canonNames_new
  have hunique : EveryDir List.Nodup st.fs.root := hcanon.imp (fun ns hns => hns.nodup)
  refine ⟨hunique, hcanon.imp ?_, ?_⟩
  · intro ns hns n hn
    have hname := hns.canon n hn
    exact ⟨hname.ne_nil, hname.no_slash, hname.ne_dot, hname.ne_dotdot⟩
  · intro pos node ns hnode hnames currentDir
    have hns : ∀ n ∈ ns, CanonName n := by
      intro n hn
      obtain ⟨siblings, hsiblings, hmem⟩ := hcanon.namesAlong hnames n hn
      exact hsiblings.canon n hmem
    rw [findNodeMut_eq_walk, segments_resolvePath, resolveParts_absolutePath hns]
    exact walk_namesAlong hunique hnode hnames

/-- A directory made from inside another one, found from a third. -/
theorem every_node_addressable_alice :
    ∃ st, Run Statics.Step Statics.init
        [(Statics.init, .changeDirectory "home//".toList),
          (⟨FileSystem.new, "/home".toList⟩, .createDir "./x/../alice".toList)] st ∧
      st.fs.findNodeMut (resolvePath "/bin".toList (absolutePath ["home".toList, "alice".toList]))
        = some ⟨[2, 0], .Directory "alice".toList []⟩ := by
  have hrun : Run Statics.Step Statics.init
      ([] ++ [(Statics.init, VfsCall.changeDirectory "home//".toList)] ++
        [(⟨FileSystem.new, "/home".toList⟩, VfsCall.createDir "./x/../alice".toList)]) _ :=
    Run.snoc (Run.snoc (Run.nil _) rfl) rfl
  refine ⟨_, hrun, ?_⟩
  obtain ⟨-, -, hfound⟩ := every_node_addressable _ _ hrun
  exact hfound [2, 0] (.Directory "alice".toList []) _ rfl rfl "/bin".toList

end Addressability

section CurrentDirectory

/-- `CURRENT_DIR` names a directory of the tree. -/
def Statics.DirValid (st : Statics) : Prop :=
  ∃ pos dir children,
    st.fs.findNodeMut st.currentDir = some ⟨pos, .Directory dir children⟩

/-- The call is no `remove_node` of the current directory or an ancestor of it. -/
def Statics.Spares (st : Statics) : VfsCall → Prop
  | .removeNode path =>
      ¬ (resolveParts st.currentDir path ≠ [] ∧
        resolveParts st.currentDir path <+: segments '/' st.currentDir)
  | _ => True

theorem Statics.dirValid_iff
    {st : Statics} :
    st.DirValid ↔ entryAt st.fs.root (segments '/' st.currentDir) = some .directory := by
  rw [← isSome_listDirectory_iff, FileSystem.listDirectory, Statics.DirValid]
  rcases st.fs.findNodeMut st.currentDir with _ | ⟨pos, _ | _⟩ <;> simp

theorem valid_step
    {st st' : Statics} {c : VfsCall}
    (h : st.fs.Valid)
    (hstep : st.Step c st') :
    st'.fs.Valid := by
  obtain rfl := hstep
  rcases st.call_fs c with hsame | ⟨path, fc, hfs, -⟩
  · rw [hsame]
    exact h
  · rw [hfs]
    exact valid_call h fc

theorem dirValid_changeDirectory
    {st : Statics} (path : Str)
    (h : st.fs.Valid)
    (hdir : st.DirValid) :
    (st.changeDirectory path).2.DirValid := by
  unfold Statics.changeDirectory
  dsimp only
  split_ifs with hroot
  · rw [Statics.dirValid_iff]
    exact h.root_directory
  · rcases hfind : st.fs.findNodeMut (resolvePath st.currentDir path)
      with _ | ⟨pos, _ | ⟨dir, children⟩⟩
    · exact hdir
    · exact hdir
    · exact ⟨pos, dir, children, hfind⟩

theorem dirValid_createDir
    {st : Statics} (path : Str)
    (h : st.fs.Valid)
    (hdir : st.DirValid) :
    (st.createDir path).2.DirValid := by
  obtain ⟨-, hfail, hdone⟩ := mkdir_entry h (resolvePath st.currentDir path)
  rw [Statics.dirValid_iff] at hdir ⊢
  show entryAt (st.fs.mkdir (resolvePath st.currentDir path)).2.root
    (segments '/' st.currentDir) = _
  rcases hres : (st.fs.mkdir (resolvePath st.currentDir path)).1 with _ | _
  · rw [hfail hres, hdir]
  · rw [hdone hres, hdir, ite_self]

/-- A file is never written over a directory. -/
theorem dirValid_writeFileString
    {st : Statics} (path content : Str)
    (h : st.fs.Valid)
    (hdir : st.DirValid) :
    (st.writeFileString path content).2.DirValid := by
  obtain ⟨hcan, hfail, hdone⟩ :=
    writeFile_entry h (resolvePath st.currentDir path) (asBytes content)
  rw [Statics.dirValid_iff] at hdir ⊢
  show entryAt (st.fs.writeFile (resolvePath st.currentDir path) (asBytes content)).2.root
    (segments '/' st.currentDir) = _
  rcases hres : (st.fs.writeFile (resolvePath st.currentDir path) (asBytes content)).1
    with _ | _
  · rw [hfail hres, hdir]
  · have hne : segments '/' st.currentDir ≠ segments '/' (resolvePath st.currentDir path) := by
      intro heq
      rw [heq] at hdir
      exact (hcan.1 hres).ne_directory hdir
    rw [hdone hres, if_neg hne, hdir]

/-- `remove_node` takes the current directory away iff it is aimed at it or above it. -/
theorem dirValid_removeNode_iff
    {st : Statics} (path : Str)
    (h : st.fs.Valid)
    (hdir : st.DirValid) :
    (st.removeNode path).2.DirValid ↔ st.Spares (.removeNode path) := by
  obtain ⟨hcan, hfail, hdone⟩ := remove_entry h (resolvePath st.currentDir path)
  rw [Statics.dirValid_iff] at hdir ⊢
  rw [segments_resolvePath] at hcan hdone
  show entryAt (st.fs.remove (resolvePath st.currentDir path)).2.root
    (segments '/' st.currentDir) = _ ↔ _
  rcases hres : (st.fs.remove (resolvePath st.currentDir path)).1 with _ | _
  · rw [hfail hres, hdir]
    refine iff_of_true rfl ?_
    rintro ⟨hne, hbelow⟩
    have hpresent := (st.fs.toPathMap h).directory_of_isPrefix hbelow hdir
    have hremoved := hcan.2 ⟨hne, by rw [hpresent]; rfl⟩
    rw [hres] at hremoved
    cases hremoved
  · rw [hdone hres, hdir, Statics.Spares]
    have hne : resolveParts st.currentDir path ≠ [] := (hcan.1 hres).1
    by_cases hbelow : resolveParts st.currentDir path <+: segments '/' st.currentDir
    · simp [hne, hbelow]
    · simp [hbelow]

theorem dirValid_step_iff
    {st st' : Statics} {c : VfsCall}
    (h : st.fs.Valid)
    (hdir : st.DirValid)
    (hstep : st.Step c st') :
    st'.DirValid ↔ st.Spares c := by
  obtain rfl := hstep
  cases c with
  | changeDirectory path => exact iff_of_true (dirValid_changeDirectory path h hdir) trivial
  | createDir path => exact iff_of_true (dirValid_createDir path h hdir) trivial
  | writeFileString path content =>
      exact iff_of_true (dirValid_writeFileString path content h hdir) trivial
  | removeNode path => exact dirValid_removeNode_iff path h hdir

/--
`CURRENT_DIR` names a directory in every state of a run iff no step of the run
is a `remove_node` aimed at the current directory or at an ancestor of it.
-/
theorem current_dir_valid_iff
    (tr : List (Statics × VfsCall)) (st : Statics)
    (h : Run Statics.Step Statics.init tr st) :
    ((∀ x ∈ tr, x.1.DirValid) ∧ st.DirValid) ↔ ∀ x ∈ tr, x.1.Spares x.2 := by
  have hkeep : ∀ s c t, s.fs.Valid → Statics.Step s c t → t.fs.Valid :=
    fun s c t hs hst => valid_step hs hst
  have hvalid : ∀ x ∈ tr, x.1.fs.Valid :=
    fun x hx => Run.invariant_mem hkeep h valid_new hx
  have hend : st.fs.Valid := Run.invariant hkeep h valid_new
  have hinit : Statics.init.fs.Valid ∧ Statics.init.DirValid :=
    ⟨valid_new, Statics.dirValid_iff.2 valid_new.root_directory⟩
  have hexact : ∀ s c t, s.fs.Valid ∧ s.DirValid → Statics.Step s c t →
      (t.fs.Valid ∧ t.DirValid ↔ s.Spares c) := by
    rintro s c t ⟨hs, hdir⟩ hst
    rw [← dirValid_step_iff hs hdir hst]
    exact and_iff_right (valid_step hs hst)
  rw [← Run.invariant_iff_guard hexact h hinit]
  constructor
  · rintro ⟨hall, hst⟩
    exact ⟨fun x hx => ⟨hvalid x hx, hall x hx⟩, hend, hst⟩
  · rintro ⟨hall, hst⟩
    exact ⟨fun x hx => (hall x hx).2, hst.2⟩

/-- The statics after `mkdir a`, `cd a` and `rm /a`. -/
def ownDirRemoved : Statics :=
  (((Statics.init.call (.createDir "a".toList)).2.call
    (.changeDirectory "a".toList)).2.call (.removeNode "/a".toList)).2

/-- Removing the current directory leaves `CURRENT_DIR` without a node. -/
theorem current_dir_removed :
    ¬ ∀ tr st, Run Statics.Step Statics.init tr st → st.DirValid := by
  intro h
  have hrun : Run Statics.Step Statics.init _ ownDirRemoved :=
    Run.snoc (Run.snoc (Run.snoc (Run.nil _) rfl) rfl) rfl
  have hdir := Statics.dirValid_iff.1 (h _ _ hrun)
  have hcur : ownDirRemoved.currentDir = "/a".toList := by rfl
  have habsent : entryAt ownDirRemoved.fs.root (segments '/' "/a".toList) = none := by rfl
  rw [hcur, habsent] at hdir
  cases hdir

/-- A run that removes a sibling of the current directory. -/
theorem current_dir_valid_iff_sibling :
    ∃ st, Run Statics.Step Statics.init
        [(Statics.init, .changeDirectory "home".toList),
          (⟨FileSystem.new, "/home".toList⟩, .removeNode "../bin".toList)] st ∧
      st.DirValid := by
  have hrun : Run Statics.Step Statics.init
      ([] ++ [(Statics.init, VfsCall.changeDirectory "home".toList)] ++
        [(⟨FileSystem.new, "/home".toList⟩, VfsCall.removeNode "../bin".toList)]) _ :=
    Run.snoc (Run.snoc (Run.nil _) rfl) rfl
  refine ⟨_, hrun, ((current_dir_valid_iff _ _ hrun).2 ?_).2⟩
  intro x hx
  rcases (by simpa using hx : _ ∨ _) with rfl | rfl
  · trivial
  · show ¬ _
    decide

end CurrentDirectory

end Vfs
end OpenKernel
