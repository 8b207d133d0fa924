import OpenKernel.CommandEffects

/-!
# The shell over a path map

What the commands on files mean to their user: a `PathStore` is a path map and
the names of the working directory, a text names the path that its segments lead
to (`PathStore.target`), and `PathStep` gives each command its replies and its
effect, with the listings of `ls` and `tree` in any order.

`Represents` relates the statics of `src/vfs.rs` to such a store, and
`shell_refines_path_store` says that every transcript of the shell, its replies
included, is a transcript of the store.
-/

namespace OpenKernel
namespace Vfs

/-- The files as their user knows them. -/
structure PathStore where
  map : PathMap Str Bytes
  /-- The names of the working directory, from the root. -/
  cwd : List Str

namespace PathStore

/-- The path that a text names. -/
def target (store : PathStore) (path : Str) : List Str :=
  stackEval (if path.head? = some '/' then [] else store.cwd) (segments '/' path)

open Classical in
/-- A call, with its result. -/
noncomputable def call (store : PathStore) : VfsCall → Bool × PathStore
  | .changeDirectory path =>
      if store.map.entry (store.target path) = some .directory then
        (true, { store with cwd := store.target path })
      else
        (false, store)
  | .createDir path =>
      if h : store.map.CanMkdir (store.target path) then
        (true, { store with map := store.map.putDirectory (store.target path) h })
      else
        (false, store)
  | .writeFileString path content =>
      if h : store.map.CanWrite (store.target path) then
        (true, { store with map := store.map.putFile (store.target path) (asBytes content) h })
      else
        (false, store)
  | .removeNode path =>
      if h : store.map.CanRemove (store.target path) then
        (true, { store with map := store.map.erase (store.target path) h })
      else
        (false, store)

/-- The text of the file at a path. -/
def read (store : PathStore) (path : Str) : Option Str :=
  match store.map.entry (store.target path) with
  | some (.file content) => Statics.fromUtf8 content
  | _ => none

/-- The children of a directory, each once and with its kind, in some order. -/
def Lists (store : PathStore) (path : List Str) (entries : List (Str × Bool)) : Prop :=
  (entries.map Prod.fst).Nodup ∧
    ∀ name isDir, (name, isDir) ∈ entries ↔
      ∃ e, store.map.entry (path ++ [name]) = some e ∧ isDir = e.isDirectory

end PathStore

/-- The statics stand for a store. -/
structure Represents (st : Statics) (store : PathStore) : Prop where
  valid : st.fs.Valid
  entry : ∀ q, entryAt st.fs.root q = store.map.entry q
  cwd : st.currentDir = absolutePath store.cwd
  canon : ∀ n ∈ store.cwd, CanonName n

section Calls

variable {st : Statics} {store : PathStore}

theorem Represents.map_eq
    (h : Represents st store) :
    st.fs.toPathMap h.valid = store.map :=
  PathMap.ext_entry fun q => h.entry q

/-- Both levels understand a text alike. -/
theorem Represents.resolveParts_eq
    (h : Represents st store)
    (path : Str) :
    resolveParts st.currentDir path = store.target path := by
  have hsegs : ∀ seg ∈ segments '/' path, seg ≠ [] :=
    fun seg hseg => ne_nil_of_mem_segments hseg
  rw [resolveParts_eq_foldl, foldl_resolveSegment_eq_stackEval hsegs, basePath, PathStore.target]
  by_cases hhead : path.head? = some '/'
  · have hroot : segments '/' "/".toList = [] := by decide
    rw [if_pos hhead, if_pos hhead, hroot, List.foldl_nil]
  · rw [if_neg hhead, if_neg hhead, h.cwd, foldl_segments_absolutePath h.canon]

theorem Represents.resolvePath_eq
    (h : Represents st store)
    (path : Str) :
    resolvePath st.currentDir path = absolutePath (store.target path) := by
  rw [resolvePath_eq_absolutePath, h.resolveParts_eq]

theorem Represents.segments_eq
    (h : Represents st store)
    (path : Str) :
    segments '/' (resolvePath st.currentDir path) = store.target path := by
  rw [segments_resolvePath, h.resolveParts_eq]

theorem Represents.canon_target
    (h : Represents st store)
    (path : Str) :
    ∀ n ∈ store.target path, CanonName n := by
  rw [← h.resolveParts_eq]
  exact canon_resolveParts st.currentDir path

theorem Represents.changeDirectory
    (h : Represents st store)
    (path : Str) :
    (st.changeDirectory path).1 = (store.call (.changeDirectory path)).1 ∧
      Represents (st.changeDirectory path).2 (store.call (.changeDirectory path)).2 := by
  have hnode : (st.fs.findNodeMut (resolvePath st.currentDir path)).map
      (fun r => r.node.entry) = store.map.entry (store.target path) := by
    rw [← h.entry, ← h.segments_eq path, entryAt, ← findNodeMut_node, Option.map_map]
    rfl
  have hmoved : Represents { st with currentDir := absolutePath (store.target path) }
      { store with cwd := store.target path } :=
    ⟨h.valid, h.entry, rfl, h.canon_target path⟩
  rw [Statics.changeDirectory, PathStore.call]
  by_cases hroot : resolvePath st.currentDir path = "/".toList
  · have htarget : store.target path = [] := by
      rw [← h.segments_eq path, hroot]
      decide
    rw [htarget] at hmoved
    rw [if_pos hroot, htarget, if_pos store.map.root_directory]
    exact ⟨rfl, hmoved⟩
  · rw [if_neg hroot, h.resolvePath_eq path]
    rw [h.resolvePath_eq path] at hnode
    rcases hfind : st.fs.findNodeMut (absolutePath (store.target path)) with
      _ | ⟨pos, ⟨name, content⟩ | ⟨name, children⟩⟩
    · rw [hfind] at hnode
      rw [← hnode, if_neg (by simp)]
      exact ⟨rfl, h⟩
    · rw [hfind] at hnode
      rw [← hnode, if_neg (by simp [VfsNode.entry])]
      exact ⟨rfl, h⟩
    · rw [hfind] at hnode
      rw [← hnode, if_pos (by simp [VfsNode.entry])]
      exact ⟨rfl, hmoved⟩

/-- A method of the tree that succeeds where the update of the map is allowed, and
then has the entries of the updated map. -/
theorem Represents.update
    (h : Represents st store)
    {result : Bool × FileSystem} {allowed : Prop} {_ : Decidable allowed}
    {updated : allowed → PathMap Str Bytes}
    (hvalid : result.2.Valid)
    (hcan : result.1 = true ↔ allowed)
    (hfail : result.1 = false → result.2 = st.fs)
    (hdone : ∀ hallowed q, entryAt result.2.root q = (updated hallowed).entry q) :
    result.1 =
        (if hallowed : allowed then (true, { store with map := updated hallowed })
          else (false, store)).1 ∧
      Represents { st with fs := result.2 }
        (if hallowed : allowed then (true, { store with map := updated hallowed })
          else (false, store)).2 := by
  rcases hres : result.1 with _ | _
  · have hnot : ¬ allowed := by
      rw [← hcan, hres]
      exact Bool.false_ne_true
    rw [dif_neg hnot, hfail hres]
    exact ⟨rfl, h⟩
  · have hallowed : allowed := hcan.1 hres
    rw [dif_pos hallowed]
    exact ⟨rfl, hvalid, hdone hallowed, h.cwd, h.canon⟩

theorem Represents.createDir
    (h : Represents st store)
    (path : Str) :
    (st.createDir path).1 = (store.call (.createDir path)).1 ∧
      Represents (st.createDir path).2 (store.call (.createDir path)).2 := by
  obtain ⟨hcan, hfail, hdone⟩ := mkdir_entry h.valid (resolvePath st.currentDir path)
  rw [h.segments_eq path, h.map_eq] at hcan
  rw [h.segments_eq path] at hdone
  refine h.update (valid_mkdir h.valid _) hcan hfail (fun hallowed q => ?_)
  rw [hdone (hcan.2 hallowed), PathMap.entry_putDirectory, h.entry]

theorem Represents.writeFileString
    (h : Represents st store)
    (path content : Str) :
    (st.writeFileString path content).1 = (store.call (.writeFileString path content)).1 ∧
      Represents (st.writeFileString path content).2
        (store.call (.writeFileString path content)).2 := by
  obtain ⟨hcan, hfail, hdone⟩ :=
    writeFile_entry h.valid (resolvePath st.currentDir path) (asBytes content)
  rw [h.segments_eq path, h.map_eq] at hcan
  rw [h.segments_eq path] at hdone
  refine h.update (valid_writeFile h.valid _ _) hcan hfail (fun hallowed q => ?_)
  rw [hdone (hcan.2 hallowed), PathMap.entry_putFile, h.entry]

theorem Represents.removeNode
    (h : Represents st store)
    (path : Str) :
    (st.removeNode path).1 = (store.call (.removeNode path)).1 ∧
      Represents (st.removeNode path).2 (store.call (.removeNode path)).2 := by
  obtain ⟨hcan, hfail, hdone⟩ := remove_entry h.valid (resolvePath st.currentDir path)
  rw [h.segments_eq path, h.map_eq] at hcan
  rw [h.segments_eq path] at hdone
  refine h.update (valid_remove h.valid _) hcan hfail (fun hallowed q => ?_)
  rw [hdone (hcan.2 hallowed), PathMap.entry_erase, h.entry]

/-- A call has the same result on both levels, and keeps them together. -/
theorem Represents.call
    (h : Represents st store)
    (c : VfsCall) :
    (st.call c).1 = (store.call c).1 ∧ Represents (st.call c).2 (store.call c).2 := by
  cases c with
  | changeDirectory path => exact h.changeDirectory path
  | createDir path => exact h.createDir path
  | writeFileString path content => exact h.writeFileString path content
  | removeNode path => exact h.removeNode path

theorem Represents.read
    (h : Represents st store)
    (path : Str) :
    st.readFileString path = store.read path := by
  rw [Statics.readFileString, PathStore.read, ← h.entry, ← h.segments_eq path]
  rcases hread : st.fs.readFile (resolvePath st.currentDir path) with _ | content
  · have hnot : ∀ content, entryAt st.fs.root
        (segments '/' (resolvePath st.currentDir path)) ≠ some (.file content) := by
      intro content hfile
      rw [readFile_eq_some_iff.2 hfile] at hread
      cases hread
    split
    · rename_i content hfile
      exact absurd hfile (hnot content)
    · rfl
  · rw [readFile_eq_some_iff.1 hread]
    rfl

theorem Represents.lists
    (h : Represents st store)
    {path : Str} {names : List Str} {entries : List (Str × Bool)}
    (hnames : segments '/' path = names)
    (hlist : st.fs.listDirectory path = some entries) :
    store.map.entry names = some .directory ∧ store.Lists names entries := by
  subst hnames
  obtain ⟨hnodup, hmem⟩ := mem_listDirectory_iff h.valid hlist
  refine ⟨?_, hnodup, fun name isDir => ?_⟩
  · rw [← h.entry, ← isSome_listDirectory_iff, hlist]
    rfl
  · rw [hmem, h.entry]

theorem Represents.not_listed
    (h : Represents st store)
    {path : Str} {names : List Str}
    (hnames : segments '/' path = names)
    (hlist : st.fs.listDirectory path = none) :
    store.map.entry names ≠ some .directory := by
  subst hnames
  rw [← h.entry, ne_eq, ← isSome_listDirectory_iff, hlist]
  exact Bool.false_ne_true

/-- The store that the tree starts as. -/
noncomputable def PathStore.init : PathStore where
  map := FileSystem.new.toPathMap valid_new
  cwd := []

theorem represents_init :
    Represents Statics.init PathStore.init where
  valid := valid_new
  entry := fun _ => rfl
  cwd := rfl
  canon := by simp [PathStore.init]

end Calls

section Listings

end Listings

end Vfs

namespace Shell

open Vfs Scheduling

section PathCommands

/-- The lines that make a call, with its messages. -/
inductive CallLine : Str → VfsCall → (PathStore → Str) → Str → Prop
  | cd {line args : Str}
      (h : splitFirstSpace line = ("cd".toList, args)) :
      CallLine line (.changeDirectory (if args.isEmpty then "/".toList else args))
        (fun store => "changed directory to ".toList ++ absolutePath store.cwd)
        ("cd: no such directory: ".toList ++ args)
  | touch {line args : Str}
      (h : splitFirstSpace line = ("touch".toList, args))
      (hargs : args ≠ []) :
      CallLine line (.writeFileString args [])
        (fun _ => "created empty file '".toList ++ args ++ "'".toList)
        ("touch: failed to create file: ".toList ++ args)
  | write {line args path content : Str}
      (h : splitFirstSpace line = ("write".toList, args))
      (hargs : splitFirstSpace args = (path, content))
      (hpath : path ≠ []) :
      CallLine line (.writeFileString path content)
        (fun _ => "wrote to file '".toList ++ path ++ "'".toList)
        ("write: failed to write file: ".toList ++ path)
  | mkdir {line args : Str}
      (h : splitFirstSpace line = ("mkdir".toList, args))
      (hargs : args ≠ []) :
      CallLine line (.createDir args)
        (fun _ => "created directory '".toList ++ args ++ "'".toList)
        ("mkdir: failed to create directory: ".toList ++ args)
  | rm {line args : Str}
      (h : splitFirstSpace line = ("rm".toList, args))
      (hargs : args ≠ []) :
      CallLine line (.removeNode args)
        (fun _ => "removed '".toList ++ args ++ "'".toList)
        ("rm: failed to remove: ".toList ++ args)

/-- The lines that lack an argument, with the usage that they print. -/
inductive UsageLine : Str → Str → Prop
  | cat {line : Str}
      (h : splitFirstSpace line = ("cat".toList, [])) :
      UsageLine line "usage: cat <filename>".toList
  | touch {line : Str}
      (h : splitFirstSpace line = ("touch".toList, [])) :
      UsageLine line "usage: touch <filename>".toList
  | write {line args : Str}
      (h : splitFirstSpace line = ("write".toList, args))
      (hargs : (splitFirstSpace args).1 = []) :
      UsageLine line "usage: write <filename> <text>".toList
  | mkdir {line : Str}
      (h : splitFirstSpace line = ("mkdir".toList, [])) :
      UsageLine line "usage: mkdir <dirname>".toList
  | rm {line : Str}
      (h : splitFirstSpace line = ("rm".toList, [])) :
      UsageLine line "usage: rm <path>".toList

/-- The lines of a listing. -/
def listing (mark : Str) (entries : List (Str × Bool)) : List Str :=
  entries.map fun entry => mark ++ entry.1 ++ if entry.2 then "/".toList else []

/-- The commands that look at files or change them. -/
def pathCommands : List Str :=
  ["cd", "pwd", "cat", "touch", "write", "mkdir", "rm", "ls", "tree"].map String.toList

/-- A line and its reply, as a step of the store. -/
inductive PathStep : PathStore → Str × List Str → PathStore → Prop
  | call {store : PathStore} {line : Str} {c : VfsCall} {done : PathStore → Str} {failed : Str}
      (h : CallLine line c done failed) :
      PathStep store (line, [if (store.call c).1 then done (store.call c).2 else failed])
        (store.call c).2
  | usage {store : PathStore} {line text : Str}
      (h : UsageLine line text) :
      PathStep store (line, [text]) store
  | pwd {store : PathStore} {line args : Str}
      (h : splitFirstSpace line = ("pwd".toList, args)) :
      PathStep store (line, [absolutePath store.cwd]) store
  | cat {store : PathStore} {line args : Str}
      (h : splitFirstSpace line = ("cat".toList, args))
      (hargs : args ≠ []) :
      PathStep store (line, [(store.read args).getD ("cat: file not found: ".toList ++ args)])
        store
  | ls {store : PathStore} {line args : Str} {entries : List (Str × Bool)}
      (h : splitFirstSpace line = ("ls".toList, args))
      (hdir : store.map.entry (store.target args) = some .directory)
      (hlists : store.Lists (store.target args) entries) :
      PathStep store
        (line, ("Directory listing [".toList ++ absolutePath (store.target args) ++ "]:".toList) ::
          if entries.isEmpty then ["  (empty)".toList] else listing "  ".toList entries)
        store
  | noDirectory {store : PathStore} {line args : Str}
      (h : splitFirstSpace line = ("ls".toList, args))
      (hdir : store.map.entry (store.target args) ≠ some .directory) :
      PathStep store
        (line, ["ls: directory not found: ".toList ++ absolutePath (store.target args)]) store
  | tree {store : PathStore} {line args : Str} {entries : List (Str × Bool)}
      (h : splitFirstSpace line = ("tree".toList, args))
      (hlists : store.Lists [] entries) :
      PathStep store (line, ".".toList :: listing "|-- ".toList entries) store
  | other {store : PathStore} {line : Str} (texts : List Str)
      (h : (splitFirstSpace line).1 ∉ pathCommands) :
      PathStep store (line, texts) store

/-- A line of the shell and its reply. -/
def ReplyStep
    (profile : Profile) (report : Str → Str → ShellState → List Str)
    (shell : ShellState) (x : Str × List Str) (shell' : ShellState) : Prop :=
  handleCommand profile report shell x.1 = .ok (x.2, shell')

variable {profile : Profile} {report : Str → Str → ShellState → List Str}
variable {shell shell' : ShellState} {store : PathStore} {line args : Str} {texts : List Str}

/-- The step of the store that a reply of the shell stands for. -/
def Simulated (store : PathStore) (line : Str) (result : List Str × ShellState) : Prop :=
  ∃ store', PathStep store (line, result.1) store' ∧ Represents result.2.vfs store'

theorem simulated_vfsReply
    (h : Represents shell.vfs store)
    {c : VfsCall} {done : PathStore → Str} {done' failed : Str}
    (hcall : CallLine line c done failed)
    (hdone : ∀ store', Represents (shell.vfs.call c).2 store' → done' = done store') :
    Simulated store line (vfsReply shell (shell.vfs.call c) done' failed) := by
  obtain ⟨hresult, hafter⟩ := h.call c
  refine ⟨(store.call c).2, ?_, hafter⟩
  have hstep : PathStep store
      (line, [if (store.call c).1 then done (store.call c).2 else failed]) (store.call c).2 :=
    .call hcall
  rw [← hresult, ← hdone _ hafter] at hstep
  exact hstep

theorem Simulated.usage
    (h : Represents shell.vfs store)
    {text : Str}
    (husage : UsageLine line text) :
    Simulated store line ([text], shell) :=
  ⟨store, .usage husage, h⟩

theorem simulated_cd
    (h : Represents shell.vfs store)
    (hsplit : splitFirstSpace line = ("cd".toList, args)) :
    Simulated store line (cd shell args) := by
  refine simulated_vfsReply h (.cd hsplit) ?_
  intro store' hafter
  exact congrArg _ hafter.cwd

theorem simulated_cat
    (h : Represents shell.vfs store)
    (hsplit : splitFirstSpace line = ("cat".toList, args)) :
    Simulated store line (cat shell args) := by
  rw [cat]
  by_cases hargs : args = []
  · subst hargs
    exact .usage h (.cat hsplit)
  · rw [if_neg (by simpa using hargs), h.read args]
    have hstep : PathStep store
        (line, [(store.read args).getD ("cat: file not found: ".toList ++ args)]) store :=
      .cat hsplit hargs
    rcases hread : store.read args with _ | content <;> rw [hread] at hstep <;>
      exact ⟨store, hstep, h⟩

theorem simulated_touch
    (h : Represents shell.vfs store)
    (hsplit : splitFirstSpace line = ("touch".toList, args)) :
    Simulated store line (touch shell args) := by
  rw [touch]
  by_cases hargs : args = []
  · subst hargs
    exact .usage h (.touch hsplit)
  · rw [if_neg (by simpa using hargs)]
    exact simulated_vfsReply h (.touch hsplit hargs) (fun _ _ => rfl)

theorem simulated_write
    (h : Represents shell.vfs store)
    (hsplit : splitFirstSpace line = ("write".toList, args)) :
    Simulated store line (write shell args) := by
  rw [write]
  rcases hargs : splitFirstSpace args with ⟨path, content⟩
  by_cases hpath : path = []
  · subst hpath
    exact .usage h (.write hsplit (by rw [hargs]))
  · simp only [List.isEmpty_iff, if_neg hpath]
    exact simulated_vfsReply h (.write hsplit hargs hpath) (fun _ _ => rfl)

theorem simulated_mkdir
    (h : Represents shell.vfs store)
    (hsplit : splitFirstSpace line = ("mkdir".toList, args)) :
    Simulated store line (mkdir shell args) := by
  rw [mkdir]
  by_cases hargs : args = []
  · subst hargs
    exact .usage h (.mkdir hsplit)
  · rw [if_neg (by simpa using hargs)]
    exact simulated_vfsReply h (.mkdir hsplit hargs) (fun _ _ => rfl)

theorem simulated_rm
    (h : Represents shell.vfs store)
    (hsplit : splitFirstSpace line = ("rm".toList, args)) :
    Simulated store line (rm shell args) := by
  rw [rm]
  by_cases hargs : args = []
  · subst hargs
    exact .usage h (.rm hsplit)
  · rw [if_neg (by simpa using hargs)]
    exact simulated_vfsReply h (.rm hsplit hargs) (fun _ _ => rfl)

/-- The target of `ls`, with the shortcut for no argument. -/
theorem lsTarget_eq
    (h : Represents shell.vfs store)
    (args : Str) :
    (if args.isEmpty then shell.vfs.currentDir else resolvePath shell.vfs.currentDir args) =
      absolutePath (store.target args) := by
  cases args with
  | nil => exact h.cwd
  | cons ch args => exact h.resolvePath_eq (ch :: args)

theorem simulated_ls
    (h : Represents shell.vfs store)
    (hsplit : splitFirstSpace line = ("ls".toList, args)) :
    Simulated store line (shell.vfs.listDirectory args, shell) := by
  have hnames : segments '/' (absolutePath (store.target args)) = store.target args :=
    segments_absolutePath (h.canon_target args)
  rw [Statics.listDirectory]
  simp only [lsTarget_eq h args]
  rcases hlist : shell.vfs.fs.listDirectory (absolutePath (store.target args)) with _ | entries
  · exact ⟨store, .noDirectory hsplit (h.not_listed hnames hlist), h⟩
  · obtain ⟨hdir, hlists⟩ := h.lists hnames hlist
    exact ⟨store, .ls hsplit hdir hlists, h⟩

theorem simulated_tree
    (h : Represents shell.vfs store)
    (hsplit : splitFirstSpace line = ("tree".toList, args)) :
    Simulated store line (shell.vfs.printTree, shell) := by
  have hroot : segments '/' ([] : Str) = [] := rfl
  rw [Statics.printTree]
  rcases hlist : shell.vfs.fs.listDirectory [] with _ | entries
  · exact absurd store.map.root_directory (h.not_listed hroot hlist)
  · obtain ⟨-, hlists⟩ := h.lists hroot hlist
    exact ⟨store, .tree hsplit hlists, h⟩

/-- The arms that only look at the files. -/
theorem handleCommand_looks
    (profile : Profile) (report : Str → Str → ShellState → List Str) (shell : ShellState)
    {line args : Str} :
    (splitFirstSpace line = ("pwd".toList, args) →
      handleCommand profile report shell line = .ok ([shell.vfs.currentDir], shell)) ∧
    (splitFirstSpace line = ("ls".toList, args) →
      handleCommand profile report shell line = .ok (shell.vfs.listDirectory args, shell)) ∧
    (splitFirstSpace line = ("tree".toList, args) →
      handleCommand profile report shell line = .ok (shell.vfs.printTree, shell)) := by
  have hreport : "pwd".toList ∉ reportNames ∧ "ls".toList ∉ reportNames ∧
      "tree".toList ∉ reportNames := by decide
  refine ⟨?_, ?_, ?_⟩
  · intro hsplit
    rw [handleCommand, hsplit]
    simp only [if_neg hreport.1]
    rfl
  · intro hsplit
    rw [handleCommand, hsplit]
    simp only [if_neg hreport.2.1]
    rfl
  · intro hsplit
    rw [handleCommand, hsplit]
    simp only [if_neg hreport.2.2]
    rfl

/-- A line that returns is a step of the store, with the same reply. -/
theorem simulated_handleCommand
    (h : Represents shell.vfs store)
    (hreply : handleCommand profile report shell line = .ok (texts, shell')) :
    Simulated store line (texts, shell') := by
  rcases hsplit : splitFirstSpace line with ⟨cmd_name, args⟩
  have hsame : ∀ {result : List Str × ShellState},
      handleCommand profile report shell line = .ok result → Simulated store line result →
        Simulated store line (texts, shell') := by
    intro result heq hsim
    rw [hreply] at heq
    exact Except.ok.inj heq ▸ hsim
  by_cases hfile : ∃ entry ∈ fileArms, cmd_name = entry.1
  · obtain ⟨entry, hentry, rfl⟩ := hfile
    refine hsame (handleCommand_fileArm profile report shell hentry hsplit) ?_
    simp only [fileArms, List.mem_cons, List.not_mem_nil, or_false] at hentry
    rcases hentry with rfl | rfl | rfl | rfl | rfl | rfl
    · exact simulated_cd h hsplit
    · exact simulated_cat h hsplit
    · exact simulated_touch h hsplit
    · exact simulated_write h hsplit
    · exact simulated_mkdir h hsplit
    · exact simulated_rm h hsplit
  · have hother : ∀ entry ∈ fileArms, cmd_name ≠ entry.1 :=
      fun entry hentry heq => hfile ⟨entry, hentry, heq⟩
    obtain ⟨hpwd, hls, htree⟩ := @handleCommand_looks profile report shell line args
    by_cases hlooks : cmd_name = "pwd".toList ∨ cmd_name = "ls".toList ∨ cmd_name = "tree".toList
    · rcases hlooks with rfl | rfl | rfl
      · refine hsame (hpwd hsplit) ⟨store, ?_, h⟩
        rw [h.cwd]
        exact .pwd hsplit
      · exact hsame (hls hsplit) (simulated_ls h hsplit)
      · exact hsame (htree hsplit) (simulated_tree h hsplit)
    · refine ⟨store, .other texts ?_, ?_⟩
      · rw [hsplit]
        simp only [fileArms, List.forall_mem_cons] at hother
        obtain ⟨hcd, hcat, htouch, hwrite, hmkdir, hrm, -⟩ := hother
        simp only [not_or] at hlooks
        simp only [pathCommands, List.map_cons, List.map_nil, List.mem_cons, List.not_mem_nil,
          or_false, not_or]
        exact ⟨hcd, hlooks.1, hcat, htouch, hwrite, hmkdir, hrm, hlooks.2.1, hlooks.2.2⟩
      · rw [keeps_of_not_fileArm hother hsplit texts shell' hreply]
        exact h

/--
Every transcript of the shell on the initial tree, with its replies, is a
transcript of a path map: the commands name paths by the stack evaluation of
their segments, change the map as `mkdir`, `write`, `touch` and `rm` of the
abstract file system do, and print what it says.
-/
theorem shell_refines_path_store
    (profile : Profile) (report : Str → Str → ShellState → List Str)
    (start : ShellState) (hstart : start.vfs = Statics.init)
    (tr : List (ShellState × Str × List Str)) (shell : ShellState)
    (h : Run (ReplyStep profile report) start tr shell) :
    ∃ tr' store, Run PathStep PathStore.init tr' store ∧ Represents shell.vfs store ∧
      tr'.map Prod.snd = tr.map Prod.snd := by
  have hsim : ∀ s x t store, Represents s.vfs store → ReplyStep profile report s x t →
      ∃ store', PathStep store x store' ∧ Represents t.vfs store' := by
    rintro s ⟨line, texts⟩ t store hs hstep
    exact simulated_handleCommand hs hstep
  have hinit : Represents start.vfs PathStore.init := by
    rw [hstart]
    exact represents_init
  exact Run.refines hsim h hinit

/-- The shell of a new tree, and then in a new directory `a` with a file `f`. -/
def freshShell : ShellState :=
  ⟨Statics.init, Scheduler.new, "root".toList, Net.NetworkStack.new⟩

def madeShell : ShellState :=
  (mkdir freshShell "a".toList).2

def enteredShell : ShellState :=
  (cd madeShell "a".toList).2

def writtenShell : ShellState :=
  (write enteredShell "f hi".toList).2

/-- A directory is made, entered, given a file and listed. -/
theorem shell_refines_path_store_session :
    ∃ tr' store, Run PathStep PathStore.init tr' store ∧
      tr'.map Prod.snd =
        [("mkdir a".toList, ["created directory 'a'".toList]),
          ("cd a".toList, ["changed directory to /a".toList]),
          ("write f hi".toList, ["wrote to file 'f'".toList]),
          ("cat /a/../a/f".toList, ["hi".toList]),
          ("ls".toList, ["Directory listing [/a]:".toList, "  f".toList])] := by
  have hmade : ReplyStep .dev (fun _ _ _ => []) freshShell
      ("mkdir a".toList, ["created directory 'a'".toList]) madeShell := rfl
  have hentered : ReplyStep .dev (fun _ _ _ => []) madeShell
      ("cd a".toList, ["changed directory to /a".toList]) enteredShell := rfl
  have hwritten : ReplyStep .dev (fun _ _ _ => []) enteredShell
      ("write f hi".toList, ["wrote to file 'f'".toList]) writtenShell := rfl
  have hread : ReplyStep .dev (fun _ _ _ => []) writtenShell
      ("cat /a/../a/f".toList, ["hi".toList]) writtenShell := rfl
  have hlisted : ReplyStep .dev (fun _ _ _ => []) writtenShell
      ("ls".toList, ["Directory listing [/a]:".toList, "  f".toList]) writtenShell := rfl
  have hrun := ((((Run.single hmade).snoc hentered).snoc hwritten).snoc hread).snoc hlisted
  obtain ⟨tr', store, hrun', -, hevents⟩ :=
    shell_refines_path_store .dev (fun _ _ _ => []) freshShell rfl _ writtenShell hrun
  exact ⟨tr', store, hrun', hevents⟩

end PathCommands

end Shell
end OpenKernel
