import OpenKernel.InputPolling
import OpenKernel.ResolvedPaths
import OpenKernel.Shell

/-!
# Files through the shell

What `write` puts into a file is what `cat` prints, however many other commands
run in between (`write_then_cat`).  The text is cut off a line, resolved against
`CURRENT_DIR`, stored in the tree and decoded again; there is one section for
each of these.

Lines are typed: both decoders of `src/interrupts.rs` let through no blank but
the space.  So no name has another blank at its end that `cat` would trim.
-/

namespace OpenKernel
namespace Shell

open Vfs Scheduling

section Contents

/-- Bytes that a text was encoded to are decoded to that text. -/
theorem fromUtf8_asBytes
    (s : Str) :
    Statics.fromUtf8 (asBytes s) = some s := by
  have hbytes : (⟨(asBytes s).toArray⟩ : ByteArray) = s.utf8Encode := by
    apply ByteArray.ext
    rw [List.utf8Encode, List.data_toByteArray]
    rfl
  have hvalid : s.utf8Encode.IsValidUTF8 := ByteArray.isValidUTF8_utf8Encode
  have hstring : String.fromUTF8 s.utf8Encode hvalid = String.ofList s := rfl
  rw [Statics.fromUtf8, hbytes, String.fromUTF8?, dif_pos hvalid, hstring, Option.map_some,
    String.toList_ofList]

end Contents

section Persistence

variable {st : Statics} {path : Str} {data : Bytes}

/-- The call neither writes the file at a path nor removes it or an ancestor of it. -/
def SparesFile (path : Str) (st : Statics) : VfsCall → Prop
  | .writeFileString p _ => resolvePath st.currentDir p ≠ path
  | .removeNode p =>
      ¬ (resolveParts st.currentDir p ≠ [] ∧
        resolveParts st.currentDir p <+: segments '/' path)
  | _ => True

/-- A canonical path is determined by its segments. -/
theorem resolvePath_eq_of_segments
    {currentDir p : Str}
    (hpath : CanonPath path)
    (h : segments '/' path = segments '/' (resolvePath currentDir p)) :
    resolvePath currentDir p = path := by
  obtain ⟨ns, hns, rfl⟩ := hpath
  rw [segments_absolutePath hns, segments_resolvePath] at h
  rw [resolvePath_eq_absolutePath, ← h]

theorem fileAt_createDir
    (p : Str)
    (h : st.fs.Valid)
    (hfile : entryAt st.fs.root (segments '/' path) = some (.file data)) :
    entryAt (st.createDir p).2.fs.root (segments '/' path) = some (.file data) := by
  obtain ⟨hcan, hfail, hdone⟩ := mkdir_entry h (resolvePath st.currentDir p)
  change entryAt (st.fs.mkdir (resolvePath st.currentDir p)).2.root (segments '/' path) = _
  rcases hres : (st.fs.mkdir (resolvePath st.currentDir p)).1 with _ | _
  · rw [hfail hres, hfile]
  · have hne : segments '/' path ≠ segments '/' (resolvePath st.currentDir p) := by
      intro heq
      have habsent := (hcan.1 hres).2.2
      rw [entry_toPathMap, ← heq, hfile] at habsent
      cases habsent
    rw [hdone hres, if_neg hne, hfile]

theorem fileAt_writeFileString
    (p content : Str)
    (h : st.fs.Valid) (hpath : CanonPath path)
    (hfile : entryAt st.fs.root (segments '/' path) = some (.file data))
    (hspares : resolvePath st.currentDir p ≠ path) :
    entryAt (st.writeFileString p content).2.fs.root (segments '/' path) =
      some (.file data) := by
  obtain ⟨-, hfail, hdone⟩ :=
    writeFile_entry h (resolvePath st.currentDir p) (asBytes content)
  change entryAt (st.fs.writeFile (resolvePath st.currentDir p) (asBytes content)).2.root
    (segments '/' path) = _
  rcases hres : (st.fs.writeFile (resolvePath st.currentDir p) (asBytes content)).1 with _ | _
  · rw [hfail hres, hfile]
  · have hne : segments '/' path ≠ segments '/' (resolvePath st.currentDir p) :=
      fun heq => hspares (resolvePath_eq_of_segments hpath heq)
    rw [hdone hres, if_neg hne, hfile]

theorem fileAt_removeNode
    (p : Str)
    (h : st.fs.Valid)
    (hfile : entryAt st.fs.root (segments '/' path) = some (.file data))
    (hspares : SparesFile path st (.removeNode p)) :
    entryAt (st.removeNode p).2.fs.root (segments '/' path) = some (.file data) := by
  obtain ⟨hcan, hfail, hdone⟩ := remove_entry h (resolvePath st.currentDir p)
  change entryAt (st.fs.remove (resolvePath st.currentDir p)).2.root (segments '/' path) = _
  rcases hres : (st.fs.remove (resolvePath st.currentDir p)).1 with _ | _
  · rw [hfail hres, hfile]
  · have hne := (hcan.1 hres).1
    rw [segments_resolvePath] at hne hdone
    have hapart : ¬ resolveParts st.currentDir p <+: segments '/' path :=
      fun hbelow => hspares ⟨hne, hbelow⟩
    rw [hdone hres, if_neg hapart, hfile]

/-- A call that spares a file leaves it as it is. -/
theorem fileAt_call
    {c : VfsCall}
    (h : st.fs.Valid) (hpath : CanonPath path)
    (hfile : entryAt st.fs.root (segments '/' path) = some (.file data))
    (hspares : SparesFile path st c) :
    entryAt (st.call c).2.fs.root (segments '/' path) = some (.file data) := by
  cases c with
  | changeDirectory p =>
      change entryAt (st.changeDirectory p).2.fs.root _ = _
      rw [Statics.fs_changeDirectory, hfile]
  | createDir p => exact fileAt_createDir p h hfile
  | writeFileString p content => exact fileAt_writeFileString p content h hpath hfile hspares
  | removeNode p => exact fileAt_removeNode p h hfile hspares

/-- After a successful write the file holds the text. -/
theorem fileAt_of_write
    {p content : Str}
    (h : st.fs.Valid)
    (hok : (st.writeFileString p content).1 = true) :
    entryAt (st.writeFileString p content).2.fs.root
        (segments '/' (resolvePath st.currentDir p)) = some (.file (asBytes content)) := by
  obtain ⟨-, -, hdone⟩ := writeFile_entry h (resolvePath st.currentDir p) (asBytes content)
  change entryAt (st.fs.writeFile (resolvePath st.currentDir p) (asBytes content)).2.root _ = _
  rw [hdone hok, if_pos rfl]

/-- A file that holds an encoded text is read as that text from every directory. -/
theorem readFileString_of_fileAt
    {content : Str}
    (hpath : CanonPath path)
    (hfile : entryAt st.fs.root (segments '/' path) = some (.file (asBytes content))) :
    st.readFileString path = some content := by
  rw [Statics.readFileString, hpath.resolvePath_self, readFile_eq_some_iff.2 hfile,
    Option.bind_some, fromUtf8_asBytes]

end Persistence

section Lines

/-- From the space to the tilde. -/
def Printable (ch : Char) : Prop :=
  ' ' ≤ ch ∧ ch ≤ '~'

instance : DecidablePred Printable :=
  fun _ => inferInstanceAs (Decidable (_ ∧ _))

/-- A text without a blank but the space. -/
def Typed (s : Str) : Prop :=
  ∀ ch ∈ s, isWhitespace ch = true → ch = ' '

theorem printable_ofNat
    {n : Nat}
    (hlow : 0x20 ≤ n) (hhigh : n ≤ 0x7E) :
    Printable (Char.ofNat n) := by
  have hvalid : n.isValidChar := Or.inl (by omega)
  have hval : (Char.ofNat n).toNat = n := by
    rw [Char.ofNat, dif_pos hvalid]
    rfl
  have hlow' : 0x20 ≤ (Char.ofNat n).toNat := hval.symm ▸ hlow
  have hhigh' : (Char.ofNat n).toNat ≤ 0x7E := hval.symm ▸ hhigh
  exact ⟨hlow', hhigh'⟩

theorem printable_of_scancodeToEvent
    {scancode : UInt8} {ch : Char}
    (h : Input.scancodeToEvent scancode = some (.Char ch)) :
    Printable ch := by
  unfold Input.scancodeToEvent at h
  split_ifs at h with hrelease hdigit
  · -- the digits from 1 to 9
    cases h
    obtain ⟨hlow, hhigh⟩ := hdigit
    have hone : '1'.toUInt8.toNat = 0x31 := rfl
    have hsub := UInt8.toNat_sub_of_le _ _ hlow
    rw [UInt8.le_iff_toNat_le] at hlow hhigh
    simp only [UInt8.reduceToNat] at hlow hhigh hsub
    rw [UInt8.toNat_add, hone, hsub]
    exact printable_ofNat (by omega) (by omega)
  · split at h
    all_goals cases h
    all_goals decide

theorem printable_of_serialByteToEvent
    {byte : UInt8} {ch : Char}
    (h : Input.serialByteToEvent byte = some (.Char ch)) :
    Printable ch := by
  unfold Input.serialByteToEvent at h
  split at h
  · cases h
  · split at h
    · cases h
    · split at h
      · rename_i hprintable
        cases h
        obtain ⟨hlow, hhigh⟩ := hprintable
        exact printable_ofNat (UInt8.le_iff_toNat_le.1 hlow) (UInt8.le_iff_toNat_le.1 hhigh)
      · cases h

/-- The decoders let through printable characters only. -/
theorem printable_of_event
    {dev : Input.Device} {byte : UInt8} {ch : Char}
    (h : dev.event byte = some (.Char ch)) :
    Printable ch := by
  cases dev with
  | keyboard => exact printable_of_scancodeToEvent h
  | serial => exact printable_of_serialByteToEvent h

theorem eq_space_of_printable
    {ch : Char}
    (h : Printable ch)
    (hblank : isWhitespace ch = true) :
    ch = ' ' := by
  obtain ⟨hlow, hhigh⟩ := h
  have hlow' : 0x20 ≤ ch.toNat := hlow
  have hhigh' : ch.toNat ≤ 0x7E := hhigh
  have hspace : ch.toNat = 0x20 := by
    simp [isWhitespace] at hblank
    omega
  exact Char.toNat_inj.1 hspace

theorem typed_of_printable
    {s : Str}
    (h : ∀ ch ∈ s, Printable ch) :
    Typed s :=
  fun ch hch => eq_space_of_printable (h ch hch)

theorem Typed.not_blank
    {s : Str} {ch : Char}
    (h : Typed s)
    (hch : ch ∈ s) (hne : ch ≠ ' ') :
    isWhitespace ch = false :=
  Bool.eq_false_iff.2 (fun hblank => hne (h ch hch hblank))

/-- A text that begins and ends with no blank is not trimmed. -/
theorem trim_of_ends
    {s : Str}
    (hfirst : ∀ ch, s.head? = some ch → isWhitespace ch = false)
    (hlast : ∀ ch, s.getLast? = some ch → isWhitespace ch = false) :
    trim s = s := by
  have hdrop : s.dropWhile isWhitespace = s := by
    cases s with
    | nil => rfl
    | cons ch s =>
        rw [List.dropWhile_cons, hfirst ch rfl]
        rfl
  rw [trim, hdrop, List.rdropWhile_eq_self_iff]
  intro hne
  rw [hlast _ (List.getLast?_eq_some_getLast hne)]
  exact Bool.false_ne_true

/-- A text without blanks is not trimmed. -/
theorem trim_of_no_blank
    {s : Str}
    (h : ∀ ch ∈ s, isWhitespace ch = false) :
    trim s = s :=
  trim_of_ends (fun ch hch => h ch (List.mem_of_head? hch))
    (fun ch hch => h ch (List.mem_of_getLast? hch))

theorem trim_spaces_append
    (n : Nat) (s : Str) :
    trim (List.replicate n ' ' ++ s) = trim s := by
  induction n with
  | zero => rfl
  | succ n ih =>
      have hspace : isWhitespace ' ' = true := by decide
      rw [← ih, List.replicate_succ, List.cons_append, trim, List.dropWhile_cons, if_pos hspace]
      rfl

theorem trim_append_spaces
    (s : Str) (n : Nat) :
    trim (s ++ List.replicate n ' ') = trim s := by
  induction n with
  | zero => rw [List.replicate_zero, List.append_nil]
  | succ n ih =>
      rw [List.replicate_succ', ← List.append_assoc, ← ih]
      generalize s ++ List.replicate n ' ' = u
      have hspace : isWhitespace ' ' = true := by decide
      rw [trim, trim, List.dropWhile_append]
      by_cases hnone : u.dropWhile isWhitespace = []
      · simp [hnone, hspace]
      · rw [if_neg (by simpa using hnone), List.rdropWhile_concat_pos _ _ _ hspace]

variable {p t : Str}

/-- The words of a line of `write`, after its name. -/
theorem splitFirstSpace_of_words
    (hp : p ≠ []) (hword : ∀ ch ∈ p, isWhitespace ch = false)
    (htext : Typed t) (hfirst : t.head? ≠ some ' ') (hlast : t.getLast? ≠ some ' ')
    (m n : Nat) :
    splitFirstSpace (trim (List.replicate m ' ' ++ (p ++ List.replicate (n + 1) ' ' ++ t))) =
      (p, t) := by
  have hpspace : ' ' ∉ p := by
    intro hmem
    exact absurd (hword ' ' hmem) (by decide)
  rw [trim_spaces_append]
  by_cases ht : t = []
  · -- the text is empty: the spaces after the path are trimmed away
    have hnone : p.idxOf? ' ' = none := List.idxOf?_eq_none_iff.2 hpspace
    rw [ht, List.append_nil, trim_append_spaces, trim_of_no_blank hword, splitFirstSpace, hnone]
  · have hfirst' : ∀ ch, t.head? = some ch → isWhitespace ch = false := by
      intro ch hch
      refine htext.not_blank (List.mem_of_head? hch) ?_
      rintro rfl
      exact hfirst hch
    have hlast' : ∀ ch, t.getLast? = some ch → isWhitespace ch = false := by
      intro ch hch
      refine htext.not_blank (List.mem_of_getLast? hch) ?_
      rintro rfl
      exact hlast hch
    have hargs : trim (p ++ List.replicate (n + 1) ' ' ++ t) =
        p ++ List.replicate (n + 1) ' ' ++ t := by
      refine trim_of_ends ?_ ?_
      · intro ch hch
        rw [List.append_assoc, List.head?_append_of_ne_nil _ hp] at hch
        exact hword ch (List.mem_of_head? hch)
      · intro ch hch
        rw [List.getLast?_append_of_ne_nil _ ht] at hch
        exact hlast' ch hch
    rw [hargs, List.replicate_succ, List.append_assoc, List.cons_append, splitFirstSpace_append _ hpspace,
      trim_spaces_append, trim_of_ends hfirst' hlast']

end Lines

section Commands

/-- The arms that work on files, by their names. -/
def fileArms : List (Str × (ShellState → Str → List Str × ShellState)) :=
  [("cd".toList, cd), ("cat".toList, cat), ("touch".toList, touch), ("write".toList, write),
    ("mkdir".toList, mkdir), ("rm".toList, rm)]

/-- The call of the file system that a line makes, if it makes one. -/
def vfsCall (line : Str) : Option VfsCall :=
  let (cmd_name, args) := splitFirstSpace line
  if cmd_name = "cd".toList then
    some (.changeDirectory (if args.isEmpty then "/".toList else args))
  else if cmd_name = "touch".toList then
    if args.isEmpty then none else some (.writeFileString args [])
  else if cmd_name = "write".toList then
    let (path, content) := splitFirstSpace args
    if path.isEmpty then none else some (.writeFileString path content)
  else if cmd_name = "mkdir".toList then
    if args.isEmpty then none else some (.createDir args)
  else if cmd_name = "rm".toList then
    if args.isEmpty then none else some (.removeNode args)
  else
    none

/-- The statics after a line. -/
def vfsAfter (st : Statics) (line : Str) : Statics :=
  match vfsCall line with
  | some c => (st.call c).2
  | none => st

variable {profile : Profile} {report : Str → Str → ShellState → List Str}
variable {shell shell' : ShellState} {line args : Str} {texts : List Str}

/-- A line with the name of a file arm runs that arm. -/
theorem handleCommand_fileArm
    (profile : Profile) (report : Str → Str → ShellState → List Str) (shell : ShellState)
    {entry : Str × (ShellState → Str → List Str × ShellState)}
    (hentry : entry ∈ fileArms)
    (hsplit : splitFirstSpace line = (entry.1, args)) :
    handleCommand profile report shell line = .ok (entry.2 shell args) := by
  have hreport : ∀ entry ∈ fileArms, entry.1 ∉ reportNames := by
    simp only [fileArms, List.forall_mem_cons]
    decide
  have hname := hreport entry hentry
  rw [handleCommand, hsplit]
  simp only [if_neg hname]
  simp only [fileArms, List.mem_cons, List.not_mem_nil, or_false] at hentry
  rcases hentry with rfl | rfl | rfl | rfl | rfl | rfl
  all_goals rfl

theorem vfs_cat
    (shell : ShellState) (args : Str) :
    (cat shell args).2.vfs = shell.vfs := by
  rw [cat]
  split
  · rfl
  · split <;> rfl

theorem vfs_prompt
    (shell : ShellState) (args : Str) :
    (prompt shell args).2.vfs = shell.vfs := by
  rw [prompt]
  split <;> rfl

theorem vfs_spawn
    (shell : ShellState) (args : Str) :
    (spawn shell args).2.vfs = shell.vfs := by
  rw [spawn]
  rcases spawnTask shell.sched "user-worker" with ⟨_ | id, sched⟩ <;> rfl

theorem vfs_kill
    (shell : ShellState) (args : Str) :
    (kill shell args).2.vfs = shell.vfs := by
  rw [kill]
  rcases parseUsize args with _ | pid
  · rfl
  · rcases hkill : killTask shell.sched pid with ⟨_ | _, sched⟩ <;> simp [hkill]

theorem vfs_write
    (shell : ShellState) (args : Str) :
    (write shell args).2.vfs =
      if (splitFirstSpace args).1.isEmpty then shell.vfs
      else (shell.vfs.writeFileString (splitFirstSpace args).1 (splitFirstSpace args).2).2 := by
  rw [write]
  rcases splitFirstSpace args with ⟨_ | ⟨ch, path⟩, content⟩ <;> rfl

theorem vfsCall_write
    (hsplit : splitFirstSpace line = ("write".toList, args)) :
    vfsCall line =
      if (splitFirstSpace args).1.isEmpty then none
      else some (.writeFileString (splitFirstSpace args).1 (splitFirstSpace args).2) := by
  rw [vfsCall, hsplit]
  rfl

/-- An arm that works on files makes the call of its line. -/
theorem vfs_fileArm
    (shell : ShellState)
    {entry : Str × (ShellState → Str → List Str × ShellState)}
    (hentry : entry ∈ fileArms)
    (hsplit : splitFirstSpace line = (entry.1, args)) :
    (entry.2 shell args).2.vfs = vfsAfter shell.vfs line := by
  simp only [fileArms, List.mem_cons, List.not_mem_nil, or_false] at hentry
  rcases hentry with rfl | rfl | rfl | rfl | rfl | rfl
  · rw [vfsAfter, vfsCall, hsplit]
    rfl
  · rw [vfsAfter, vfsCall, hsplit]
    exact vfs_cat shell args
  · rw [vfsAfter, vfsCall, hsplit]
    cases args <;> rfl
  · refine (vfs_write shell args).trans ?_
    rw [vfsAfter, vfsCall_write hsplit]
    split <;> rfl
  · rw [vfsAfter, vfsCall, hsplit]
    cases args <;> rfl
  · rw [vfsAfter, vfsCall, hsplit]
    cases args <;> rfl

theorem vfsCall_of_not_fileArm
    {cmd_name : Str}
    (hother : ∀ entry ∈ fileArms, cmd_name ≠ entry.1)
    (hsplit : splitFirstSpace line = (cmd_name, args)) :
    vfsCall line = none := by
  simp only [fileArms, List.forall_mem_cons] at hother
  obtain ⟨hcd, -, htouch, hwrite, hmkdir, hrm, -⟩ := hother
  simp only [vfsCall, hsplit, if_neg hcd, if_neg htouch, if_neg hwrite, if_neg hmkdir,
    if_neg hrm]

/-- A reply that leaves the statics alone. -/
def Keeps (shell : ShellState) (reply : Reply) : Prop :=
  ∀ texts shell', reply = .ok (texts, shell') → shell'.vfs = shell.vfs

theorem keeps_ok
    {result : List Str × ShellState}
    (h : result.2.vfs = shell.vfs) :
    Keeps shell (.ok result) := by
  rintro texts shell' ⟨⟩
  exact h

theorem keeps_ping
    (shell : ShellState) (args : Str) :
    Keeps shell (ping shell args profile) := by
  rw [ping]
  rcases shell.net.ping profile (Net.pingTarget args) with panic | ⟨answered, net⟩
  · rintro texts shell' ⟨⟩
  · exact keeps_ok rfl

theorem keeps_ite
    {c : Prop} [Decidable c] {yes no : Reply}
    (hyes : c → Keeps shell yes) (hno : ¬ c → Keeps shell no) :
    Keeps shell (if c then yes else no) := by
  by_cases hc : c
  · rw [if_pos hc]
    exact hyes hc
  · rw [if_neg hc]
    exact hno hc

/-- The other arms leave the statics alone. -/
theorem keeps_of_not_fileArm
    {cmd_name : Str}
    (hother : ∀ entry ∈ fileArms, cmd_name ≠ entry.1)
    (hsplit : splitFirstSpace line = (cmd_name, args)) :
    Keeps shell (handleCommand profile report shell line) := by
  simp only [fileArms, List.forall_mem_cons] at hother
  obtain ⟨hcd, hcat, htouch, hwrite, hmkdir, hrm, -⟩ := hother
  rw [handleCommand, hsplit]
  refine keeps_ite (fun _ => keeps_ok rfl) fun _ => ?_
  refine keeps_ite (fun _ => keeps_ok rfl) fun _ => ?_
  refine keeps_ite (fun _ => keeps_ok rfl) fun _ => ?_
  refine keeps_ite (fun _ => keeps_ping shell args) fun _ => ?_
  refine keeps_ite (fun _ => keeps_ok rfl) fun _ => ?_
  refine keeps_ite (fun h => absurd h hcd) fun _ => ?_
  refine keeps_ite (fun _ => keeps_ok rfl) fun _ => ?_
  refine keeps_ite (fun _ => keeps_ok (vfs_prompt shell args)) fun _ => ?_
  refine keeps_ite (fun _ => keeps_ok rfl) fun _ => ?_
  refine keeps_ite (fun _ => keeps_ok rfl) fun _ => ?_
  refine keeps_ite (fun h => absurd h hcat) fun _ => ?_
  refine keeps_ite (fun h => absurd h htouch) fun _ => ?_
  refine keeps_ite (fun h => absurd h hwrite) fun _ => ?_
  refine keeps_ite (fun h => absurd h hmkdir) fun _ => ?_
  refine keeps_ite (fun h => absurd h hrm) fun _ => ?_
  refine keeps_ite (fun _ => keeps_ok rfl) fun _ => ?_
  refine keeps_ite (fun _ => keeps_ok rfl) fun _ => ?_
  refine keeps_ite (fun _ => keeps_ok (vfs_spawn shell args)) fun _ => ?_
  refine keeps_ite (fun _ => keeps_ok (vfs_kill shell args)) fun _ => ?_
  refine keeps_ite (fun _ => ?_) fun _ => ?_
  · rcases calcArm profile args with panic | texts
    · rintro texts shell' ⟨⟩
    · exact keeps_ok rfl
  · refine keeps_ite (fun _ => ?_) fun _ => keeps_ok rfl
    rintro texts shell' ⟨⟩

/-- A line changes the statics by its call, or not at all. -/
theorem vfs_handleCommand
    (h : handleCommand profile report shell line = .ok (texts, shell')) :
    shell'.vfs = vfsAfter shell.vfs line := by
  rcases hsplit : splitFirstSpace line with ⟨cmd_name, args⟩
  by_cases hfile : ∃ entry ∈ fileArms, cmd_name = entry.1
  · obtain ⟨entry, hentry, rfl⟩ := hfile
    rw [handleCommand_fileArm profile report shell hentry hsplit] at h
    have hshell : (entry.2 shell args).2 = shell' := by rw [Except.ok.inj h]
    rw [← hshell, vfs_fileArm shell hentry hsplit]
  · have hother : ∀ entry ∈ fileArms, cmd_name ≠ entry.1 :=
      fun entry hentry heq => hfile ⟨entry, hentry, heq⟩
    rw [keeps_of_not_fileArm hother hsplit texts shell' h, vfsAfter, vfsCall_of_not_fileArm hother hsplit]

end Commands

section TypedPaths

variable {currentDir p line args name : Str}

/-- The characters of joined parts. -/
theorem mem_intercalate_iff
    {parts : List Str} {ch c : Char} :
    ch ∈ [c].intercalate parts ↔ (ch = c ∧ 2 ≤ parts.length) ∨ ∃ part ∈ parts, ch ∈ part := by
  induction parts with
  | nil => simp [List.intercalate]
  | cons part rest ih =>
      by_cases hrest : rest = []
      · subst hrest
        simp [List.intercalate_singleton]
      · have hlength : 1 ≤ rest.length := List.length_pos_iff.2 hrest
        rw [List.intercalate_cons_of_ne_nil hrest]
        simp only [List.mem_append, ih, List.mem_cons, List.length_cons, List.not_mem_nil,
          or_false, exists_eq_or_imp]
        constructor
        · rintro ((hpart | rfl) | ⟨rfl, -⟩ | hmem)
          · exact Or.inr (Or.inl hpart)
          · exact Or.inl ⟨rfl, by omega⟩
          · exact Or.inl ⟨rfl, by omega⟩
          · exact Or.inr (Or.inr hmem)
        · rintro (⟨rfl, -⟩ | hpart | hmem)
          · exact Or.inl (Or.inr rfl)
          · exact Or.inl (Or.inl hpart)
          · exact Or.inr (Or.inr hmem)

theorem typed_splitOn
    {s seg : Str}
    (h : Typed s) (hseg : seg ∈ s.splitOn '/') :
    Typed seg := by
  intro ch hch
  have hmem : ch ∈ ['/'].intercalate (s.splitOn '/') :=
    mem_intercalate_iff.2 (Or.inr ⟨seg, hseg, hch⟩)
  rw [List.intercalate_splitOn] at hmem
  exact h ch hmem

/-- The loop of `resolve_path` keeps segments that it is given. -/
theorem mem_foldl_resolveSegment
    {segs parts : List Str} {n : Str}
    (h : n ∈ segs.foldl resolveSegment parts) :
    n ∈ parts ∨ n ∈ segs := by
  induction segs generalizing parts with
  | nil => exact Or.inl h
  | cons seg segs ih =>
      rcases ih h with hmem | hmem
      · rw [resolveSegment] at hmem
        split_ifs at hmem
        · exact Or.inl hmem
        · exact Or.inl (List.dropLast_subset parts hmem)
        · rcases List.mem_append.1 hmem with hold | hnew
          · exact Or.inl hold
          · exact Or.inr (List.mem_cons.2 (Or.inl (List.mem_singleton.1 hnew)))
      · exact Or.inr (List.mem_cons_of_mem seg hmem)

theorem typed_absolutePath
    {ns : List Str}
    (h : ∀ n ∈ ns, Typed n) :
    Typed (absolutePath ns) := by
  have hslash : isWhitespace '/' = false := by decide
  intro ch hch hblank
  rcases List.mem_cons.1 hch with rfl | hch
  · simp [hslash] at hblank
  · rcases mem_intercalate_iff.1 hch with ⟨rfl, -⟩ | ⟨n, hn, hch⟩
    · simp [hslash] at hblank
    · exact h n hn ch hch hblank

/-- Typed paths are resolved to typed paths. -/
theorem typed_resolvePath
    (hdir : Typed currentDir) (hp : Typed p) :
    Typed (resolvePath currentDir p) := by
  rw [resolvePath_eq_absolutePath]
  apply typed_absolutePath
  intro n hn
  rcases mem_foldl_resolveSegment hn with hnil | hseg
  · cases hnil
  · rcases List.mem_append.1 hseg with hbase | hinput
    · split at hbase
      · exact typed_splitOn (fun ch hch => by
          obtain rfl : ch = '/' := by simpa using hch
          decide) hbase
      · exact typed_splitOn hdir hbase
    · exact typed_splitOn hp hinput

theorem typed_args
    (h : Typed line)
    (hsplit : splitFirstSpace line = (name, args)) :
    Typed args := by
  have hsub : args ⊆ line := by
    rw [splitFirstSpace] at hsplit
    split at hsplit
    · obtain rfl := (Prod.mk.inj hsplit).2
      exact List.Subset.trans (List.rdropWhile_prefix _ _).subset
        (List.Subset.trans (List.dropWhile_sublist _).subset (List.drop_subset _ _))
    · obtain rfl := (Prod.mk.inj hsplit).2
      exact List.nil_subset _
  exact fun ch hch => h ch (hsub hch)

end TypedPaths

section Runs

/-- A command line that returns. -/
def CommandStep
    (profile : Profile) (report : Str → Str → ShellState → List Str)
    (shell : ShellState) (line : Str) (shell' : ShellState) : Prop :=
  ∃ texts, handleCommand profile report shell line = .ok (texts, shell')

/-- The command neither touches or writes the file at a path nor removes it or an
ancestor of it. -/
def Spares (path : Str) (shell : ShellState) (line : Str) : Prop :=
  ∀ c, vfsCall line = some c → SparesFile path shell.vfs c

/-- `write`, the path and the text, with spaces between them. -/
def writeLine (m : Nat) (p : Str) (n : Nat) (t : Str) : Str :=
  "write".toList ++ List.replicate (m + 1) ' ' ++ p ++ List.replicate (n + 1) ' ' ++ t

/-- What the statics satisfy whatever is typed. -/
structure Sound (st : Statics) : Prop where
  valid : st.fs.Valid
  typed : Typed st.currentDir

/-- The tree is valid, and the file at a path holds a text. -/
structure HoldsText (path t : Str) (st : Statics) : Prop where
  valid : st.fs.Valid
  fileAt : entryAt st.fs.root (segments '/' path) = some (.file (asBytes t))

variable {profile : Profile} {report : Str → Str → ShellState → List Str}
variable {shell shell' : ShellState} {line path : Str}

theorem typed_root :
    Typed "/".toList := by
  intro ch hch
  obtain rfl : ch = '/' := by simpa using hch
  decide

theorem sound_init :
    Sound Statics.init where
  valid := valid_new
  typed := typed_root

theorem typed_of_vfsCall_changeDirectory
    {p : Str}
    (h : Typed line)
    (hcall : vfsCall line = some (.changeDirectory p)) :
    Typed p := by
  rcases hsplit : splitFirstSpace line with ⟨cmd_name, args⟩
  simp only [vfsCall, hsplit] at hcall
  split_ifs at hcall
  · cases hcall
    exact typed_root
  · cases hcall
    exact typed_args h hsplit
  -- the other commands make other calls
  all_goals cases hcall

/-- One typed command. -/
theorem sound_commandStep
    (h : Sound shell.vfs) (hline : Typed line)
    (hstep : CommandStep profile report shell line shell') :
    Sound shell'.vfs := by
  obtain ⟨texts, hreply⟩ := hstep
  rw [vfs_handleCommand hreply, vfsAfter]
  rcases hcall : vfsCall line with _ | c
  · exact h
  · refine ⟨valid_step h.valid rfl, ?_⟩
    cases c with
    | changeDirectory p =>
        rcases currentDir_changeDirectory shell.vfs p with hsame | hnew
        · exact hsame ▸ h.typed
        · exact hnew ▸ typed_resolvePath h.typed (typed_of_vfsCall_changeDirectory hline hcall)
    | createDir p => exact h.typed
    | writeFileString p content => exact h.typed
    | removeNode p => exact h.typed

/-- A command that spares a file leaves its text. -/
theorem holdsText_commandStep
    {t : Str}
    (hpath : CanonPath path)
    (h : HoldsText path t shell.vfs)
    (hspares : Spares path shell line)
    (hstep : CommandStep profile report shell line shell') :
    HoldsText path t shell'.vfs := by
  obtain ⟨texts, hreply⟩ := hstep
  rw [vfs_handleCommand hreply, vfsAfter]
  rcases hcall : vfsCall line with _ | c
  · exact h
  · exact ⟨valid_step h.valid rfl, fileAt_call h.valid hpath h.fileAt (hspares c hcall)⟩

/-- The states that typed commands lead to. -/
theorem sound_run
    {start : ShellState} {tr : List (ShellState × Str)}
    (hrun : Run (CommandStep profile report) start tr shell)
    (hstart : start.vfs = Statics.init)
    (htyped : ∀ x ∈ tr, Typed x.2) :
    Sound shell.vfs := by
  have hkeep : ∀ s line u, Sound s.vfs → Typed line → CommandStep profile report s line u →
      Sound u.vfs :=
    fun _ _ _ h hline hstep => sound_commandStep h hline hstep
  have hfresh : Sound start.vfs := by
    rw [hstart]
    exact sound_init
  exact Run.invariant_of_guard hkeep hrun hfresh htyped

/-- The states that commands lead to which spare a file. -/
theorem holdsText_run
    {t : Str} {tr : List (ShellState × Str)}
    (hpath : CanonPath path)
    (hrun : Run (CommandStep profile report) shell tr shell')
    (h : HoldsText path t shell.vfs)
    (hspares : ∀ x ∈ tr, Spares path x.1 x.2) :
    HoldsText path t shell'.vfs := by
  have hkeep : ∀ s line u, HoldsText path t s.vfs → Spares path s line →
      CommandStep profile report s line u → HoldsText path t u.vfs :=
    fun _ _ _ h hline hstep => holdsText_commandStep hpath h hline hstep
  exact Run.invariant_of_guard hkeep hrun h hspares

/-- A line of `write` calls the file system with its two words. -/
theorem handleCommand_writeLine
    (profile : Profile) (report : Str → Str → ShellState → List Str) (shell : ShellState)
    {p t : Str}
    (hp : p ≠ []) (hword : ∀ ch ∈ p, isWhitespace ch = false)
    (htext : Typed t) (hfirst : t.head? ≠ some ' ') (hlast : t.getLast? ≠ some ' ')
    (m n : Nat) :
    handleCommand profile report shell (writeLine m p n t) =
      .ok (vfsReply shell (shell.vfs.writeFileString p t)
        ("wrote to file '".toList ++ p ++ "'".toList)
        ("write: failed to write file: ".toList ++ p)) := by
  have hspace : ' ' ∉ "write".toList := by decide
  have hline : writeLine m p n t = "write".toList ++
      ' ' :: (List.replicate m ' ' ++ (p ++ List.replicate (n + 1) ' ' ++ t)) := by
    unfold writeLine
    generalize "write".toList = name
    simp [List.replicate_succ]
  have hentry : ("write".toList, write) ∈ fileArms := by simp [fileArms]
  have harm := handleCommand_fileArm profile report shell hentry
    (splitFirstSpace_append (List.replicate m ' ' ++ (p ++ List.replicate (n + 1) ' ' ++ t)) hspace)
  rw [hline, harm]
  simp only [write, splitFirstSpace_of_words hp hword htext hfirst hlast, List.isEmpty_iff, hp,
    if_false]

theorem message_ne
    (p : Str) :
    "wrote to file '".toList ++ p ++ "'".toList ≠ "write: failed to write file: ".toList ++ p := by
  intro heq
  have hthird := congrArg (fun s => s[2]?) heq
  simp at hthird

/-- A success message means that the call returned `true`. -/
theorem vfsReply_done
    {result : Bool × Statics} {done failed : Str}
    (hne : done ≠ failed)
    (h : vfsReply shell result done failed = ([done], shell')) :
    result.1 = true ∧ shell'.vfs = result.2 := by
  obtain ⟨htext, rfl⟩ := Prod.mk.inj h
  refine ⟨?_, rfl⟩
  by_contra hfailed
  rw [if_neg hfailed] at htext
  exact hne (List.cons.inj htext).1.symm

/-- `cat` of a path without blanks. -/
theorem handleCommand_cat
    (profile : Profile) (report : Str → Str → ShellState → List Str)
    {content : Str}
    (hne : path ≠ []) (hblank : ∀ ch ∈ path, isWhitespace ch = false)
    (hread : shell.vfs.readFileString path = some content) :
    handleCommand profile report shell ("cat ".toList ++ path) = .ok ([content], shell) := by
  have hsplit : splitFirstSpace ("cat ".toList ++ path) = ("cat".toList, path) := by
    have hspace : ' ' ∉ "cat".toList := by decide
    have hcut := splitFirstSpace_append path hspace
    rw [trim_of_no_blank hblank] at hcut
    exact hcut
  have hentry : ("cat".toList, cat) ∈ fileArms := by simp [fileArms]
  have harm := handleCommand_fileArm profile report shell hentry hsplit
  rw [harm]
  simp only [cat, List.isEmpty_iff, hne, if_false, hread]

/--
In every state that typed commands lead to: when `write` reports success, `cat`
of the resolved path prints the text, after any further commands that neither
touch or write that file nor remove it or an ancestor of it.
-/
theorem write_then_cat
    (profile : Profile) (report : Str → Str → ShellState → List Str)
    (start : ShellState) (hstart : start.vfs = Statics.init)
    (before : List (ShellState × Str)) (shell : ShellState)
    (hbefore : Run (CommandStep profile report) start before shell)
    (htyped : ∀ x ∈ before, Typed x.2)
    (p t : Str)
    (hp : p ≠ []) (hword : ∀ ch ∈ p, Printable ch ∧ ch ≠ ' ')
    (htext : ∀ ch ∈ t, Printable ch)
    (hfirst : t.head? ≠ some ' ') (hlast : t.getLast? ≠ some ' ')
    (m n : Nat) (written : ShellState)
    (hwrite : handleCommand profile report shell (writeLine m p n t) =
      .ok (["wrote to file '".toList ++ p ++ "'".toList], written))
    (after : List (ShellState × Str)) (shell' : ShellState)
    (hafter : Run (CommandStep profile report) written after shell')
    (hspares : ∀ x ∈ after, Spares (resolvePath shell.vfs.currentDir p) x.1 x.2)
    (hspace : ' ' ∉ resolvePath shell.vfs.currentDir p) :
    handleCommand profile report shell'
        ("cat ".toList ++ resolvePath shell.vfs.currentDir p) = .ok ([t], shell') := by
  have hptyped : Typed p := typed_of_printable (fun ch hch => (hword ch hch).1)
  have hpblank : ∀ ch ∈ p, isWhitespace ch = false :=
    fun ch hch => hptyped.not_blank hch (hword ch hch).2
  have hsound : Sound shell.vfs := sound_run hbefore hstart htyped
  have hcanon := canonPath_resolvePath shell.vfs.currentDir p
  -- the write itself
  rw [handleCommand_writeLine profile report shell hp hpblank (typed_of_printable htext) hfirst
    hlast] at hwrite
  obtain ⟨hok, hvfs⟩ := vfsReply_done (message_ne p) (Except.ok.inj hwrite)
  have hwritten : HoldsText (resolvePath shell.vfs.currentDir p) t written.vfs := by
    rw [hvfs]
    exact ⟨valid_writeFile hsound.valid _ _, fileAt_of_write hsound.valid hok⟩
  -- the commands after it
  have hend := holdsText_run hcanon hafter hwritten hspares
  -- the `cat`
  have hpath := typed_resolvePath hsound.typed hptyped
  have hblank : ∀ ch ∈ resolvePath shell.vfs.currentDir p, isWhitespace ch = false := by
    intro ch hch
    refine hpath.not_blank hch ?_
    rintro rfl
    exact hspace hch
  have hne : resolvePath shell.vfs.currentDir p ≠ [] := by
    rw [resolvePath_eq_absolutePath]
    exact List.cons_ne_nil _ _
  exact handleCommand_cat profile report hne hblank (readFileString_of_fileAt hcanon hend.fileAt)

/-- A file written in `/home` and printed from `/bin`, after a removal there. -/
theorem write_then_cat_home :
    ∃ shell', shell'.vfs.currentDir = "/bin".toList ∧
      handleCommand .dev (fun _ _ _ => []) shell' "cat /home/a".toList =
        .ok (["hi  you".toList], shell') := by
  let start : ShellState := ⟨Statics.init, Scheduler.new, "root".toList, Net.NetworkStack.new⟩
  let home := (cd start "home".toList).2
  let written : ShellState :=
    { home with vfs := (home.vfs.writeFileString "a".toList "hi  you".toList).2 }
  let bin := (cd written "/bin".toList).2
  let removed := (rm bin "init".toList).2
  have hbefore : Run (CommandStep .dev (fun _ _ _ => [])) start [(start, "cd home".toList)] home :=
    Run.single ⟨_, rfl⟩
  have htyped : ∀ x ∈ [(start, "cd home".toList)], Typed x.2 := by
    intro x hx
    obtain rfl := List.mem_singleton.1 hx
    exact typed_of_printable (by simp [Printable])
  have hafter : Run (CommandStep .dev (fun _ _ _ => [])) written
      ([(written, "cd /bin".toList)] ++ [(bin, "rm init".toList)]) removed :=
    Run.append (Run.single ⟨_, rfl⟩) (Run.single ⟨_, rfl⟩)
  have hok : (home.vfs.writeFileString "a".toList "hi  you".toList).1 = true := by
    decide +kernel
  have hwrite : handleCommand .dev (fun _ _ _ => []) home (writeLine 0 "a".toList 1 "hi  you".toList)
      = .ok (["wrote to file '".toList ++ "a".toList ++ "'".toList], written) := by
    rw [handleCommand_writeLine .dev _ home (by decide) (by simp [isWhitespace])
      (typed_of_printable (by simp [Printable])) (by decide) (by decide), vfsReply, if_pos hok]
  have hspares : ∀ x ∈ [(written, "cd /bin".toList)] ++ [(bin, "rm init".toList)],
      Spares (resolvePath home.vfs.currentDir "a".toList) x.1 x.2 := by
    intro x hx c hc
    rcases List.mem_append.1 hx with hx | hx
    · obtain rfl := List.mem_singleton.1 hx
      cases hc
      trivial
    · obtain rfl := List.mem_singleton.1 hx
      cases hc
      change ¬ (_ ∧ _)
      decide +kernel
  have hcat := write_then_cat .dev (fun _ _ _ => []) start rfl _ home hbefore htyped
    "a".toList "hi  you".toList (by decide) (by simp [Printable]) (by simp [Printable]) (by decide)
    (by decide)
    0 1 written hwrite _ removed hafter hspares (by decide +kernel)
  have hline : "cat ".toList ++ resolvePath home.vfs.currentDir "a".toList =
      "cat /home/a".toList := by
    decide +kernel
  rw [hline] at hcat
  exact ⟨removed, by decide +kernel, hcat⟩

end Runs

end Shell
end OpenKernel
