import OpenKernel.WorkingDirectory

/-!
# What `resolve_path` computes

`resolve_path` splits its base and its argument, runs a stack over the pieces
and joins the stack again.  Its result is the stack evaluation (`stackEval`) of
the segments that the two texts consist of.

* `resolve_path_canonical`: the result is always a canonical path and resolves
  to itself, and so does every `CURRENT_DIR` that `change_directory` can store;
* `change_directory_composes`: after `cd a` every call on `b` acts on the path
  that the call on `a/b` would have acted on.

Both rest on the fact that joining the stack and cutting the text again gives
back the stack, so a resolved base contributes its own stack.
-/

namespace OpenKernel
namespace Vfs

section StackEvaluation

/-- The names on the stack after the segments of a path, from the left; `..` pops, and
leaves the empty stack as it is. -/
def stackEval : List Str → List Str → List Str
  | stack, [] => stack
  | stack, segment :: rest =>
      if segment = ".".toList then
        stackEval stack rest
      else if segment = "..".toList then
        stackEval stack.dropLast rest
      else
        stackEval (stack ++ [segment]) rest

/-- On segments the loop of `resolve_path` is the stack evaluation. -/
theorem foldl_resolveSegment_eq_stackEval
    {segs : List Str}
    (hsegs : ∀ seg ∈ segs, seg ≠ [])
    (stack : List Str) :
    segs.foldl resolveSegment stack = stackEval stack segs := by
  induction segs generalizing stack with
  | nil => rfl
  | cons seg segs ih =>
      have hne : seg ≠ [] := hsegs seg (by simp)
      have hrest := ih (fun s hs => hsegs s (List.mem_cons_of_mem seg hs))
      rw [List.foldl_cons, hrest, stackEval, resolveSegment]
      by_cases hdot : seg = ".".toList
      · rw [if_pos (.inr hdot), if_pos hdot]
      · rw [if_neg (not_or.2 ⟨hne, hdot⟩), if_neg hdot]
        split <;> rfl

theorem ne_nil_of_mem_segments
    {s seg : Str}
    (h : seg ∈ segments '/' s) :
    seg ≠ [] :=
  (isSegmentList_segments s seg h).1

/-- The base that `resolve_path` starts from. -/
def basePath (currentDir inputPath : Str) : Str :=
  if inputPath.head? = some '/' then "/".toList else currentDir

/-- The loop in terms of the segments of its two texts. -/
theorem resolveParts_eq_foldl
    (currentDir inputPath : Str) :
    resolveParts currentDir inputPath =
      (segments '/' inputPath).foldl resolveSegment
        ((segments '/' (basePath currentDir inputPath)).foldl resolveSegment []) := by
  unfold resolveParts
  rw [List.foldl_append, foldl_resolveSegment_segments, foldl_resolveSegment_segments]
  rfl

/-- A canonical base contributes its own segments. -/
theorem foldl_segments_absolutePath
    {ns : List Str}
    (h : ∀ n ∈ ns, CanonName n) :
    (segments '/' (absolutePath ns)).foldl resolveSegment [] = ns := by
  rw [segments_absolutePath h, foldl_resolveSegment_of_canon h, List.nil_append]

end StackEvaluation

section Canonical

/-- A path of names that a path can spell, joined by single slashes. -/
def CanonPath (path : Str) : Prop :=
  ∃ ns : List Str, (∀ n ∈ ns, CanonName n) ∧ path = absolutePath ns

theorem canonPath_resolvePath
    (currentDir inputPath : Str) :
    CanonPath (resolvePath currentDir inputPath) :=
  ⟨resolveParts currentDir inputPath, canon_resolveParts currentDir inputPath,
    resolvePath_eq_absolutePath currentDir inputPath⟩

theorem canonPath_root :
    CanonPath "/".toList :=
  ⟨[], by simp, rfl⟩

/-- A canonical path resolves to itself in every directory. -/
theorem CanonPath.resolvePath_self
    {path : Str}
    (h : CanonPath path)
    (currentDir : Str) :
    resolvePath currentDir path = path := by
  obtain ⟨ns, hns, rfl⟩ := h
  rw [resolvePath_eq_absolutePath, resolveParts_absolutePath hns]

/-- In a canonical directory, the path is the stack evaluation of the input. -/
theorem CanonPath.resolvePath_eq_stackEval
    {currentDir : Str}
    (h : CanonPath currentDir)
    (inputPath : Str) :
    resolvePath currentDir inputPath =
      absolutePath (stackEval
        (if inputPath.head? = some '/' then [] else segments '/' currentDir)
        (segments '/' inputPath)) := by
  have hsegs : ∀ seg ∈ segments '/' inputPath, seg ≠ [] :=
    fun seg hseg => ne_nil_of_mem_segments hseg
  rw [resolvePath_eq_absolutePath, resolveParts_eq_foldl,
    foldl_resolveSegment_eq_stackEval hsegs, basePath]
  by_cases hhead : inputPath.head? = some '/'
  · have hroot : segments '/' "/".toList = [] := by decide
    rw [if_pos hhead, if_pos hhead, hroot, List.foldl_nil]
  · obtain ⟨ns, hns, rfl⟩ := h
    rw [if_neg hhead, if_neg hhead, foldl_segments_absolutePath hns, segments_absolutePath hns]

/-- Nothing is added by an input that has no names. -/
theorem CanonPath.resolvePath_of_foldl
    {currentDir inputPath : Str}
    (h : CanonPath currentDir)
    (hhead : inputPath.head? ≠ some '/')
    (hnone : ∀ stack, (segments '/' inputPath).foldl resolveSegment stack = stack) :
    resolvePath currentDir inputPath = currentDir := by
  obtain ⟨ns, hns, rfl⟩ := h
  rw [resolvePath_eq_absolutePath, resolveParts_eq_foldl, hnone, basePath, if_neg hhead,
    foldl_segments_absolutePath hns]

theorem getLast_joined
    {ns : List Str}
    (hns : ∀ n ∈ ns, CanonName n) (hne : ns ≠ []) :
    ∃ ch, (['/'].intercalate ns).getLast? = some ch ∧ ch ≠ '/' := by
  induction ns with
  | nil => exact absurd rfl hne
  | cons n rest ih =>
      by_cases hrest : rest = []
      · subst hrest
        have hn : CanonName n := hns n (by simp)
        obtain ⟨ch, hch⟩ := Option.isSome_iff_exists.1 (List.getLast?_isSome.2 hn.ne_nil)
        refine ⟨ch, by rw [List.intercalate_singleton, hch], ?_⟩
        rintro rfl
        exact hn.no_slash (List.mem_of_getLast? hch)
      · obtain ⟨ch, hch, hslash⟩ := ih (fun m hm => hns m (List.mem_cons_of_mem n hm)) hrest
        refine ⟨ch, ?_, hslash⟩
        rw [List.intercalate_cons_of_ne_nil hrest, List.getLast?_append, hch, Option.some_or]

/-- A canonical path below the root does not end with a slash. -/
theorem getLast_absolutePath
    {ns : List Str}
    (hns : ∀ n ∈ ns, CanonName n) (hne : ns ≠ []) :
    (absolutePath ns).getLast? ≠ some '/' := by
  obtain ⟨ch, hch, hslash⟩ := getLast_joined hns hne
  rw [absolutePath, List.getLast?_cons, hch]
  simpa using hslash

/-- The values of `CURRENT_DIR`: `change_directory` stores them, on any tree. -/
inductive DirReachable : Str → Prop
  | root : DirReachable "/".toList
  | changeDirectory (fs : FileSystem) (currentDir path : Str)
      (h : DirReachable currentDir) :
      DirReachable (Statics.changeDirectory ⟨fs, currentDir⟩ path).2.currentDir

theorem currentDir_changeDirectory
    (st : Statics) (path : Str) :
    (st.changeDirectory path).2.currentDir = st.currentDir ∨
      (st.changeDirectory path).2.currentDir = resolvePath st.currentDir path := by
  unfold Statics.changeDirectory
  dsimp only
  split_ifs with hroot
  · exact .inr hroot.symm
  · rcases st.fs.findNodeMut (resolvePath st.currentDir path) with
      _ | ⟨pos, _ | ⟨dir, children⟩⟩
    · exact .inl rfl
    · exact .inl rfl
    · exact .inr rfl

theorem DirReachable.canonPath
    {currentDir : Str}
    (h : DirReachable currentDir) :
    CanonPath currentDir := by
  induction h with
  | root => exact canonPath_root
  | changeDirectory fs currentDir path _ ih =>
      rcases currentDir_changeDirectory ⟨fs, currentDir⟩ path with hsame | hnew
      · rw [hsame]
        exact ih
      · rw [hnew]
        exact canonPath_resolvePath currentDir path

/--
In every directory that `change_directory` can store, a resolved path is
canonical, it is the stack evaluation of its input, it resolves to itself
everywhere, and the directory is such a path.
-/
theorem resolve_path_canonical
    (currentDir : Str)
    (h : DirReachable currentDir) :
    (∀ p, resolvePath currentDir p = "/".toList ∨
      ∃ ns, ns ≠ [] ∧ (∀ n ∈ ns, n ≠ [] ∧ '/' ∉ n ∧ n ≠ ".".toList ∧ n ≠ "..".toList) ∧
        resolvePath currentDir p = '/' :: ['/'].intercalate ns ∧
        (resolvePath currentDir p).getLast? ≠ some '/') ∧
    (∀ p, resolvePath currentDir p = absolutePath (stackEval
      (if p.head? = some '/' then [] else segments '/' currentDir) (segments '/' p))) ∧
    (∀ p w, resolvePath w (resolvePath currentDir p) = resolvePath currentDir p) ∧
    (∀ w, resolvePath w currentDir = currentDir) ∧
    resolvePath currentDir [] = currentDir ∧
    resolvePath currentDir ".".toList = currentDir ∧
    ∀ fs, Statics.listDirectory ⟨fs, currentDir⟩ [] =
      Statics.listDirectory ⟨fs, currentDir⟩ ".".toList := by
  have hcanon := h.canonPath
  have hdot : resolvePath currentDir ".".toList = currentDir :=
    hcanon.resolvePath_of_foldl (by decide) (fun _ => rfl)
  refine ⟨?_, hcanon.resolvePath_eq_stackEval, ?_, hcanon.resolvePath_self,
    hcanon.resolvePath_of_foldl (by decide) (fun _ => rfl), hdot, ?_⟩
  · intro p
    obtain ⟨ns, hns, hpath⟩ := canonPath_resolvePath currentDir p
    rw [hpath]
    by_cases hne : ns = []
    · exact .inl (by rw [hne]; rfl)
    · refine .inr ⟨ns, hne, ?_, rfl, getLast_absolutePath hns hne⟩
      intro n hn
      exact ⟨(hns n hn).ne_nil, (hns n hn).no_slash, (hns n hn).ne_dot, (hns n hn).ne_dotdot⟩
  · intro p w
    exact (canonPath_resolvePath currentDir p).resolvePath_self w
  · intro fs
    unfold Statics.listDirectory
    rw [hdot]
    rfl

/-- The laws in `/home`, with a path that pops past the root. -/
theorem resolve_path_canonical_home :
    resolvePath "/home".toList "../..//./bin/x/..".toList = "/bin".toList ∧
    resolvePath "/bin".toList (resolvePath "/home".toList "a/".toList) =
      resolvePath "/home".toList "a/".toList ∧
    resolvePath "/home".toList [] = "/home".toList := by
  have hreach : DirReachable "/home".toList :=
    DirReachable.changeDirectory FileSystem.new "/".toList "home//".toList DirReachable.root
  obtain ⟨-, hstack, hself, -, hempty, -⟩ := resolve_path_canonical "/home".toList hreach
  exact ⟨(hstack _).trans (by decide), hself _ _, hempty⟩

end Canonical

section Composition

/-- Resolving in a resolved directory goes on with its stack. -/
theorem resolveParts_resolvePath
    (currentDir a : Str) {b : Str}
    (hb : b.head? ≠ some '/') :
    resolveParts (resolvePath currentDir a) b =
      (segments '/' b).foldl resolveSegment (resolveParts currentDir a) := by
  rw [resolveParts_eq_foldl, basePath, if_neg hb, resolvePath_eq_absolutePath,
    foldl_segments_absolutePath (canon_resolveParts currentDir a)]

/-- The segments of `a/b` are those of `a`, then those of `b`. -/
theorem resolveParts_joined
    (currentDir : Str) {a : Str} (b : Str)
    (ha : a ≠ []) :
    resolveParts currentDir (a ++ '/' :: b) =
      (segments '/' b).foldl resolveSegment (resolveParts currentDir a) := by
  have hhead : (a ++ '/' :: b).head? = a.head? := by
    cases a with
    | nil => exact absurd rfl ha
    | cons ch a => rfl
  rw [resolveParts_eq_foldl, resolveParts_eq_foldl currentDir a, basePath, basePath, hhead,
    segments_append_sep, List.foldl_append]

theorem resolvePath_composes
    (currentDir : Str) {a b : Str}
    (ha : a ≠ []) (hb : b.head? ≠ some '/') :
    resolvePath (resolvePath currentDir a) b = resolvePath currentDir (a ++ '/' :: b) := by
  rw [resolvePath_eq_absolutePath, resolvePath_eq_absolutePath currentDir (a ++ '/' :: b),
    resolveParts_resolvePath currentDir a hb, resolveParts_joined currentDir b ha]

/-- A successful `change_directory` stores the resolved path and nothing else. -/
theorem changeDirectory_snd
    {st : Statics} {path : Str}
    (h : (st.changeDirectory path).1 = true) :
    (st.changeDirectory path).2 =
      { st with currentDir := resolvePath st.currentDir path } := by
  unfold Statics.changeDirectory at *
  dsimp only at *
  split_ifs at * with hroot
  · rw [hroot]
  · rcases hfind : st.fs.findNodeMut (resolvePath st.currentDir path) with
      _ | ⟨pos, _ | ⟨dir, children⟩⟩
    · simp [hfind] at h
    · simp [hfind] at h
    · rfl

/-- Whether `change_directory` succeeds depends on the tree and the resolved path. -/
theorem changeDirectory_fst_congr
    {st st' : Statics} {path path' : Str}
    (hfs : st.fs = st'.fs)
    (hpath : resolvePath st.currentDir path = resolvePath st'.currentDir path') :
    (st.changeDirectory path).1 = (st'.changeDirectory path').1 := by
  unfold Statics.changeDirectory
  rw [hfs, hpath]
  dsimp only
  split_ifs
  · rfl
  · rcases st'.fs.findNodeMut (resolvePath st'.currentDir path') with
      _ | ⟨pos, _ | ⟨dir, children⟩⟩ <;> rfl

/--
After a successful `cd a`, a call on `b` acts on the path that the call on `a/b`
would have acted on before: with the same answer, the same tree afterwards and,
for a successful `cd`, the same directory.
-/
theorem change_directory_composes
    (w a b : Str)
    (ha : a ≠ []) (hb : b.head? ≠ some '/') :
    resolvePath (resolvePath w a) b = resolvePath w (a ++ '/' :: b) ∧
    ∀ fs st, Statics.changeDirectory ⟨fs, w⟩ a = (true, st) →
      (st.changeDirectory b).1 = (Statics.changeDirectory ⟨fs, w⟩ (a ++ '/' :: b)).1 ∧
      ((st.changeDirectory b).1 = true →
        (st.changeDirectory b).2 = (Statics.changeDirectory ⟨fs, w⟩ (a ++ '/' :: b)).2) ∧
      st.readFileString b = Statics.readFileString ⟨fs, w⟩ (a ++ '/' :: b) ∧
      (∀ content,
        (st.writeFileString b content).1 =
          (Statics.writeFileString ⟨fs, w⟩ (a ++ '/' :: b) content).1 ∧
        (st.writeFileString b content).2.fs =
          (Statics.writeFileString ⟨fs, w⟩ (a ++ '/' :: b) content).2.fs) ∧
      (st.createDir b).1 = (Statics.createDir ⟨fs, w⟩ (a ++ '/' :: b)).1 ∧
      (st.createDir b).2.fs = (Statics.createDir ⟨fs, w⟩ (a ++ '/' :: b)).2.fs ∧
      (st.removeNode b).1 = (Statics.removeNode ⟨fs, w⟩ (a ++ '/' :: b)).1 ∧
      (st.removeNode b).2.fs = (Statics.removeNode ⟨fs, w⟩ (a ++ '/' :: b)).2.fs := by
  have hpath := resolvePath_composes w ha hb
  refine ⟨hpath, ?_⟩
  intro fs st hcd
  have hsuccess : (Statics.changeDirectory ⟨fs, w⟩ a).1 = true := by rw [hcd]
  obtain rfl : ⟨fs, resolvePath w a⟩ = st := by
    rw [← changeDirectory_snd hsuccess, hcd]
  have hanswer : (Statics.changeDirectory ⟨fs, resolvePath w a⟩ b).1 =
      (Statics.changeDirectory ⟨fs, w⟩ (a ++ '/' :: b)).1 :=
    changeDirectory_fst_congr rfl hpath
  have hwrite : ∀ call : FileSystem → Str → Bool × FileSystem,
      (Statics.withResolved ⟨fs, resolvePath w a⟩ b call).1 =
        (Statics.withResolved ⟨fs, w⟩ (a ++ '/' :: b) call).1 ∧
      (Statics.withResolved ⟨fs, resolvePath w a⟩ b call).2.fs =
        (Statics.withResolved ⟨fs, w⟩ (a ++ '/' :: b) call).2.fs := by
    intro call
    simp only [Statics.withResolved, hpath, and_self]
  refine ⟨hanswer, ?_, ?_, fun content => hwrite _, (hwrite _).1, (hwrite _).2,
    (hwrite _).1, (hwrite _).2⟩
  · intro hb
    rw [changeDirectory_snd hb, changeDirectory_snd (hanswer ▸ hb)]
    simp only [hpath]
  · simp only [Statics.readFileString, hpath]

/-- Out of `/home` and back into it, in two calls and in one. -/
theorem change_directory_composes_home :
    resolvePath (resolvePath "/home".toList "..//bin/".toList) "../../home".toList =
      "/home".toList ∧
    (Statics.changeDirectory ⟨FileSystem.new, "/bin".toList⟩ "../../home".toList).1 =
      (Statics.changeDirectory ⟨FileSystem.new, "/home".toList⟩
        "..//bin//../../home".toList).1 := by
  obtain ⟨hpath, hcalls⟩ := change_directory_composes "/home".toList "..//bin/".toList
    "../../home".toList (by decide) (by decide)
  obtain ⟨hanswer, -⟩ := hcalls FileSystem.new ⟨FileSystem.new, "/bin".toList⟩ (by rfl)
  exact ⟨hpath.trans (by decide), hanswer⟩

end Composition

end Vfs
end OpenKernel
