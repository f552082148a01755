import LindGrates.Theory.Chroot.Tables

/-!
# Confinement

Which paths reach the kernel. Almost every handler puts the jail directory in
front of the normalised path. The calls that take a directory descriptor are the
exception. A relative path next to a descriptor the grate knows nothing about is
forwarded as it stands, and `readlinkat` and `unlinkat` do so for every descriptor.
Such a path stays below the directory only if it has no `..` in it, and only if the
kernel takes the descriptor for one: the handlers compare all 64 bits with
`AT_FDCWD`, the kernel looks at 32.

## Main definitions

* `Confined`: A forwarded path that cannot leave the jail by its text.
* `Call.bare`, `Harmless`: The arguments forwarded as they stand, and the good ones.

## Theorems

* `forwarded_confined_iff`: Only confined paths are forwarded if these are harmless.
* `forwarded_not_confined`: Calls that hand `..` to the kernel.
* `conversions_succeed`: No conversion with `CString::new` fails.
-/

namespace LindGrates.Chroot

open Lexical Function List State

/-- `AT_FDCWD` in the 32 bits the kernel reads. -/
def kernelFdcwd (dirfd : Word) : Bool :=
  dirfd.setWidth 32 = BitVec.ofInt 32 (-100)

/-- A forwarded path that cannot leave the jail by its text: it lies below the
    jail directory, or is empty, or is relative without `..` to a directory
    descriptor. -/
def Confined (chrootDir : Str) (arg : PathArg) : Prop :=
  Jailed chrootDir arg.path ∨ arg.path = [] ∨
    arg.path.isAbsolute = false ∧ ['.', '.'] ∉ arg.path.split ∧
      ∃ dirfd, arg.dirfd = some dirfd ∧ kernelFdcwd dirfd = false

def Reply.paths : Reply → List PathArg
  | .done _ _ => []
  | .forward req _ => req.paths

/-- An argument that `rewrite_at_path` leaves as it is. -/
def bareAt (s : State) (cage : Nat) (dirfd : Word) (path : Str) : List (Word × Str) :=
  if path ≠ [] ∧ path.isAbsolute = false ∧ isAtFdcwd dirfd = false ∧
    s.fdDirPath cage dirfd = none then [(dirfd, path)] else []

/-- An argument that `readlinkat` and `unlinkat` leave as it is. -/
def bareBeside (dirfd : Word) (path : Str) : List (Word × Str) :=
  if path ≠ [] ∧ path.isAbsolute = false ∧ isAtFdcwd dirfd = false then [(dirfd, path)] else []

/-- The arguments of a call that are forwarded as they stand. -/
def Call.bare (s : State) : Call → List (Word × Str)
  | .openat dirfd path _ => bareAt s path.cage dirfd path.text
  | .faccessat dirfd path => bareAt s path.cage dirfd path.text
  | .fchmodat dirfd path => bareAt s path.cage dirfd path.text
  | .fchownat dirfd path => bareAt s path.cage dirfd path.text
  | .fstatat dirfd path => bareAt s path.cage dirfd path.text
  | .statx dirfd path => bareAt s path.cage dirfd path.text
  | .utimensat dirfd path => if path.addr = 0 then [] else bareAt s path.cage dirfd path.text
  | .readlinkat dirfd path _ => bareBeside dirfd path.text
  | .unlinkat dirfd path _ => bareBeside dirfd path.text
  | .symlinkat _ dirfd linkpath => bareAt s linkpath.cage dirfd linkpath.text
  | .renameat olddirfd oldpath newdirfd newpath
  | .renameat2 olddirfd oldpath newdirfd newpath =>
    bareAt s oldpath.cage olddirfd oldpath.text ++ bareAt s oldpath.cage newdirfd newpath.text
  | _ => []

/-- A bare argument that stays below its directory: no `..`, and a descriptor
    the kernel takes for one. A relative jail directory may also stand in front
    of the path already. -/
def Harmless (chrootDir : Str) (arg : Word × Str) : Prop :=
  ['.', '.'] ∉ arg.2.split ∧ kernelFdcwd arg.1 = false ∨ Jailed chrootDir arg.2

/-! ## One path -/

theorem nil_iff_nil {α β : Type} {P : α → Prop} {Q : β → Prop} : (∀ x ∈ [], P x) ↔ ∀ x ∈ [], Q x :=
  iff_of_true (forall_mem_nil _) (forall_mem_nil _)

theorem confined_chrootPath (s : State) (path : Str) (cage : Nat) (dirfd : Option Word) :
    Confined s.chrootDir ⟨dirfd, s.chrootPath path cage⟩ := by
  by_cases h : path = []
  · rw [h]
    exact .inr (.inl rfl)
  · exact .inl (jailPath_jailed h _ _)

variable {path : Str} {s : State} {cage : Nat} {dirfd : Word} {ptr : CagePtr}

theorem confined_bare_iff {chrootDir : Str} (dirfd : Word) (hne : path ≠ [])
    (hrel : path.isAbsolute = false) :
    Confined chrootDir ⟨some dirfd, path⟩ ↔ Harmless chrootDir (dirfd, path) := by
  constructor
  · rintro (h | h | ⟨_, hup, fd, hfd, hcwd⟩)
    · exact .inr h
    · exact absurd h hne
    · cases hfd
      exact .inl ⟨hup, hcwd⟩
  · rintro (⟨hup, hcwd⟩ | h)
    · exact .inr (.inr ⟨hrel, hup, dirfd, rfl, hcwd⟩)
    · exact .inl h

theorem not_jailed_iff : ¬ (path.isAbsolute = true ∨ isAtFdcwd dirfd = true) ↔
    path.isAbsolute = false ∧ isAtFdcwd dirfd = false := by
  rw [not_or, Bool.not_eq_true, Bool.not_eq_true]

theorem confined_placeAtPath :
    Confined s.chrootDir
        ⟨some (s.placeAtPath cage dirfd path).1, (s.placeAtPath cage dirfd path).2⟩ ↔
      ∀ arg ∈ bareAt s cage dirfd path, Harmless s.chrootDir arg := by
  unfold placeAtPath bareAt
  by_cases hjail : path.isAbsolute = true ∨ isAtFdcwd dirfd = true
  · rw [if_pos hjail, if_neg fun hc => not_jailed_iff.mpr ⟨hc.2.1, hc.2.2.1⟩ hjail]
    exact iff_of_true (confined_chrootPath s path cage _) (forall_mem_nil _)
  rw [if_neg hjail]
  rcases not_jailed_iff.mp hjail with ⟨hrel, hfd⟩
  by_cases hne : path = []
  · rw [if_neg fun hc => hc hne, if_neg fun hc => hc.1 hne]
    exact iff_of_true (.inr (.inl hne)) (forall_mem_nil _)
  rw [if_pos hne]
  cases hdir : s.fdDirPath cage dirfd with
  | some =>
    rw [if_neg fun hc => Option.some_ne_none _ hc.2.2.2]
    exact iff_of_true (confined_chrootPath s _ cage _) (forall_mem_nil _)
  | none =>
    rw [if_pos ⟨hne, hrel, hfd, rfl⟩, forall_mem_singleton]
    exact confined_bare_iff dirfd hne hrel

theorem confined_placeBesideDirfd :
    Confined s.chrootDir
        ⟨some (s.placeBesideDirfd cage dirfd path).1, (s.placeBesideDirfd cage dirfd path).2⟩ ↔
      ∀ arg ∈ bareBeside dirfd path, Harmless s.chrootDir arg := by
  unfold placeBesideDirfd bareBeside
  by_cases hjail : path.isAbsolute = true ∨ isAtFdcwd dirfd = true
  · rw [if_pos hjail, if_neg fun hc => not_jailed_iff.mpr hc.2 hjail]
    exact iff_of_true (confined_chrootPath s path cage _) (forall_mem_nil _)
  rw [if_neg hjail]
  rcases not_jailed_iff.mp hjail with ⟨hrel, hfd⟩
  by_cases hne : path = []
  · rw [if_neg fun hc => hc.1 hne]
    exact iff_of_true (.inr (.inl hne)) (forall_mem_nil _)
  · rw [if_pos ⟨hne, hrel, hfd⟩, forall_mem_singleton]
    exact confined_bare_iff dirfd hne hrel

theorem nul_notMem_placeAtPath (hs : Clean s) (cage : Nat) (dirfd : Word) (h : '\x00' ∉ path) :
    '\x00' ∉ (s.placeAtPath cage dirfd path).2 := by
  unfold placeAtPath
  split
  · exact hs.chrootPath h cage
  split
  · cases hdir : s.fdDirPath cage dirfd with
    | none => exact h
    | some dir =>
      exact hs.chrootPath (nul_notMem_normalizePath h (hs.fdDirPath cage dirfd dir hdir)) cage
  · exact h

theorem nul_notMem_placeBesideDirfd (hs : Clean s) (cage : Nat) (dirfd : Word) (h : '\x00' ∉ path) :
    '\x00' ∉ (s.placeBesideDirfd cage dirfd path).2 := by
  unfold placeBesideDirfd
  split
  · exact hs.chrootPath h cage
  · exact h

/-- `rewrite_at_path` succeeds, with the path that is chosen for the one it
    reads. -/
theorem rewriteAtPath_eq (hs : Clean s) (cage : Nat) (dirfd : Word) (ptr : CagePtr) :
    (s.rewriteAtPath cage dirfd ptr).2 =
      .ok ⟨some (s.placeAtPath cage dirfd ptr.text).1, (s.placeAtPath cage dirfd ptr.text).2⟩ := by
  unfold rewriteAtPath
  rw [ptr.readPath_eq]
  dsimp only
  rw [cString_eq (nul_notMem_placeAtPath hs cage dirfd ptr.nul_notMem_text)]

/-- A socket address is rewritten as a path is: it keeps its path, with the jail
    in front. -/
theorem unixPath_translateSockaddr (hs : Clean s) {buf new : List UInt8}
    (h : translateSockaddr s.chrootDir (s.getCageCwd cage) buf = some new) :
    unixPath new = s.chrootPath (unixPath buf) cage := by
  have hkept : unixPath buf = [] → some buf = some new →
      unixPath new = s.chrootPath (unixPath buf) cage := by
    intro hnil heq
    rw [← Option.some.inj heq, hnil]
    rfl
  unfold translateSockaddr at h
  split at h
  · cases h
  split at h
  next hunix =>
    split at h
    next hhead =>
      refine hkept ?_ h
      rcases hdrop : buf.drop 2 with _ | ⟨b, rest⟩
      · rw [hdrop] at hhead
        cases hhead
      rw [hdrop] at hhead
      rw [unixPath, if_pos hunix.1, hdrop, Option.some.inj hhead]
      rfl
    · have htake : (buf.take 2).length = 2 := by
        rw [length_take]
        omega
      have hnul := hs.chrootPath (nul_notMem_untilNul (buf.drop 2)) cage
      cases h
      rw [unixPath, unixPath, if_pos hunix.1, append_assoc, isUnix, take_left' htake,
        drop_left' htake, ← isUnix, if_pos hunix.1]
      exact untilNul_bytes hnul []
  next hother =>
    refine hkept ?_ h
    rw [unixPath]
    split
    next hunix =>
      rw [drop_eq_nil_of_le (by_contra fun hlt => hother ⟨hunix, by omega⟩)]
      rfl
    · rfl

/-! ## Every handler -/

/-- The paths of a call that are not next to a descriptor. -/
def Call.plainPaths : Call → List CagePtr
  | .stat path | .access path | .statfs path | .mkdir path | .rmdir path | .unlink path
  | .chmod path | .chown path | .lchown path | .truncate path | .setxattr path
  | .listxattr path | .openPath path _ | .readlink path _ | .execve path | .symlink _ path =>
    [path]
  | .rename oldpath newpath | .link oldpath newpath => [oldpath, newpath]
  | _ => []

/-- The path that is forwarded for a plain one. -/
def State.jailedArg (s : State) (ptr : CagePtr) : PathArg :=
  ⟨none, s.chrootPath ptr.text ptr.cage⟩

theorem rewritePaths_ok (ptrs : List CagePtr) :
    ∀ (s : State) (texts : List Str), (s.rewritePaths ptrs).2 = .ok texts →
      texts.map (fun text => ⟨none, text⟩) = ptrs.map s.jailedArg := by
  induction ptrs with
  | nil =>
    intro s texts h
    cases h
    rfl
  | cons ptr ptrs ih =>
    intro s texts h
    unfold rewritePaths at h
    rw [ptr.readPath_eq] at h
    dsimp only at h
    split at h
    · cases h
    split at h
    · cases h
    rename_i text htext
    rcases hrest : ((s.touch ptr.text ptr.cage).rewritePaths ptrs).2 with _ | rest
    · rw [hrest] at h
      cases h
    rw [hrest] at h
    cases h
    have hsame := same_touch s ptr.text ptr.cage
    have hjailed : (s.touch ptr.text ptr.cage).jailedArg = s.jailedArg := by
      funext p
      rw [State.jailedArg, hsame.chrootPath, State.jailedArg]
    rw [map_cons, map_cons, ih _ rest hrest, hjailed, cString_eq_some htext, State.jailedArg]

theorem paths_inputPathHandler (s : State) (sys : Sys) (first : CagePtr) (others : List CagePtr) :
    (s.inputPathHandler sys first others).2.paths = [] ∨
      (s.inputPathHandler sys first others).2.paths = (first :: others).map s.jailedArg := by
  unfold inputPathHandler
  dsimp only
  rcases hrest : (s.rewritePaths (first :: others)).2 with _ | texts
  · exact .inl rfl
  · exact .inr (rewritePaths_ok _ s texts hrest)

/-- A plain path is put into the jail from the working directory that the grate
    finds for the cage, or nothing is forwarded. -/
theorem paths_plain (host : Host) (s : State) {call : Call} (h : call.plainPaths ≠ []) :
    (handle host s call).2.paths = [] ∨
      (handle host s call).2.paths = call.plainPaths.map s.jailedArg := by
  have hone : ∀ {ptr : CagePtr} {text : Str},
      cString (s.chrootPath ptr.text ptr.cage) = some text →
        [PathArg.mk none text] = [ptr].map s.jailedArg := by
    intro ptr text htext
    rw [cString_eq_some htext]
    rfl
  cases call
  case openPath ptr _ | readlink ptr _ | execve ptr =>
    dsimp only [handle, openHandler, readlinkHandler, execveHandler]
    rw [ptr.readPath_eq]
    dsimp only
    repeat' split
    all_goals first
      | exact .inl rfl
      | exact .inr (hone ‹_›)
  case symlink target linkpath =>
    have hsame := same_rewriteSymlinkTarget s linkpath.cage target
    dsimp only [handle, symlinkHandler]
    rw [linkpath.readPath_eq]
    dsimp only
    rw [hsame.chrootPath]
    repeat' split
    all_goals first
      | exact .inl rfl
      | exact .inr (hone ‹_›)
  all_goals first
    | exact absurd rfl h
    | exact paths_inputPathHandler s _ _ _

theorem confined_plain (host : Host) (s : State) {call : Call} (h : call.plainPaths ≠ []) :
    ∀ arg ∈ (handle host s call).2.paths, Confined s.chrootDir arg := by
  rcases paths_plain host s h with hpaths | hpaths
  · rw [hpaths]
    exact forall_mem_nil _
  · rw [hpaths]
    intro arg harg
    rcases mem_map.mp harg with ⟨ptr, _, rfl⟩
    exact confined_chrootPath s ptr.text ptr.cage none

theorem bare_plain (s : State) {call : Call} (h : call.plainPaths ≠ []) : call.bare s = [] := by
  cases call
  all_goals first
    | rfl
    | exact absurd rfl h

section

variable (hs : Clean s)

include hs

theorem confined_callWithAtPath (sys : Sys) (dirfd : Word) (ptr : CagePtr) :
    (∀ arg ∈ (s.callWithAtPath sys dirfd ptr).2.paths, Confined s.chrootDir arg) ↔
      ∀ arg ∈ bareAt s ptr.cage dirfd ptr.text, Harmless s.chrootDir arg := by
  unfold callWithAtPath
  dsimp only
  rw [rewriteAtPath_eq hs, ← confined_placeAtPath]
  exact forall_mem_singleton

theorem confined_openatHandler (dirfd : Word) (ptr : CagePtr) (flags : Word) :
    (∀ arg ∈ (s.openatHandler dirfd ptr flags).2.paths, Confined s.chrootDir arg) ↔
      ∀ arg ∈ bareAt s ptr.cage dirfd ptr.text, Harmless s.chrootDir arg := by
  have hsame := same_ensureCageCwd s ptr.cage
  unfold openatHandler
  rw [ptr.readPath_eq]
  dsimp only
  split
  next hnil =>
    rw [bareAt, if_neg fun hc => hc.1 hnil]
    exact nil_iff_nil
  split
  · -- Only an absolute path names a descriptor, and that one is not bare.
    rename_i fd hdev
    have habs : ptr.text.isAbsolute = true := by
      by_contra hc
      rw [if_neg hc] at hdev
      cases hdev
    rw [bareAt, if_neg]
    · exact nil_iff_nil
    · rintro ⟨_, hrel, _⟩
      rw [habs] at hrel
      cases hrel
  · rw [rewriteAtPath_eq (hs.same hsame), hsame.placeAtPath, ← confined_placeAtPath]
    exact forall_mem_singleton

theorem confined_renameatCommon (sys : Sys) (olddirfd : Word) (oldpath : CagePtr)
    (newdirfd : Word) (newpath : CagePtr) :
    (∀ arg ∈ (s.renameatCommon sys olddirfd oldpath newdirfd newpath).2.paths,
        Confined s.chrootDir arg) ↔
      ∀ arg ∈ bareAt s oldpath.cage olddirfd oldpath.text ++
          bareAt s oldpath.cage newdirfd newpath.text, Harmless s.chrootDir arg := by
  have hsame := same_rewriteAtPath s oldpath.cage olddirfd oldpath
  unfold renameatCommon
  dsimp only
  rw [rewriteAtPath_eq hs]
  dsimp only
  rw [rewriteAtPath_eq (hs.same hsame), hsame.placeAtPath, forall_mem_append,
    ← confined_placeAtPath, ← confined_placeAtPath]
  exact forall_mem_cons.trans (and_congr_right fun _ => forall_mem_singleton)

theorem confined_readlinkatHandler (dirfd : Word) (ptr : CagePtr) (buf : CageBuf) :
    (∀ arg ∈ (s.readlinkatHandler dirfd ptr buf).2.paths, Confined s.chrootDir arg) ↔
      ∀ arg ∈ bareBeside dirfd ptr.text, Harmless s.chrootDir arg := by
  unfold readlinkatHandler
  rw [ptr.readPath_eq]
  dsimp only
  rw [cString_eq (nul_notMem_placeBesideDirfd hs _ dirfd ptr.nul_notMem_text),
    ← confined_placeBesideDirfd]
  exact forall_mem_singleton

theorem confined_unlinkatHandler (dirfd : Word) (ptr : CagePtr) (flags : Word) :
    (∀ arg ∈ (s.unlinkatHandler dirfd ptr flags).2.paths, Confined s.chrootDir arg) ↔
      ∀ arg ∈ bareBeside dirfd ptr.text, Harmless s.chrootDir arg := by
  unfold unlinkatHandler
  rw [ptr.readPath_eq]
  dsimp only
  split
  next hnil =>
    rw [bareBeside, if_neg fun hc => hc.1 hnil]
    exact nil_iff_nil
  rw [cString_eq (nul_notMem_placeBesideDirfd hs _ dirfd ptr.nul_notMem_text),
    ← confined_placeBesideDirfd]
  exact forall_mem_singleton

theorem nul_notMem_symlinkText (cage : Nat) (h : '\x00' ∉ path) :
    '\x00' ∉ s.symlinkText cage path := by
  unfold symlinkText
  split
  · exact hs.chrootPath h cage
  · exact h

theorem rewriteSymlinkTarget_eq (cage : Nat) (ptr : CagePtr) :
    (s.rewriteSymlinkTarget cage ptr).2 = .ok (s.symlinkText cage ptr.text) := by
  unfold rewriteSymlinkTarget
  rw [ptr.readPath_eq]
  dsimp only
  rw [cString_eq (nul_notMem_symlinkText hs cage ptr.nul_notMem_text)]

theorem confined_socketTranslateHandler (sys : Sys) (cage : Nat) (sockaddr : CageAddr) :
    ∀ arg ∈ (s.socketTranslateHandler sys cage sockaddr).2.paths, Confined s.chrootDir arg := by
  unfold socketTranslateHandler
  split
  · exact forall_mem_nil _
  dsimp only
  rw [copyInto_eq]
  dsimp only
  split
  · exact forall_mem_nil _
  next hnew =>
    rw [unixPath_translateSockaddr hs hnew]
    exact forall_mem_singleton.mpr (confined_chrootPath s _ cage none)

end

theorem confined_symlinkatHandler (hs : Clean s) (target : CagePtr) (dirfd : Word)
    (linkpath : CagePtr) :
    (∀ arg ∈ (s.symlinkatHandler target dirfd linkpath).2.paths, Confined s.chrootDir arg) ↔
      ∀ arg ∈ bareAt s linkpath.cage dirfd linkpath.text, Harmless s.chrootDir arg := by
  have hsame := same_rewriteSymlinkTarget s linkpath.cage target
  unfold symlinkatHandler
  dsimp only
  rw [rewriteSymlinkTarget_eq hs]
  dsimp only
  rw [rewriteAtPath_eq (hs.same hsame), hsame.placeAtPath, ← confined_placeAtPath]
  exact forall_mem_singleton

section

variable (s : State)

theorem paths_chdirHandler (host : Host) (ptr : CagePtr) :
    (s.chdirHandler host ptr).2.paths = [] := by
  unfold chdirHandler
  split
  · rfl
  dsimp only
  split
  · rfl
  · rfl

theorem paths_fchdirHandler (cage : Nat) (fd : Word) : (s.fchdirHandler cage fd).2.paths = [] := by
  unfold fchdirHandler
  split
  · rfl
  · rfl

theorem paths_getcwdHandler (cage : Nat) (buf : CageBuf) :
    (s.getcwdHandler cage buf).2.paths = [] := by
  unfold getcwdHandler
  dsimp only
  split
  · rfl
  split
  · rfl
  · rfl

end

theorem confined_utimensatHandler (hs : Clean s) (dirfd : Word) (ptr : CagePtr) :
    (∀ arg ∈ (s.utimensatHandler dirfd ptr).2.paths, Confined s.chrootDir arg) ↔
      ∀ arg ∈ (if ptr.addr = 0 then [] else bareAt s ptr.cage dirfd ptr.text),
        Harmless s.chrootDir arg := by
  unfold utimensatHandler
  split
  · exact nil_iff_nil
  · exact confined_callWithAtPath hs .utimensat dirfd ptr

/-- A call forwards only confined paths exactly when the arguments it forwards
    as they stand are harmless. -/
theorem forwarded_confined_iff {s : State} (hs : Reachable s) (host : Host) (call : Call) :
    (∀ arg ∈ (handle host s call).2.paths, Confined s.chrootDir arg) ↔
      ∀ arg ∈ call.bare s, Harmless s.chrootDir arg := by
  have hclean := clean_of_reachable hs
  by_cases hplain : call.plainPaths ≠ []
  · rw [bare_plain s hplain]
    exact iff_of_true (confined_plain host s hplain) (forall_mem_nil _)
  cases call
  case openat dirfd ptr flags => exact confined_openatHandler hclean dirfd ptr flags
  case readlinkat dirfd ptr buf => exact confined_readlinkatHandler hclean dirfd ptr buf
  case unlinkat dirfd ptr flags => exact confined_unlinkatHandler hclean dirfd ptr flags
  case symlinkat target dirfd linkpath =>
    exact confined_symlinkatHandler hclean target dirfd linkpath
  case utimensat dirfd ptr => exact confined_utimensatHandler hclean dirfd ptr
  case renameat | renameat2 => exact confined_renameatCommon hclean _ _ _ _ _
  case chdir | fchdir | getcwd =>
    simp only [handle, paths_chdirHandler, paths_fchdirHandler, paths_getcwdHandler]
    exact nil_iff_nil
  case bind | connect | sendto =>
    exact iff_of_true (confined_socketTranslateHandler hclean _ _ _) (forall_mem_nil _)
  all_goals first
    | exact nil_iff_nil
    | exact absurd (cons_ne_nil _ _) hplain
    | exact confined_callWithAtPath hclean _ _ _

/-! ## A concrete jail -/

/-- A host whose only directory is `/jail`. -/
def jailHost : Host where
  stat := fun path => if path = "/jail".toList then some 0o40755 else none

def jailStart : State where
  chrootDir := "/jail".toList
  initialCwd := ['/']
  cageCwds := update (update (fun _ => none) 1 (some ['/'])) 2 (some ['/'])
  cageDirFds := update (fun _ => none) 2 (some fun _ => none)

theorem reachable_jailStart : Reachable jailStart := by
  have h : initState jailHost "/jail".toList ['/'] 1 2 = some jailStart := rfl
  exact .start (by decide) h

def textArg (text : String) : CagePtr :=
  ⟨4096, 2, some (Str.bytes text.toList ++ [0])⟩

/-- A relative path without `..` next to a descriptor the grate does not know
    stays confined. -/
theorem openat_confined :
    Reachable jailStart ∧
      ∀ arg ∈ (handle jailHost jailStart (.openat 5 (textArg "a/b") 0)).2.paths,
        Confined jailStart.chrootDir arg := by
  refine ⟨reachable_jailStart, (forwarded_confined_iff reachable_jailStart jailHost _).mpr ?_⟩
  have hbare : Call.bare jailStart (.openat 5 (textArg "a/b") 0) = [(5, "a/b".toList)] := by
    decide +kernel
  rw [hbare, forall_mem_singleton]
  exact .inl (by decide +kernel)

/-- `unlinkat` hands a path with `..` to the kernel, and so does `openat` with
    `AT_FDCWD` that was not extended by its sign. -/
theorem forwarded_not_confined :
    Reachable jailStart ∧
      (∃ arg ∈ (handle jailHost jailStart (.unlinkat 5 (textArg "../x") 0)).2.paths,
        ¬ Confined jailStart.chrootDir arg) ∧
      ∃ arg ∈ (handle jailHost jailStart (.openat 0xFFFFFF9C (textArg "x") 0)).2.paths,
        ¬ Confined jailStart.chrootDir arg := by
  have hnotJailed : ∀ c path, c ≠ '/' → ¬ Jailed jailStart.chrootDir (c :: path) := by
    rintro c path hc ⟨names, _, h⟩
    exact hc (List.cons.inj h).1
  have hunlink : (handle jailHost jailStart (.unlinkat 5 (textArg "../x") 0)).2.paths =
      [⟨some 5, "../x".toList⟩] := by
    decide +kernel
  have hopen : (handle jailHost jailStart (.openat 0xFFFFFF9C (textArg "x") 0)).2.paths =
      [⟨some 0xFFFFFF9C, "x".toList⟩] := by
    decide +kernel
  refine ⟨reachable_jailStart, ⟨_, hunlink ▸ mem_singleton_self _, ?_⟩,
    _, hopen ▸ mem_singleton_self _, ?_⟩
  · rintro (h | h | ⟨_, hup, _⟩)
    · exact hnotJailed _ _ (by decide) h
    · cases h
    · exact hup (by decide)
  · rintro (h | h | ⟨_, _, dirfd, hdirfd, hcwd⟩)
    · exact hnotJailed _ _ (by decide) h
    · cases h
    · cases hdirfd
      exact absurd hcwd (by decide)

/-- Whatever calls came before, no conversion with `CString::new` fails for a path
    that was read. -/
theorem conversions_succeed {s : State} (hs : Reachable s) {ptr : CagePtr} {path : Str}
    (hread : ptr.readPath = some path) (cage : Nat) (dirfd : Word) :
    ∀ text ∈ [s.chrootPath path cage, (s.placeAtPath cage dirfd path).2,
        (s.placeBesideDirfd cage dirfd path).2, s.symlinkText cage path],
      cString text = some text := by
  have hclean := clean_of_reachable hs
  have hpath : '\x00' ∉ path :=
    Option.some.inj (ptr.readPath_eq.symm.trans hread) ▸ ptr.nul_notMem_text
  simp only [forall_mem_cons]
  exact ⟨cString_eq (hclean.chrootPath hpath cage),
    cString_eq (nul_notMem_placeAtPath hclean cage dirfd hpath),
    cString_eq (nul_notMem_placeBesideDirfd hclean cage dirfd hpath),
    cString_eq (nul_notMem_symlinkText hclean cage hpath), forall_mem_nil _⟩

theorem conversions_succeed_textArg :
    (textArg "../x").readPath = some "../x".toList ∧
      cString (jailStart.chrootPath "../x".toList 2) =
        some (jailStart.chrootPath "../x".toList 2) := by
  have hread : (textArg "../x").readPath = some "../x".toList := by decide +kernel
  exact ⟨hread, conversions_succeed reachable_jailStart hread 2 0 _ (mem_cons_self ..)⟩

end LindGrates.Chroot
