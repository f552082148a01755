import LindGrates.Theory.Chroot.Paths

/-!
# Tables of the Chroot Grate

What the handlers do to the tables, as far as a lookup can tell. Looking up the
working directory of a cage may add entries, but no lookup ever sees the difference.

## Main definitions

* `Same`: Tables that answer every lookup alike.
* `Sets`, `Inherits`: What a second half does: the entry of one descriptor changes, or a
  new cage gets the entries of its parent.
* `Reachable`: The tables that calls lead to.

## Theorems

* `handle_effect`: What a first half does.
* `forward_inert`: Most calls leave the descriptors alone.
* `clean_of_reachable`: No text in the tables contains a NUL.
-/

namespace LindGrates.Chroot

open Lexical Function Option

/-! ## Lookups -/

namespace State

variable {s1 s2 s3 : State} {fd : Word} {entry : Option Str} {path hostCwd : Str}

theorem ensureCageCwd_cageCwds (s : State) (cage : Nat) :
    (s.ensureCageCwd cage).cageCwds =
      update s.cageCwds cage (some ((s.cageCwds cage).getD s.fallback)) := by
  unfold ensureCageCwd
  split
  next h =>
    rcases isSome_iff_exists.mp h with ⟨cwd, hcwd⟩
    rw [hcwd, getD_some, ← hcwd, update_eq_self]
  next h => rw [not_isSome_iff_eq_none.mp h, getD_none]

theorem ensureCageCwd_cageDirFds (s : State) (cage c : Nat) (fd : Word) :
    (((s.ensureCageCwd cage).cageDirFds c).bind fun fds => fds fd) =
      (s.cageDirFds c).bind fun fds => fds fd := by
  unfold ensureCageCwd
  split
  · rfl
  dsimp only
  by_cases hc : c = cage
  · rw [hc, update_self]
    cases s.cageDirFds cage <;> rfl
  · rw [update_of_ne hc]

theorem ensureCageCwd_frame (s : State) (cage : Nat) :
    (s.ensureCageCwd cage).chrootDir = s.chrootDir ∧
      (s.ensureCageCwd cage).fallback = s.fallback := by
  unfold ensureCageCwd
  split
  · exact ⟨rfl, rfl⟩
  · exact ⟨rfl, rfl⟩

theorem getCageCwd_eq (s : State) (cage : Nat) :
    s.getCageCwd cage = (s.cageCwds cage).getD s.fallback := by
  rw [getCageCwd, ensureCageCwd_cageCwds, update_self]
  rfl

theorem fdDirPath_eq (s : State) (cage : Nat) (fd : Word) :
    s.fdDirPath cage fd = (s.cageDirFds cage).bind fun fds => fds fd :=
  ensureCageCwd_cageDirFds s cage cage fd

end State

open State

/-- Tables that answer every lookup alike. -/
structure Same (s s' : State) : Prop where
  chrootDir : s'.chrootDir = s.chrootDir
  fallback : s'.fallback = s.fallback
  getCageCwd : ∀ cage, s'.getCageCwd cage = s.getCageCwd cage
  fdDirPath : ∀ cage fd, s'.fdDirPath cage fd = s.fdDirPath cage fd

theorem Same.refl (s : State) : Same s s :=
  ⟨rfl, rfl, fun _ => rfl, fun _ _ => rfl⟩

theorem Same.trans (h : Same s1 s2) (h' : Same s2 s3) : Same s1 s3 where
  chrootDir := h'.chrootDir.trans h.chrootDir
  fallback := h'.fallback.trans h.fallback
  getCageCwd := fun cage => (h'.getCageCwd cage).trans (h.getCageCwd cage)
  fdDirPath := fun cage fd => (h'.fdDirPath cage fd).trans (h.fdDirPath cage fd)

variable {s s' : State} {cage : Nat} {host : Host}

theorem Same.chrootPath (h : Same s s') (path : Str) (cage : Nat) :
    s'.chrootPath path cage = s.chrootPath path cage := by
  rw [State.chrootPath, h.chrootDir, h.getCageCwd]
  rfl

theorem Same.placeAtPath (h : Same s s') (cage : Nat) (dirfd : Word) (path : Str) :
    s'.placeAtPath cage dirfd path = s.placeAtPath cage dirfd path := by
  unfold State.placeAtPath
  rw [h.fdDirPath, h.chrootPath]
  simp only [h.chrootPath]

theorem same_ensureCageCwd (s : State) (cage : Nat) : Same s (s.ensureCageCwd cage) where
  chrootDir := (s.ensureCageCwd_frame cage).1
  fallback := (s.ensureCageCwd_frame cage).2
  getCageCwd := fun c => by
    rw [getCageCwd_eq, getCageCwd_eq, ensureCageCwd_cageCwds,
      (s.ensureCageCwd_frame cage).2]
    by_cases hc : c = cage
    · rw [hc, update_self]
      rfl
    · rw [update_of_ne hc]
  fdDirPath := fun c fd => by
    rw [fdDirPath_eq, fdDirPath_eq, ensureCageCwd_cageDirFds]

theorem same_touch (s : State) (path : Str) (cage : Nat) : Same s (s.touch path cage) := by
  unfold touch
  split
  · exact .refl s
  · exact same_ensureCageCwd s cage

theorem same_touchBesideDirfd (s : State) (cage : Nat) (dirfd : Word) (path : Str) :
    Same s (s.touchBesideDirfd cage dirfd path) := by
  unfold touchBesideDirfd
  split
  · exact same_touch s path cage
  · exact .refl s

/-! ## First halves -/

theorem same_rewritePaths (ptrs : List CagePtr) : ∀ s : State, Same s (s.rewritePaths ptrs).1 := by
  induction ptrs with
  | nil => exact fun s => .refl s
  | cons ptr _ ih =>
    intro s
    have htouch := same_touch s ptr.text ptr.cage
    unfold rewritePaths
    rw [ptr.readPath_eq]
    dsimp only
    split
    · exact .refl s
    cases cString (s.chrootPath ptr.text ptr.cage) with
    | none => exact htouch
    | some => exact htouch.trans (ih _)

section

variable (s : State)

theorem same_inputPathHandler (sys : Sys) (first : CagePtr) (others : List CagePtr) :
    Same s (s.inputPathHandler sys first others).1 :=
  same_rewritePaths (first :: others) s

theorem same_rewriteAtPath (cage : Nat) (dirfd : Word) (ptr : CagePtr) :
    Same s (s.rewriteAtPath cage dirfd ptr).1 := by
  unfold rewriteAtPath
  rw [ptr.readPath_eq]
  exact same_touch s ptr.text cage

theorem same_callWithAtPath (sys : Sys) (dirfd : Word) (ptr : CagePtr) :
    Same s (s.callWithAtPath sys dirfd ptr).1 :=
  same_rewriteAtPath s ptr.cage dirfd ptr

theorem same_utimensatHandler (dirfd : Word) (ptr : CagePtr) :
    Same s (s.utimensatHandler dirfd ptr).1 := by
  unfold utimensatHandler
  split
  · exact .refl s
  · exact same_callWithAtPath s .utimensat dirfd ptr

theorem same_renameatCommon (sys : Sys) (olddirfd : Word) (oldpath : CagePtr)
    (newdirfd : Word) (newpath : CagePtr) :
    Same s (s.renameatCommon sys olddirfd oldpath newdirfd newpath).1 := by
  have hold := same_rewriteAtPath s oldpath.cage olddirfd oldpath
  unfold renameatCommon
  dsimp only
  cases (s.rewriteAtPath oldpath.cage olddirfd oldpath).2 with
  | error => exact hold
  | ok => exact hold.trans (same_rewriteAtPath _ oldpath.cage newdirfd newpath)

theorem same_openHandler (ptr : CagePtr) (flags : Word) : Same s (s.openHandler ptr flags).1 := by
  unfold openHandler
  rw [ptr.readPath_eq]
  dsimp only
  split
  · exact .refl s
  cases devFdTarget ptr.text with
  | none => exact same_ensureCageCwd s ptr.cage
  | some => exact .refl s

theorem same_openatHandler (dirfd : Word) (ptr : CagePtr) (flags : Word) :
    Same s (s.openatHandler dirfd ptr flags).1 := by
  unfold openatHandler
  rw [ptr.readPath_eq]
  dsimp only
  split
  · exact .refl s
  cases (if ptr.text.isAbsolute then devFdTarget ptr.text else none) with
  | none => exact (same_ensureCageCwd s ptr.cage).trans (same_rewriteAtPath _ ptr.cage dirfd ptr)
  | some => exact .refl s

theorem same_readlinkHandler (ptr : CagePtr) (buf : CageBuf) :
    Same s (s.readlinkHandler ptr buf).1 := by
  unfold readlinkHandler
  rw [ptr.readPath_eq]
  exact same_touch s ptr.text ptr.cage

theorem same_readlinkatHandler (dirfd : Word) (ptr : CagePtr) (buf : CageBuf) :
    Same s (s.readlinkatHandler dirfd ptr buf).1 := by
  unfold readlinkatHandler
  rw [ptr.readPath_eq]
  exact same_touchBesideDirfd s ptr.cage dirfd ptr.text

theorem same_unlinkatHandler (dirfd : Word) (ptr : CagePtr) (flags : Word) :
    Same s (s.unlinkatHandler dirfd ptr flags).1 := by
  unfold unlinkatHandler
  rw [ptr.readPath_eq]
  dsimp only
  split
  · exact .refl s
  · exact same_touchBesideDirfd s ptr.cage dirfd ptr.text

theorem same_rewriteSymlinkTarget (cage : Nat) (ptr : CagePtr) :
    Same s (s.rewriteSymlinkTarget cage ptr).1 := by
  unfold rewriteSymlinkTarget
  rw [ptr.readPath_eq]
  dsimp only
  split
  · exact same_touch s ptr.text cage
  · exact .refl s

theorem same_symlinkHandler (target linkpath : CagePtr) :
    Same s (s.symlinkHandler target linkpath).1 := by
  have htarget := same_rewriteSymlinkTarget s linkpath.cage target
  unfold symlinkHandler
  dsimp only
  rw [linkpath.readPath_eq]
  cases (s.rewriteSymlinkTarget linkpath.cage target).2 with
  | error => exact htarget
  | ok => exact htarget.trans (same_touch _ linkpath.text linkpath.cage)

theorem same_symlinkatHandler (target : CagePtr) (dirfd : Word) (linkpath : CagePtr) :
    Same s (s.symlinkatHandler target dirfd linkpath).1 := by
  have htarget := same_rewriteSymlinkTarget s linkpath.cage target
  unfold symlinkatHandler
  dsimp only
  cases (s.rewriteSymlinkTarget linkpath.cage target).2 with
  | error => exact htarget
  | ok => exact htarget.trans (same_rewriteAtPath _ linkpath.cage dirfd linkpath)

theorem same_execveHandler (ptr : CagePtr) : Same s (s.execveHandler ptr).1 := by
  unfold execveHandler
  rw [ptr.readPath_eq]
  exact same_touch s ptr.text ptr.cage

theorem same_socketTranslateHandler (sys : Sys) (cage : Nat) (sockaddr : CageAddr) :
    Same s (s.socketTranslateHandler sys cage sockaddr).1 := by
  unfold socketTranslateHandler
  split
  · exact .refl s
  dsimp only
  rw [copyInto_eq]
  dsimp only
  split
  · exact .refl s
  · exact same_touch s _ cage

end

theorem rewriteAtPath_ok {ptr : CagePtr} {dirfd : Word} {arg : PathArg}
    (hread : ptr.readPath = some path) (h : (s.rewriteAtPath cage dirfd ptr).2 = .ok arg) :
    arg = ⟨some (s.placeAtPath cage dirfd path).1, (s.placeAtPath cage dirfd path).2⟩ := by
  rw [rewriteAtPath, hread] at h
  dsimp only [cString] at h
  by_cases hnul : '\x00' ∈ (s.placeAtPath cage dirfd path).2
  · rw [if_pos hnul] at h
    cases h
  rw [if_neg hnul] at h
  cases h
  rfl

/-- The cage that a call gives a new working directory, and that directory. -/
def Call.newCwd (host : Host) (s : State) : Call → Option (Nat × Str)
  | .chdir ptr =>
    ptr.readPath.bind fun path =>
      let newCwd := normalizePath path (s.getCageCwd ptr.cage)
      if host.checkDir (s.chrootPath newCwd ptr.cage) then some (ptr.cage, newCwd) else none
  | .fchdir cage fd => (s.fdDirPath cage fd).map fun path => (cage, path)
  | _ => none

/-- The first half of a handler leaves every lookup alone, except that `chdir`
    and `fchdir` may give the cage a new working directory. -/
theorem handle_effect (host : Host) (s : State) (call : Call) :
    Same s (handle host s call).1 ∧ call.newCwd host s = none ∨
      ∃ cage cwd, call.newCwd host s = some (cage, cwd) ∧
        (handle host s call).1 = (s.ensureCageCwd cage).setCageCwd cage cwd := by
  cases call
  case openPath ptr flags => exact .inl ⟨same_openHandler s ptr flags, rfl⟩
  case openat dirfd ptr flags => exact .inl ⟨same_openatHandler s dirfd ptr flags, rfl⟩
  case readlink ptr buf => exact .inl ⟨same_readlinkHandler s ptr buf, rfl⟩
  case readlinkat dirfd ptr buf => exact .inl ⟨same_readlinkatHandler s dirfd ptr buf, rfl⟩
  case unlinkat dirfd ptr flags => exact .inl ⟨same_unlinkatHandler s dirfd ptr flags, rfl⟩
  case symlink target linkpath => exact .inl ⟨same_symlinkHandler s target linkpath, rfl⟩
  case symlinkat target dirfd linkpath =>
    exact .inl ⟨same_symlinkatHandler s target dirfd linkpath, rfl⟩
  case utimensat dirfd ptr => exact .inl ⟨same_utimensatHandler s dirfd ptr, rfl⟩
  case renameat | renameat2 => exact .inl ⟨same_renameatCommon s _ _ _ _ _, rfl⟩
  case execve ptr => exact .inl ⟨same_execveHandler s ptr, rfl⟩
  case getcwd cage buf => exact .inl ⟨same_ensureCageCwd s cage, rfl⟩
  case chdir ptr =>
    simp only [handle, chdirHandler, Call.newCwd, ptr.readPath_eq, bind_some]
    split
    · exact .inr ⟨_, _, rfl, rfl⟩
    · exact .inl ⟨same_ensureCageCwd s ptr.cage, rfl⟩
  case fchdir cage fd =>
    simp only [handle, fchdirHandler, Call.newCwd]
    cases s.fdDirPath cage fd with
    | none => exact .inl ⟨same_ensureCageCwd s cage, rfl⟩
    | some => exact .inr ⟨_, _, rfl, rfl⟩
  case bind | connect | sendto => exact .inl ⟨same_socketTranslateHandler s _ _ _, rfl⟩
  all_goals first
    | exact .inl ⟨.refl s, rfl⟩
    | exact .inl ⟨same_inputPathHandler s _ _ _, rfl⟩
    | exact .inl ⟨same_callWithAtPath s _ _ _, rfl⟩

/-! ## Second halves -/

/-- Tables that differ in what is known about one descriptor only. -/
structure Sets (s s' : State) (cage : Nat) (fd : Word) (entry : Option Str) : Prop where
  chrootDir : s'.chrootDir = s.chrootDir
  fallback : s'.fallback = s.fallback
  getCageCwd : ∀ c, s'.getCageCwd c = s.getCageCwd c
  fdDirPath : ∀ c f, s'.fdDirPath c f = if c = cage ∧ f = fd then entry else s.fdDirPath c f

theorem Same.sets (h : Same s1 s2) (h' : Sets s2 s3 cage fd entry) : Sets s1 s3 cage fd entry where
  chrootDir := h'.chrootDir.trans h.chrootDir
  fallback := h'.fallback.trans h.fallback
  getCageCwd := fun c => (h'.getCageCwd c).trans (h.getCageCwd c)
  fdDirPath := fun c f => by rw [h'.fdDirPath, h.fdDirPath]

theorem bind_update_update (maps : Nat → Option DirFds) (fds : DirFds) (cage : Nat) (fd : Word)
    (entry : Option Str) (hfds : ∀ f, ((maps cage).bind fun fds => fds f) = fds f) (c : Nat)
    (f : Word) :
    ((update maps cage (some (update fds fd entry)) c).bind fun fds => fds f) =
      if c = cage ∧ f = fd then entry else (maps c).bind fun fds => fds f := by
  by_cases hc : c = cage
  · rw [hc, update_self, bind_some, hfds]
    by_cases hf : f = fd
    · rw [hf, update_self, if_pos ⟨rfl, rfl⟩]
    · rw [update_of_ne hf, if_neg fun h => hf h.2]
  · rw [update_of_ne hc, if_neg fun h => hc h.1]

theorem sets_setFdDirPath (s : State) (cage : Nat) (fd : Word) (path : Str) :
    Sets s (s.setFdDirPath cage fd path) cage fd (some path) where
  chrootDir := rfl
  fallback := rfl
  getCageCwd := fun c => by
    rw [getCageCwd_eq, getCageCwd_eq]
    rfl
  fdDirPath := fun c f => by
    rw [fdDirPath_eq, fdDirPath_eq]
    refine bind_update_update s.cageDirFds _ cage fd (some path) (fun f => ?_) c f
    cases s.cageDirFds cage <;> rfl

theorem sets_clearFdDirPath (s : State) (cage : Nat) (fd : Word) :
    Sets s (s.clearFdDirPath cage fd) cage fd none := by
  unfold clearFdDirPath
  rcases hfds : s.cageDirFds cage with _ | fds
  · refine ⟨rfl, rfl, fun c => rfl, fun c f => ?_⟩
    dsimp only
    split
    next h =>
      rw [fdDirPath_eq, h.1, hfds]
      rfl
    · rfl
  refine ⟨rfl, rfl, fun c => ?_, fun c f => ?_⟩
  · rw [getCageCwd_eq, getCageCwd_eq]
    rfl
  · rw [fdDirPath_eq, fdDirPath_eq]
    refine bind_update_update s.cageDirFds fds cage fd none (fun f => ?_) c f
    rw [hfds]
    rfl

theorem sets_copyFdDirPath (s : State) (cage : Nat) (oldfd newfd : Word) :
    Sets s (s.copyFdDirPath cage oldfd newfd) cage newfd (s.fdDirPath cage oldfd) := by
  unfold copyFdDirPath
  cases s.fdDirPath cage oldfd with
  | none => exact (same_ensureCageCwd s cage).sets (sets_clearFdDirPath _ cage newfd)
  | some path => exact (same_ensureCageCwd s cage).sets (sets_setFdDirPath _ cage newfd path)

theorem sets_registerDirFdIfDirectory (s : State) (host : Host) (cage : Nat) (fd : Word)
    (path : Str) :
    Sets s (s.registerDirFdIfDirectory host cage fd path) cage fd
      (if host.checkDir (s.chrootPath path cage) then some path else none) := by
  unfold registerDirFdIfDirectory
  split
  · exact (same_touch s path cage).sets (sets_setFdDirPath _ cage fd path)
  · exact (same_touch s path cage).sets (sets_clearFdDirPath _ cage fd)

/-- Tables in which one cage has been given the working directory of another,
    and its descriptors as far as the other has any. -/
structure Inherits (s s' : State) (parent child : Nat) : Prop where
  chrootDir : s'.chrootDir = s.chrootDir
  fallback : s'.fallback = s.fallback
  getCageCwd : ∀ c, s'.getCageCwd c = s.getCageCwd (if c = child then parent else c)
  fdDirPath : ∀ c f, c ≠ child → s'.fdDirPath c f = s.fdDirPath c f
  childFds : (∀ f, s'.fdDirPath child f = s.fdDirPath parent f) ∨
    ∀ f, s.fdDirPath parent f = none ∧ s'.fdDirPath child f = s.fdDirPath child f

theorem getCageCwd_setCageCwd (s : State) (cage : Nat) (cwd : Str) (c : Nat) :
    (s.setCageCwd cage cwd).getCageCwd c = if c = cage then cwd else s.getCageCwd c := by
  rw [getCageCwd_eq, getCageCwd_eq]
  change (update s.cageCwds cage (some cwd) c).getD s.fallback = _
  by_cases hc : c = cage
  · rw [hc, update_self, if_pos rfl]
    rfl
  · rw [update_of_ne hc, if_neg hc]

theorem fdDirPath_setCageCwd (s : State) (cage : Nat) (cwd : Str) (c : Nat) (f : Word) :
    (s.setCageCwd cage cwd).fdDirPath c f = s.fdDirPath c f := by
  rw [fdDirPath_eq, fdDirPath_eq]
  rfl

theorem inherits_register (s : State) (parent child : Nat) :
    Inherits s ((s.registerCage parent child).registerChildFdPaths parent child) parent child := by
  have hsame := same_ensureCageCwd s parent
  have hcwd : ∀ c, (s.registerCage parent child).getCageCwd c =
      s.getCageCwd (if c = child then parent else c) := by
    intro c
    rw [registerCage, getCageCwd_setCageCwd]
    split
    · rfl
    · exact hsame.getCageCwd c
  have hfds : ∀ c f, (s.registerCage parent child).fdDirPath c f = s.fdDirPath c f := by
    intro c f
    rw [registerCage, fdDirPath_setCageCwd]
    exact hsame.fdDirPath c f
  unfold registerChildFdPaths
  rcases hparent : (s.registerCage parent child).cageDirFds parent with _ | _
  · refine ⟨hsame.chrootDir, hsame.fallback, hcwd, fun c f _ => hfds c f, .inr fun f => ?_⟩
    refine ⟨?_, hfds child f⟩
    rw [← hfds, fdDirPath_eq, hparent]
    rfl
  refine ⟨hsame.chrootDir, hsame.fallback, fun c => ?_, fun c f hc => ?_, .inl fun f => ?_⟩
  · rw [← hcwd, getCageCwd_eq, getCageCwd_eq]
    rfl
  · rw [← hfds, fdDirPath_eq, fdDirPath_eq]
    dsimp only
    rw [update_of_ne hc]
  · rw [← hfds, fdDirPath_eq, fdDirPath_eq, hparent]
    dsimp only
    rw [update_self]

theorem fdDirPath_handle (host : Host) (s : State) (call : Call) (cage : Nat) (fd : Word) :
    (handle host s call).1.fdDirPath cage fd = s.fdDirPath cage fd := by
  rcases handle_effect host s call with ⟨hsame, _⟩ | ⟨c, cwd, _, hstate⟩
  · exact hsame.fdDirPath cage fd
  · rw [hstate, fdDirPath_setCageCwd]
    exact (same_ensureCageCwd s c).fdDirPath cage fd

/-! ## Calls that do not touch descriptors -/

variable {sys : Sys} {req : Request} {after : After}

/-- The forwarded calls that leave the descriptors alone. -/
def Sys.isInert : Sys → Bool
  | .openPath | .openat | .close | .dup | .dup2 | .dup3 | .fcntl | .clone | .execve => false
  | _ => true

/-- The second halves that leave the table alone. -/
def After.isInert : After → Bool
  | .reply | .readBack _ | .notDirectory => true
  | _ => false

theorem finish_inert {host : Host} {answer : Answer} (h : after.isInert = true) :
    (finish host answer s after).1 = s := by
  cases after
  case readBack buf =>
    dsimp only [finish]
    split
    · rfl
    split
    · rfl
    · rfl
  case reply => rfl
  case notDirectory => rfl
  all_goals cases h

theorem forward_inputPathHandler {first : CagePtr} {others : List CagePtr}
    (h : (s.inputPathHandler sys first others).2 = .forward req after) :
    req.sys = sys ∧ after = .reply := by
  unfold inputPathHandler at h
  dsimp only at h
  split at h
  · cases h
  · cases h
    exact ⟨rfl, rfl⟩

theorem forward_callWithAtPath {dirfd : Word} {ptr : CagePtr}
    (h : (s.callWithAtPath sys dirfd ptr).2 = .forward req after) :
    req.sys = sys ∧ after = .reply := by
  unfold callWithAtPath at h
  dsimp only at h
  split at h
  · cases h
  · cases h
    exact ⟨rfl, rfl⟩

theorem forward_renameatCommon {olddirfd newdirfd : Word} {oldpath newpath : CagePtr}
    (h : (s.renameatCommon sys olddirfd oldpath newdirfd newpath).2 = .forward req after) :
    req.sys = sys ∧ after = .reply := by
  unfold renameatCommon at h
  dsimp only at h
  split at h
  · cases h
  split at h
  · cases h
  · cases h
    exact ⟨rfl, rfl⟩

/-- The calls that open, duplicate or close descriptors, make a cage or execute
    a program. -/
def Call.touchesFds : Call → Bool
  | .openPath _ _ | .openat _ _ _ | .close _ _ | .dup _ _ | .dup2 _ _ _ | .dup3 _ _ _ _
  | .fcntl _ _ _ _ | .fork _ _ | .execve _ | .fchdir _ _ => true
  | _ => false

theorem forward_inert {host : Host} {call : Call} (hcall : call.touchesFds = false)
    (h : (handle host s call).2 = .forward req after) :
    req.sys.isInert = true ∧ after.isInert = true := by
  have hfamily : ∀ {sys : Sys}, sys.isInert = true → req.sys = sys ∧ after = .reply →
      req.sys.isInert = true ∧ after.isInert = true := by
    rintro sys hsys ⟨hreq, hafter⟩
    rw [hreq, hafter]
    exact ⟨hsys, rfl⟩
  cases call
  case readlink | readlinkat | unlinkat | symlink | symlinkat | bind | connect | sendto =>
    dsimp only [handle, readlinkHandler, readlinkatHandler, unlinkatHandler, symlinkHandler,
      symlinkatHandler, bindHandler, connectHandler, sendtoHandler, socketTranslateHandler] at h
    repeat' split at h
    all_goals cases h
    all_goals exact ⟨rfl, rfl⟩
  case utimensat dirfd ptr =>
    dsimp only [handle, utimensatHandler] at h
    split at h
    · cases h
      exact ⟨rfl, rfl⟩
    · exact hfamily rfl (forward_callWithAtPath h)
  case renameat | renameat2 => exact hfamily rfl (forward_renameatCommon h)
  case chdir | getcwd =>
    dsimp only [handle, chdirHandler, getcwdHandler] at h
    repeat' split at h
    all_goals cases h
  case chroot => cases h
  all_goals first
    | exact hfamily rfl (forward_inputPathHandler h)
    | exact hfamily rfl (forward_callWithAtPath h)
    | cases hcall

/-! ## Texts in the tables -/

/-- No text in the tables contains a NUL. -/
structure Clean (s : State) : Prop where
  chrootDir : '\x00' ∉ s.chrootDir
  fallback : '\x00' ∉ s.fallback
  getCageCwd : ∀ cage, '\x00' ∉ s.getCageCwd cage
  fdDirPath : ∀ cage fd path, s.fdDirPath cage fd = some path → '\x00' ∉ path

section

variable (hs : Clean s)

include hs

theorem Clean.same (h : Same s s') : Clean s' where
  chrootDir := h.chrootDir ▸ hs.chrootDir
  fallback := h.fallback ▸ hs.fallback
  getCageCwd := fun cage => h.getCageCwd cage ▸ hs.getCageCwd cage
  fdDirPath := fun cage fd path hp => hs.fdDirPath cage fd path (h.fdDirPath cage fd ▸ hp)

theorem Clean.sets (h : Sets s s' cage fd entry)
    (hentry : ∀ path, entry = some path → '\x00' ∉ path) : Clean s' where
  chrootDir := h.chrootDir ▸ hs.chrootDir
  fallback := h.fallback ▸ hs.fallback
  getCageCwd := fun c => h.getCageCwd c ▸ hs.getCageCwd c
  fdDirPath := fun c f path hp => by
    rw [h.fdDirPath] at hp
    split at hp
    · exact hentry path hp
    · exact hs.fdDirPath c f path hp

theorem Clean.inherits {parent child : Nat} (h : Inherits s s' parent child) : Clean s' where
  chrootDir := h.chrootDir ▸ hs.chrootDir
  fallback := h.fallback ▸ hs.fallback
  getCageCwd := fun c => h.getCageCwd c ▸ hs.getCageCwd _
  fdDirPath := fun c f path hp => by
    by_cases hc : c = child
    · rw [hc] at hp
      rcases h.childFds with hfds | hfds
      · exact hs.fdDirPath parent f path (hfds f ▸ hp)
      · exact hs.fdDirPath child f path ((hfds f).2 ▸ hp)
    · exact hs.fdDirPath c f path (h.fdDirPath c f hc ▸ hp)

theorem Clean.chrootPath (h : '\x00' ∉ path) (cage : Nat) :
    '\x00' ∉ s.chrootPath path cage :=
  nul_notMem_jailPath hs.chrootDir h (hs.getCageCwd cage)

theorem Clean.newCwd {call : Call} {cwd : Str}
    (h : call.newCwd host s = some (cage, cwd)) : '\x00' ∉ cwd := by
  cases call
  case chdir ptr =>
    rw [Call.newCwd, ptr.readPath_eq, bind_some] at h
    dsimp only at h
    split at h
    · cases h
      exact nul_notMem_normalizePath ptr.nul_notMem_text (hs.getCageCwd _)
    · cases h
  case fchdir c fd =>
    rcases map_eq_some_iff.mp h with ⟨path, hpath, h⟩
    cases h
    exact hs.fdDirPath _ fd _ hpath
  all_goals cases h

theorem Clean.handle (host : Host) (call : Call) : Clean (handle host s call).1 := by
  rcases handle_effect host s call with ⟨hsame, _⟩ | ⟨cage, cwd, hnew, hstate⟩
  · exact hs.same hsame
  have hensured := hs.same (same_ensureCageCwd s cage)
  rw [hstate]
  refine ⟨hensured.chrootDir, hensured.fallback, fun c => ?_, fun c f path hp => ?_⟩
  · rw [getCageCwd_setCageCwd]
    split
    · exact hs.newCwd hnew
    · exact hensured.getCageCwd c
  · rw [fdDirPath_setCageCwd] at hp
    exact hensured.fdDirPath c f path hp

end

/-- The text a handler keeps for later contains no NUL. -/
def After.Clean : After → Prop
  | .register _ (some path) => '\x00' ∉ path
  | _ => True

theorem Clean.finish (hs : Clean s) (host : Host) (answer : Answer) {after : After}
    (hafter : after.Clean) : Clean (finish host answer s after).1 := by
  have hunless : ∀ {failed : Prop} [Decidable failed] {s' : State}, Clean s' →
      Clean (if failed then s else s') := by
    intro failed _ s' hs'
    split
    · exact hs
    · exact hs'
  cases after
  case register cage path =>
    rcases path with _ | path
    · exact hs
    refine hunless (hs.sets (sets_registerDirFdIfDirectory s host cage _ path) fun p hp => ?_)
    split at hp
    · cases hp
      exact hafter
    · cases hp
  case copyToResult cage oldfd | copyTo cage oldfd _ =>
    exact hunless (hs.sets (sets_copyFdDirPath s cage oldfd _) (hs.fdDirPath cage oldfd))
  case clear cage fd =>
    exact hunless (hs.sets (sets_clearFdDirPath s cage fd) fun path hp => by cases hp)
  case child parent => exact hunless (hs.inherits (inherits_register s parent _))
  all_goals
    rw [finish_inert rfl]
    exact hs

/-- What is left to do behind a reply keeps no NUL. -/
def Reply.Clean : Reply → Prop
  | .done _ _ => True
  | .forward _ after => after.Clean

theorem clean_openHandler (hs : Clean s) (ptr : CagePtr) (flags : Word) :
    (s.openHandler ptr flags).2.Clean := by
  unfold openHandler
  rw [ptr.readPath_eq]
  dsimp only
  split
  · exact trivial
  cases devFdTarget ptr.text with
  | some => exact trivial
  | none =>
    cases cString (s.chrootPath ptr.text ptr.cage) with
    | none => exact trivial
    | some => exact nul_notMem_normalizePath ptr.nul_notMem_text (hs.getCageCwd _)

theorem nul_notMem_resolveVirtualAtPath (hs : Clean s) {dirfd : Word} {q : Str}
    (hpath : '\x00' ∉ path) (h : s.resolveVirtualAtPath cage dirfd path = some q) : '\x00' ∉ q := by
  unfold resolveVirtualAtPath at h
  split at h
  · cases h
    exact nul_notMem_normalizePath hpath (hs.getCageCwd cage)
  rcases map_eq_some_iff.mp h with ⟨dir, hdir, h⟩
  rw [← h]
  exact nul_notMem_normalizePath hpath (hs.fdDirPath cage dirfd dir hdir)

theorem clean_openatHandler (hs : Clean s) (dirfd : Word) (ptr : CagePtr) (flags : Word) :
    (s.openatHandler dirfd ptr flags).2.Clean := by
  unfold openatHandler
  rw [ptr.readPath_eq]
  dsimp only
  split
  · exact trivial
  cases (if ptr.text.isAbsolute then devFdTarget ptr.text else none) with
  | some => exact trivial
  | none =>
    rcases ((s.ensureCageCwd ptr.cage).rewriteAtPath ptr.cage dirfd ptr).2 with _ | _
    · exact trivial
    cases hq : s.resolveVirtualAtPath ptr.cage dirfd ptr.text with
    | none => exact trivial
    | some => exact nul_notMem_resolveVirtualAtPath hs ptr.nul_notMem_text hq

theorem clean_of_isInert (h : after.isInert = true) : after.Clean := by
  cases after
  case register => cases h
  all_goals exact trivial

theorem Clean.reply (hs : Clean s) (host : Host) (call : Call) :
    (Chroot.handle host s call).2.Clean := by
  by_cases htouch : call.touchesFds = true
  · cases call
    case openPath ptr flags => exact clean_openHandler hs ptr flags
    case openat dirfd ptr flags => exact clean_openatHandler hs dirfd ptr flags
    case fcntl | execve | fchdir | fork =>
      dsimp only [Chroot.handle, fcntlHandler, execveHandler, fchdirHandler, forkHandler]
      repeat' split
      all_goals exact trivial
    all_goals first
      | exact trivial
      | cases htouch
  rcases hreply : (Chroot.handle host s call).2 with _ | _
  · exact trivial
  · exact clean_of_isInert (forward_inert (Bool.not_eq_true _ ▸ htouch) hreply).2

/-! ## Reachable tables -/

/-- The tables that calls lead to. A handler may finish long after it began, so
    its second half is allowed on any reachable tables. -/
inductive Reachable : State → Prop
  | start {host : Host} {chrootDir hostCwd : Str} {grate cage : Nat} {s : State}
      (hcwd : '\x00' ∉ hostCwd) (h : State.initState host chrootDir hostCwd grate cage = some s) :
      Reachable s
  | handle {s : State} (hs : Reachable s) (host : Host) (call : Call) :
      Reachable (handle host s call).1
  | finish {s s₀ : State} (hs : Reachable s) (hs₀ : Reachable s₀) (host host₀ : Host) (call : Call)
      (req : Request) (after : After) (answer : Answer)
      (h : (Chroot.handle host₀ s₀ call).2 = .forward req after) :
      Reachable (finish host answer s after).1

theorem nul_notMem_of_checkDir {dir : Str} (h : host.checkDir dir = true) : '\x00' ∉ dir := by
  intro hmem
  rw [Host.checkDir, cString, if_pos hmem] at h
  cases h

theorem nul_notMem_virtualizeHostCwd (chrootDir : Str) (h : '\x00' ∉ hostCwd) :
    '\x00' ∉ virtualizeHostCwd chrootDir hostCwd := by
  have hroot : '\x00' ∉ ['/'] := by decide
  have hdrop : '\x00' ∉ hostCwd.drop (trimEnd chrootDir).length := fun hmem =>
    h (List.mem_of_mem_drop hmem)
  unfold virtualizeHostCwd
  dsimp only
  split
  · exact nul_notMem_normalizePath h hroot
  split
  · exact hroot
  split
  · exact nul_notMem_normalizePath hdrop hroot
  · exact nul_notMem_normalizePath h hroot

theorem clean_initState {chrootDir : Str} {grate : Nat} (hcwd : '\x00' ∉ hostCwd)
    (h : State.initState host chrootDir hostCwd grate cage = some s) : Clean s := by
  have hinitial := nul_notMem_virtualizeHostCwd chrootDir hcwd
  unfold initState at h
  split at h
  · cases h
  rename_i hdir
  have hcheck : host.checkDir chrootDir = true := by
    rw [← Bool.not_eq_false]
    exact fun hc => hdir (.inr hc)
  cases h
  have hfallback : '\x00' ∉ State.fallback
      ⟨chrootDir, virtualizeHostCwd chrootDir hostCwd, fun _ => none, fun _ => none⟩ := by
    unfold State.fallback
    split
    · decide
    · exact hinitial
  refine ⟨nul_notMem_of_checkDir hcheck, hfallback, fun c => ?_, fun c fd path hp => ?_⟩
  · rw [getCageCwd_eq]
    dsimp only
    by_cases hc : c = cage
    · rw [hc, update_self]
      exact hinitial
    rw [update_of_ne hc]
    by_cases hg : c = grate
    · rw [hg, update_self]
      exact hinitial
    · rw [update_of_ne hg]
      exact hfallback
  · rw [fdDirPath_eq] at hp
    dsimp only at hp
    by_cases hc : c = cage
    · rw [hc, update_self] at hp
      cases hp
    · rw [update_of_ne hc] at hp
      cases hp

theorem clean_of_reachable (h : Reachable s) : Clean s := by
  induction h with
  | start hcwd h => exact clean_initState hcwd h
  | handle _ host call ih => exact ih.handle host call
  | finish _ _ host host0 call _ _ answer h ih ih0 =>
    have hreply := ih0.reply host0 call
    rw [h] at hreply
    exact ih.finish host answer hreply

end LindGrates.Chroot
