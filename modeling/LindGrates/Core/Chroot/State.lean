import LindGrates.Core.Chroot.Path

/-!
# State of the Chroot Grate

A cage the grate has not been told about gets the initial working directory the
first time it is asked for one.

## Main definitions

* `State`: The jail directory, the virtual working directory of each cage, and its
  descriptors known to be directories, with the virtual path each was opened at.
* `initState`: The tables before the first call.
-/

namespace LindGrates.Chroot

open Function

abbrev Word := BitVec 64

abbrev DirFds := Word → Option Str

structure State where
  chrootDir : Str
  initialCwd : Str
  cageCwds : Nat → Option Str
  cageDirFds : Nat → Option DirFds

/-- What the grate can ask the host itself: the mode of the file at a path, if
    there is one. -/
structure Host where
  stat : Str → Option Nat

def sIfdir : Nat :=
  0o40000

def Host.checkDir (host : Host) (dir : Str) : Bool :=
  match cString dir with
  | none => false
  | some dir =>
    match host.stat dir with
    | none => false
    | some mode => mode &&& sIfdir ≠ 0

namespace State

/-- The working directory of a cage nothing is known about. -/
def fallback (s : State) : Str :=
  if s.initialCwd = [] then ['/'] else s.initialCwd

variable (s : State) (cage : Nat)

def ensureCageCwd : State :=
  if (s.cageCwds cage).isSome then s
  else
    { s with
      cageCwds := update s.cageCwds cage (some s.fallback)
      cageDirFds :=
        update s.cageDirFds cage (some ((s.cageDirFds cage).getD fun _ => none)) }

/-- `get_cage_cwd`: what is found once the cage has an entry. -/
def getCageCwd : Str :=
  ((s.ensureCageCwd cage).cageCwds cage).getD ['/']

def setCageCwd (cwd : Str) : State :=
  { s with cageCwds := update s.cageCwds cage (some cwd) }

def registerCage (s : State) (parent child : Nat) : State :=
  (s.ensureCageCwd parent).setCageCwd child (s.getCageCwd parent)

def chrootPath (s : State) (path : Str) (cage : Nat) : Str :=
  jailPath s.chrootDir (s.getCageCwd cage) path

/-- The tables `chroot_path` leaves behind: it looks up the working directory
    unless the path is empty. -/
def touch (s : State) (path : Str) (cage : Nat) : State :=
  if path = [] then s else s.ensureCageCwd cage

/-- `fd_dir_path`: what is found once the cage has an entry. -/
def fdDirPath (fd : Word) : Option Str :=
  ((s.ensureCageCwd cage).cageDirFds cage).bind fun fds => fds fd

def setFdDirPath (fd : Word) (path : Str) : State :=
  { s with
    cageDirFds := update s.cageDirFds cage
      (some (update ((s.cageDirFds cage).getD fun _ => none) fd (some path))) }

def clearFdDirPath (fd : Word) : State :=
  match s.cageDirFds cage with
  | none => s
  | some fds =>
    { s with
      cageDirFds := update s.cageDirFds cage (some (update fds fd none)) }

def copyFdDirPath (oldfd newfd : Word) : State :=
  match s.fdDirPath cage oldfd with
  | some path => (s.ensureCageCwd cage).setFdDirPath cage newfd path
  | none => (s.ensureCageCwd cage).clearFdDirPath cage newfd

def registerDirFdIfDirectory (s : State) (host : Host) (cage : Nat) (fd : Word)
    (virtualPath : Str) : State :=
  if host.checkDir (s.chrootPath virtualPath cage) then
    (s.touch virtualPath cage).setFdDirPath cage fd virtualPath
  else (s.touch virtualPath cage).clearFdDirPath cage fd

def registerChildFdPaths (s : State) (parent child : Nat) : State :=
  match s.cageDirFds parent with
  | none => s
  | some fds => { s with cageDirFds := update s.cageDirFds child (some fds) }

/-- What `main` does before the first call: `init_state`, `init_cwd` for the
    grate's own cage, and the step before the first program is started. It
    panics when the jail is not a directory. -/
def initState (host : Host) (chrootDir hostCwd : Str) (grate cage : Nat) : Option State :=
  if chrootDir = [] ∨ host.checkDir chrootDir = false then none
  else
    let initial := virtualizeHostCwd chrootDir hostCwd
    some
      { chrootDir := chrootDir
        initialCwd := initial
        cageCwds :=
          update (update (fun _ => none) grate (some initial)) cage (some initial)
        cageDirFds := update (fun _ => none) cage (some fun _ => none) }

end State

end LindGrates.Chroot
