import LindGrates.Base.Lexical
import LindGrates.Core.Copy
import LindGrates.Core.FdSupport.Specs
import LindGrates.Core.ManagedTables
import LindGrates.Core.Utf8

/-!
# The State of the File System Routing Clamp

The clamp stands between a target cage and two places its file system calls can
go: the kernel, and a stack of grates inside the clamp. A call goes to the
clamped side if it concerns the files below a prefix.

## Main definitions

* `State`: What `helpers.rs` keeps for each cage and for the clamp as a whole.
* `State.getRoute`: The alternate number of a call.
* `State.pathMatchesPrefix`: Whether a path is below the prefix.
* `State.recordClampedMmap`: Keeps the ranges mapped from clamped files.
-/

namespace LindGrates.FsClamp

open Lexical Function

/-- A system call argument. An `int` comes sign-extended. -/
abbrev Word := BitVec 64

/-- The system calls, those the clamp knows by name first. -/
inductive Sys
  | open | openat | xstat | lstat | access | unlink | link | linkat | mkdir | rmdir | rename
  | truncate | chmod | chown | lchown | chdir | mknod | symlink | symlinkat | readlink
  | unlinkat | readlinkat | statfs | getdents
  | read | write | close | readv | writev | pread | pwrite | preadv | pwritev | lseek | fxstat
  | newfstatat | statx | faccessat | fcntl | ftruncate | fchmod | fchmodat | fchownat | fchdir
  | utimensat | fsync | fdatasync | fstatfs | syncFileRange | mmap | munmap
  | dup | dup2 | dup3
  | getcwd
  | clone | exec | exitGroup | registerHandler
  | other (nr : Nat)
  deriving DecidableEq

/-- `FS_CALLS`, in which `readv` and `writev` come twice. -/
def fsCalls : List Sys :=
  [.open, .openat, .xstat, .lstat, .access, .unlink, .link, .linkat, .mkdir, .rmdir, .rename,
    .truncate, .chmod, .chown, .lchown, .chdir, .mknod, .symlink, .symlinkat, .readlink,
    .unlinkat, .readlinkat, .statfs, .getdents, .read, .write, .close, .readv, .writev, .pread,
    .pwrite, .preadv, .pwritev, .lseek, .fxstat, .newfstatat, .statx, .faccessat, .fcntl,
    .ftruncate, .fchmod, .fchmodat, .fchownat, .fchdir, .utimensat, .readv, .writev, .fsync,
    .fdatasync, .fstatfs, .syncFileRange, .mmap, .munmap, .dup, .dup2, .dup3, .getcwd]

abbrev Memory := (cage : Nat) → (ptr : Word) → Option (List UInt8)

structure ClampedMmapRange where
  start : Nat
  stop : Nat
  deriving DecidableEq, Repr

structure Interposition where
  targetCage : Nat
  sys : Sys
  grateId : Nat
  handlerFn : Nat
  deriving DecidableEq

/-- `NSClampState`, with the mapped ranges and the tables of descriptors. -/
structure State (T : Type) where
  nsCageId : Nat
  clampEntryCage : Nat
  /-- How many clamps are open, a `usize`: it grows by one with each `exec` of a
      marker and is never decremented below zero. -/
  clampDepth : Nat
  routingPrefix : Str
  routes : Nat → Sys → Option Nat
  clampedCages : Nat → Bool
  cwdByCage : Nat → Option Str
  altAllocator : Nat
  interpositionMap : List Interposition
  clampedMmaps : Nat → Option (List ClampedMmapRange)
  fds : T

def maxPathLen : Nat :=
  4096

/-- `read_path_from_cage`: the bytes up to the first NUL, as text. A buffer that
    nothing is copied to has the empty text. -/
def readPathFromCage (mem : Memory) (pathPtr : Word) (pathCage : Nat) : Option Str :=
  (copyInto (mem pathCage pathPtr) []).bind fun bytes =>
    fromUtf8 ((bytes.take maxPathLen).takeWhile fun b => b ≠ 0)

def normalizePath (path : Str) : Str :=
  let components := path.split.foldl push []
  if components = [] then ['/'] else '/' :: Str.join components

def checkedAdd (addr len : Nat) : Option Nat :=
  if addr + len < 2 ^ 64 then some (addr + len) else none

/-- What is left of a range when another is taken out of it. -/
def ClampedMmapRange.without (r : ClampedMmapRange) (addr stop : Nat) : List ClampedMmapRange :=
  if stop ≤ r.start ∨ r.stop ≤ addr then [r]
  else
    (if r.start < addr then [⟨r.start, addr⟩] else []) ++
      (if stop < r.stop then [⟨stop, r.stop⟩] else [])

namespace State

variable {T : Type}

/-! ## Cages -/

variable (s : State T)

def setClampEntry (cage : Nat) : State T :=
  { s with clampEntryCage := cage }

def enterNestedClamp : State T :=
  { s with clampDepth := s.clampDepth + 1 }

def exitNestedClamp : State T :=
  { s with clampDepth := s.clampDepth - 1 }

def registerClampedCage (cage : Nat) : State T :=
  { s with
    clampedCages := update s.clampedCages cage true
    cwdByCage := update s.cwdByCage cage (some ((s.cwdByCage cage).getD ['/'])) }

def deregisterClampedCage (cage : Nat) : State T :=
  { s with clampedCages := update s.clampedCages cage false }

def isCageClamped (cage : Nat) : Bool :=
  s.clampedCages cage

def pushInterpositionRequest (request : Interposition) : State T :=
  { s with interpositionMap := s.interpositionMap ++ [request] }

/-- `get_interposition_request`, which finds the last one. -/
def getInterpositionRequest (targetCage : Nat) (sys : Sys) : Option (Nat × Nat) :=
  (s.interpositionMap.findRev? fun r => r.targetCage = targetCage ∧ r.sys = sys).map fun r =>
    (r.grateId, r.handlerFn)

def allocAltSyscall : Nat × State T :=
  (s.altAllocator, { s with altAllocator := s.altAllocator + 1 })

/-! ## Routes -/

def setRoute (cage : Nat) (sys : Sys) (alt : Nat) : State T :=
  { s with
    routes := update s.routes cage (update (s.routes cage) sys (some alt)) }

def getRoute (cage : Nat) (sys : Sys) : Option Nat :=
  s.routes cage sys

def cloneCageRoutes (parent child : Nat) : State T :=
  { s with
    routes := update s.routes child fun sys =>
      (s.routes parent sys).or (s.routes child sys) }

/-! ## Working directories -/

def getCageCwd (cage : Nat) : Str :=
  (s.cwdByCage cage).getD ['/']

def setCageCwd (cage : Nat) (cwd : Str) : State T :=
  { s with cwdByCage := update s.cwdByCage cage (some (normalizePath cwd)) }

def cloneCageCwd (parent child : Nat) : State T :=
  s.setCageCwd child (s.getCageCwd parent)

def removeCageState (cage : Nat) : State T :=
  { s with
    routes := update s.routes cage fun _ => none
    clampedCages := update s.clampedCages cage false
    cwdByCage := update s.cwdByCage cage none }

/-! ## Paths -/

def resolvePathForCage (cage : Nat) (path : Str) : Str :=
  if path.isAbsolute then normalizePath path
  else normalizePath (trimEnd (s.getCageCwd cage) ++ '/' :: path)

def resolvePathFromCage (mem : Memory) (cage : Nat) (pathPtr : Word)
    (pathCage : Nat) : Option Str :=
  (readPathFromCage mem pathPtr pathCage).map (s.resolvePathForCage cage)

def pathMatchesPrefix (path : Str) : Bool :=
  s.routingPrefix.isPrefixOf path

/-! ## Mapped ranges -/

def recordClampedMmap (cage addr len : Nat) : State T :=
  if len = 0 then s
  else
    match checkedAdd addr len with
    | none => s
    | some stop =>
      { s with
        clampedMmaps := update s.clampedMmaps cage
          (some ((s.clampedMmaps cage).getD [] ++ [⟨addr, stop⟩])) }

def isClampedMmap (cage addr len : Nat) : Bool :=
  if len = 0 then false
  else
    match checkedAdd addr len with
    | none => false
    | some stop => ((s.clampedMmaps cage).getD []).any fun r => addr < r.stop ∧ r.start < stop

def removeClampedMmap (cage addr len : Nat) : State T :=
  if len = 0 then s
  else
    match checkedAdd addr len with
    | none => s
    | some stop =>
      match s.clampedMmaps cage with
      | none => s
      | some ranges =>
        let newRanges := ranges.flatMap fun r => r.without addr stop
        { s with
          clampedMmaps := update s.clampedMmaps cage
            (if newRanges = [] then none else some newRanges) }

end State

end LindGrates.FsClamp
