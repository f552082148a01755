import LindGrates.Base.Dialogue
import LindGrates.Core.FsClamp.State
import LindGrates.Core.Posix

/-!
# The Handlers of the File System Routing Clamp

Each of them decides where the call goes, makes it there under the descriptor
numbers that side knows, and keeps the cage's table of descriptors.

There are two ways to the clamped side: an alternate number under which a
clamped grate registered its handler for the call, and a call made from the
clamp's entry cage.

## Main definitions

* `Asking`: The asking part of the handlers.
* `pathHandler`, `atHandler`, `fdRouteHandler`: The families of handlers.
* `prepareAtPathRoute`: Where a call of the `*at` family goes.
* `nsHandler`: The handler of a call.
-/

namespace LindGrates.FsClamp

open FdTables Posix Dialogue Function

structure Request where
  sys : Sys
  args : Fin 6 → Word
  argcages : Fin 6 → Nat

/-- A call number: the call itself, or an alternate one registered for it. -/
inductive Nr
  | plain (sys : Sys)
  | alt (sys : Sys) (nr : Nat)
  deriving DecidableEq

def Nr.sys : Nr → Sys
  | .plain sys => sys
  | .alt sys _ => sys

/-- A call the clamp makes, as itself or from the clamp's entry cage. -/
structure Forward where
  nr : Nr
  fromEntry : Bool
  cage : Nat
  args : Fin 6 → Word
  argcages : Fin 6 → Nat

inductive Side
  | kernel
  | clamped
  deriving DecidableEq, Repr

def Forward.side (f : Forward) : Side :=
  match f.nr with
  | .alt _ _ => .clamped
  | .plain _ => if f.fromEntry then .clamped else .kernel

/-- What the clamp asks the system: calls, registrations of handlers, and copies
    to the memory of a cage. -/
inductive Ask
  | syscall (f : Forward)
  | registerAlt (grateId handlerFn alt : Nat)
  | registerNs (targetCage : Nat) (sys : Sys)
  | registerDefaults (targetCage : Nat)
  | register (request : Interposition)
  | copyOut (cage : Nat) (ptr : Word) (bytes : List UInt8)

/-- The asking part of the handlers. Every reply is an `i32`. -/
abbrev Asking := Dialogue Ask Int

def atFdcwd : Word :=
  -100

def efault : Int :=
  14

def oCloexec : Word :=
  0o2000000

def fDupfd : Word :=
  0

def fDupfdCloexec : Word :=
  1030

def fSetfd : Word :=
  2

def fdCloexec : Word :=
  1

def mapAnon : Word :=
  0x20

def wordOf (ret : Int) : Word :=
  BitVec.ofInt 64 ret

def onlyArg (arg : Word) : Fin 6 → Word :=
  fun i => if i = 0 then arg else 0

def doSyscall (cage : Nat) (nr : Nr) (args : Fin 6 → Word) (argcages : Fin 6 → Nat) : Asking Int :=
  request (.syscall ⟨nr, false, cage, args, argcages⟩)

def doClampSyscall (cage : Nat) (sys : Sys) (args : Fin 6 → Word) (argcages : Fin 6 → Nat) :
    Asking Int :=
  request (.syscall ⟨.plain sys, true, cage, args, argcages⟩)

/-- The close that takes back or replaces a descriptor, always to the kernel. -/
def closeUnder (cage : Nat) (underfd : Word) : Asking Int :=
  doSyscall cage (.plain .close) (onlyArg underfd) fun _ => cage

variable {T : Type} [FdTables T]

/-- The number of a call: the alternate one if there is a route and the call is
    to take it. -/
def State.routeIf (s : State T) (cage : Nat) (sys : Sys) (clamp : Bool) : Nr :=
  match s.getRoute cage sys with
  | some alt => if clamp then .alt sys alt else .plain sys
  | none => .plain sys

/-- A call to the clamped side: by its route if it has one, otherwise from the
    entry cage. -/
def State.callClamped (s : State T) (cage : Nat) (sys : Sys) (args : Fin 6 → Word)
    (argcages : Fin 6 → Nat) : Asking Int :=
  match s.getRoute cage sys with
  | some alt => doSyscall cage (.alt sys alt) args argcages
  | none => doClampSyscall cage sys args argcages

def State.matchesAt (s : State T) (mem : Memory) (cage : Nat) (pathPtr : Word) (pathCage : Nat) :
    Bool :=
  (s.resolvePathFromCage mem cage pathPtr pathCage).any s.pathMatchesPrefix

variable (s : State T) (mem : Memory) (c : Request)

/-! ## Calls by path -/

def pathHandler (sys : Sys) (s : State T) (mem : Memory) (c : Request) :
    Asking (State T × Int) := do
  let cage := c.argcages 0
  let nr := s.routeIf cage sys (s.matchesAt mem cage (c.args 0) cage)
  let ret ← doSyscall cage nr c.args c.argcages
  return (s, ret)

def nsStatHandler : Asking (State T × Int) :=
  pathHandler .xstat s mem c

def nsLstatHandler : Asking (State T × Int) :=
  pathHandler .lstat s mem c

def nsAccessHandler : Asking (State T × Int) :=
  pathHandler .access s mem c

def nsUnlinkHandler : Asking (State T × Int) :=
  pathHandler .unlink s mem c

def nsLinkHandler : Asking (State T × Int) :=
  pathHandler .link s mem c

def nsMkdirHandler : Asking (State T × Int) :=
  pathHandler .mkdir s mem c

def nsRmdirHandler : Asking (State T × Int) :=
  pathHandler .rmdir s mem c

def nsRenameHandler : Asking (State T × Int) :=
  pathHandler .rename s mem c

def nsTruncateHandler : Asking (State T × Int) :=
  pathHandler .truncate s mem c

def nsChmodHandler : Asking (State T × Int) :=
  pathHandler .chmod s mem c

def nsChownHandler : Asking (State T × Int) :=
  pathHandler .chown s mem c

def nsLchownHandler : Asking (State T × Int) :=
  pathHandler .lchown s mem c

def nsMknodHandler : Asking (State T × Int) :=
  pathHandler .mknod s mem c

def nsReadlinkHandler : Asking (State T × Int) :=
  pathHandler .readlink s mem c

def nsStatfsHandler : Asking (State T × Int) :=
  pathHandler .statfs s mem c

/-- `ns_symlink_handler`, which looks at the second path. -/
def nsSymlinkHandler : Asking (State T × Int) := do
  let cage := c.argcages 0
  let nr := s.routeIf cage .symlink (s.matchesAt mem cage (c.args 1) (c.argcages 1))
  let ret ← doSyscall cage nr c.args c.argcages
  return (s, ret)

def nsChdirHandler : Asking (State T × Int) :=
  let cage := c.argcages 0
  match readPathFromCage mem (c.args 0) cage with
  | none => return (s, -efault)
  | some path => do
    let resolved := s.resolvePathForCage cage path
    let nr := s.routeIf cage .chdir (s.pathMatchesPrefix resolved)
    let ret ← doSyscall cage nr c.args c.argcages
    return (if ret = 0 then s.setCageCwd cage resolved else s, ret)

/-! ## Calls by path and directory -/

/-- `prepare_at_path_route`: whether the call is clamped, and the arguments with
    the directory descriptor translated, or an error. -/
def prepareAtPathRoute (s : State T) (mem : Memory) (cage : Nat) (dirfd pathPtr : Word)
    (pathCage : Nat) (args : Fin 6 → Word) (dirfdArgIndex : Fin 6) :
    Except Int (Bool × (Fin 6 → Word)) :=
  let path := (readPathFromCage mem pathPtr pathCage).getD []
  if path.isAbsolute then .ok (s.pathMatchesPrefix (normalizePath path), args)
  else if dirfd = atFdcwd then
    .ok (!path.isEmpty && s.pathMatchesPrefix (s.resolvePathForCage cage path), args)
  else
    match translateVirtualFd s.fds cage dirfd.toNat with
    | none => .error (-ebadf)
    | some entry =>
      if entry.perfdinfo ≠ 0 then .ok (true, args)
      else .ok (false, update args dirfdArgIndex (BitVec.ofNat 64 entry.underfd))

/-- A handler of the `*at` family with one path. -/
def atHandler (sys : Sys) (dirfdIndex pathIndex : Fin 6) (s : State T) (mem : Memory)
    (c : Request) : Asking (State T × Int) :=
  let cage := c.argcages 0
  match prepareAtPathRoute s mem cage (c.args dirfdIndex) (c.args pathIndex)
    (c.argcages pathIndex) c.args dirfdIndex with
  | .error e => return (s, e)
  | .ok (clamp, args) => do
    let ret ← doSyscall cage (s.routeIf cage sys clamp) args c.argcages
    return (s, ret)

def nsSymlinkatHandler : Asking (State T × Int) :=
  atHandler .symlinkat 1 2 s mem c

def nsReadlinkatHandler : Asking (State T × Int) :=
  atHandler .readlinkat 0 1 s mem c

def nsUnlinkatHandler : Asking (State T × Int) :=
  atHandler .unlinkat 0 1 s mem c

def nsFaccessatHandler : Asking (State T × Int) :=
  atHandler .faccessat 0 1 s mem c

def nsStatxHandler : Asking (State T × Int) :=
  atHandler .statx 0 1 s mem c

def nsFchmodatHandler : Asking (State T × Int) :=
  atHandler .fchmodat 0 1 s mem c

def nsFchownatHandler : Asking (State T × Int) :=
  atHandler .fchownat 0 1 s mem c

/-- `ns_utimensat_handler`. Without a path it is about the descriptor itself. -/
def nsUtimensatHandler : Asking (State T × Int) :=
  let cage := c.argcages 0
  if c.args 1 = 0 then
    if c.args 0 = atFdcwd then do
      let ret ← doSyscall cage (s.routeIf cage .utimensat false) c.args c.argcages
      return (s, ret)
    else
      match translateVirtualFd s.fds cage (c.args 0).toNat with
      | none => return (s, -ebadf)
      | some entry => do
        let args := update c.args 0 (BitVec.ofNat 64 entry.underfd)
        let nr := s.routeIf cage .utimensat (decide (entry.perfdinfo ≠ 0))
        let ret ← doSyscall cage nr args c.argcages
        return (s, ret)
  else atHandler .utimensat 0 1 s mem c

def nsLinkatHandler : Asking (State T × Int) :=
  let cage := c.argcages 0
  match prepareAtPathRoute s mem cage (c.args 0) (c.args 1) (c.argcages 1) c.args 0 with
  | .error e => return (s, e)
  | .ok (oldClamped, args) =>
    match prepareAtPathRoute s mem cage (c.args 2) (c.args 3) (c.argcages 3) args 2 with
    | .error e => return (s, e)
    | .ok (newClamped, args) => do
      let nr := s.routeIf cage .linkat (oldClamped || newClamped)
      let ret ← doSyscall cage nr args c.argcages
      return (s, ret)

/-! ## Calls by descriptor -/

def fdRouteHandler (sys : Sys) (s : State T) (c : Request) : Asking (State T × Int) :=
  let cage := c.argcages 0
  match translateVirtualFd s.fds cage (c.args 0).toNat with
  | none => return (s, -ebadf)
  | some entry => do
    let args := update c.args 0 (BitVec.ofNat 64 entry.underfd)
    let ret ←
      if entry.perfdinfo ≠ 0 then s.callClamped cage sys args c.argcages
      else doSyscall cage (.plain sys) args c.argcages
    return (s, ret)

def nsGetdentsHandler : Asking (State T × Int) :=
  fdRouteHandler .getdents s c

def nsReadHandler : Asking (State T × Int) :=
  fdRouteHandler .read s c

def nsWriteHandler : Asking (State T × Int) :=
  fdRouteHandler .write s c

def nsPreadHandler : Asking (State T × Int) :=
  fdRouteHandler .pread s c

def nsPwriteHandler : Asking (State T × Int) :=
  fdRouteHandler .pwrite s c

def nsPreadvHandler : Asking (State T × Int) :=
  fdRouteHandler .preadv s c

def nsReadvHandler : Asking (State T × Int) :=
  fdRouteHandler .readv s c

def nsWritevHandler : Asking (State T × Int) :=
  fdRouteHandler .writev s c

def nsPwritevHandler : Asking (State T × Int) :=
  fdRouteHandler .pwritev s c

def nsLseekHandler : Asking (State T × Int) :=
  fdRouteHandler .lseek s c

def nsFstatHandler : Asking (State T × Int) :=
  fdRouteHandler .fxstat s c

def nsFtruncateHandler : Asking (State T × Int) :=
  fdRouteHandler .ftruncate s c

def nsFchmodHandler : Asking (State T × Int) :=
  fdRouteHandler .fchmod s c

def nsFchdirHandler : Asking (State T × Int) :=
  fdRouteHandler .fchdir s c

def nsFsyncHandler : Asking (State T × Int) :=
  fdRouteHandler .fsync s c

def nsFdatasyncHandler : Asking (State T × Int) :=
  fdRouteHandler .fdatasync s c

def nsFstatfsHandler : Asking (State T × Int) :=
  fdRouteHandler .fstatfs s c

def nsSyncFileRangeHandler : Asking (State T × Int) :=
  fdRouteHandler .syncFileRange s c

def underEntry (ret : Int) (cloexec : Bool) (perfdinfo : Nat) : FDTableEntry :=
  ⟨0, (wordOf ret).toNat, cloexec, perfdinfo⟩

/-- A new descriptor gets a number, or is closed again and the call fails. -/
def installUnused (s : State T) (cage : Nat) (ret : Int) (perfdinfo : Nat) :
    Asking (State T × Int) :=
  match getUnusedVirtualFd s.fds cage (underEntry ret false perfdinfo) with
  | some (vfd, t) => return ({ s with fds := t }, asI32 vfd)
  | none => do
    let _ ← closeUnder cage (wordOf ret)
    return (s, -emfile)

def nsOpenHandler : Asking (State T × Int) := do
  let cage := c.argcages 0
  let clamp := s.matchesAt mem (c.argcages 1) (c.args 0) cage
  let ret ← doSyscall cage (s.routeIf cage .open clamp) c.args c.argcages
  if 0 ≤ ret then installUnused s cage ret (if clamp then 1 else 0) else return (s, ret)

def nsCloseHandler : Asking (State T × Int) :=
  let cage := c.argcages 0
  match translateVirtualFd s.fds cage (c.args 0).toNat with
  | none => return (s, -ebadf)
  | some entry => do
    let nr := s.routeIf cage .close (decide (entry.perfdinfo ≠ 0))
    let args := update c.args 0 (BitVec.ofNat 64 entry.underfd)
    let ret ← doSyscall cage nr args c.argcages
    if 0 ≤ ret then
      let fds := (closeVirtualfd s.fds cage (c.args 0).toNat).getD s.fds
      return ({ s with fds := fds }, ret)
    else return (s, ret)

def nsMmapHandler : Asking (State T × Int) :=
  let cage := c.argcages 0
  if c.args 3 &&& mapAnon ≠ 0 then do
    let ret ← doSyscall cage (.plain .mmap) c.args c.argcages
    return (s, ret)
  else
    match translateVirtualFd s.fds cage (c.args 4).toNat with
    | none => return (s, -ebadf)
    | some entry =>
      let args := update c.args 4 (BitVec.ofNat 64 entry.underfd)
      if entry.perfdinfo ≠ 0 then do
        let ret ← s.callClamped cage .mmap args c.argcages
        let s := if 0 ≤ ret then s.recordClampedMmap cage (wordOf ret).toNat (c.args 1).toNat else s
        return (s, ret)
      else do
        let ret ← doSyscall cage (.plain .mmap) args c.argcages
        return (s, ret)

def nsMunmapHandler : Asking (State T × Int) :=
  let cage := c.argcages 0
  let addr := (c.args 0).toNat
  let len := (c.args 1).toNat
  match s.getRoute cage .munmap with
  | some alt => do
    let ret ← doSyscall cage (.alt .munmap alt) c.args c.argcages
    return (if ret = 0 then s.removeClampedMmap cage addr len else s, ret)
  | none =>
    if s.isClampedMmap cage addr len then do
      let ret ← doClampSyscall cage .munmap c.args c.argcages
      return (if ret = 0 then s.removeClampedMmap cage addr len else s, ret)
    else do
      let ret ← doSyscall cage (.plain .munmap) c.args c.argcages
      return (s, ret)

/-- `ns_fcntl_handler`. A duplicate that gets no number is not closed. -/
def nsFcntlHandler : Asking (State T × Int) :=
  let cage := c.argcages 0
  match translateVirtualFd s.fds cage (c.args 0).toNat with
  | none => return (s, -ebadf)
  | some entry => do
    let nr := s.routeIf cage .fcntl (decide (entry.perfdinfo ≠ 0))
    let args := update c.args 0 (BitVec.ofNat 64 entry.underfd)
    let ret ← doSyscall cage nr args c.argcages
    if 0 ≤ ret ∧ (c.args 1 = fDupfd ∨ c.args 1 = fDupfdCloexec) then
      match getUnusedVirtualFdFromStartfd s.fds cage
        (underEntry ret (decide (c.args 1 = fDupfdCloexec)) entry.perfdinfo)
        (c.args 2).toNat with
      | some (vfd, t) => return ({ s with fds := t }, asI32 vfd)
      | none => return (s, -emfile)
    else return (s, ret)

/-- The directory descriptor of `fstatat` and `openat`: whether it is clamped,
    and the arguments with it translated, or an error. -/
def translateDirfd (s : State T) (cage : Nat) (path : Str) (args : Fin 6 → Word) :
    Except Int (Bool × (Fin 6 → Word)) :=
  if args 0 = atFdcwd ∨ path.isAbsolute then .ok (false, args)
  else
    match translateVirtualFd s.fds cage (args 0).toNat with
    | none => .error (-ebadf)
    | some entry =>
      if entry.perfdinfo ≠ 0 then .ok (true, args)
      else .ok (false, update args 0 (BitVec.ofNat 64 entry.underfd))

def fstatatClamps (s : State T) (mem : Memory) (c : Request) (path : Str) (dirfdClamped : Bool) :
    Bool :=
  if path.isEmpty then dirfdClamped
  else if path.isAbsolute then s.pathMatchesPrefix (normalizePath path)
  else if c.args 0 = atFdcwd then s.matchesAt mem (c.argcages 1) (c.args 1) (c.argcages 1)
  else dirfdClamped

def nsFstatatHandler : Asking (State T × Int) :=
  let cage := c.argcages 0
  let path := (readPathFromCage mem (c.args 1) (c.argcages 1)).getD []
  match translateDirfd s cage path c.args with
  | .error e => return (s, e)
  | .ok (dirfdClamped, args) => do
    let ret ←
      if fstatatClamps s mem c path dirfdClamped then
        s.callClamped cage .newfstatat args c.argcages
      else doSyscall cage (.plain .newfstatat) args c.argcages
    return (s, ret)

def openatClamps (s : State T) (mem : Memory) (c : Request) (path : Str) (dirfdClamped : Bool) :
    Bool :=
  let pathMatches :=
    !path.isEmpty && (path.isAbsolute || decide (c.args 0 = atFdcwd)) &&
      s.matchesAt mem (c.argcages 1) (c.args 1) (c.argcages 0)
  dirfdClamped || pathMatches

def nsOpenatHandler : Asking (State T × Int) :=
  let cage := c.argcages 0
  let path := (readPathFromCage mem (c.args 1) (c.argcages 1)).getD []
  match translateDirfd s cage path c.args with
  | .error e => return (s, e)
  | .ok (dirfdClamped, args) => do
    let clamp := openatClamps s mem c path dirfdClamped
    let ret ←
      if clamp then s.callClamped cage .openat args c.argcages
      else doSyscall cage (.plain .openat) args c.argcages
    if 0 ≤ ret then installUnused s cage ret (if clamp then 1 else 0) else return (s, ret)

/-- The duplicate of an underlying descriptor, on the side it is on. -/
def dupUnder (s : State T) (cage : Nat) (entry : FDTableEntry) : Asking Int :=
  let args := onlyArg (BitVec.ofNat 64 entry.underfd)
  if entry.perfdinfo ≠ 0 then s.callClamped cage .dup args fun _ => cage
  else doSyscall cage (.plain .dup) args fun _ => cage

def nsDupHandler : Asking (State T × Int) :=
  let cage := c.argcages 0
  match translateVirtualFd s.fds cage (c.args 0).toNat with
  | none => return (s, -ebadf)
  | some entry => do
    let ret ← dupUnder s cage entry
    if ret < 0 then return (s, ret) else installUnused s cage ret entry.perfdinfo

/-- The descriptor that is about to be replaced is closed and forgotten. -/
def closeTarget (s : State T) (cage : Nat) (newfd : Word) : Asking (State T) :=
  match translateVirtualFd s.fds cage newfd.toNat with
  | none => return s
  | some newEntry => do
    let _ ← closeUnder cage (BitVec.ofNat 64 newEntry.underfd)
    return { s with fds := (closeVirtualfd s.fds cage newfd.toNat).getD s.fds }

/-- A duplicate is installed at its number, or closed again. -/
def installAt (s : State T) (cage : Nat) (newfd : Word) (ret : Int) (cloexec : Bool)
    (perfdinfo : Nat) : Asking (State T × Int) :=
  match getSpecificVirtualFd s.fds cage newfd.toNat (underEntry ret cloexec perfdinfo) with
  | some t => return ({ s with fds := t }, asI32 newfd.toNat)
  | none => do
    let _ ← closeUnder cage (wordOf ret)
    return (s, -ebadf)

def nsDup2Handler : Asking (State T × Int) :=
  let cage := c.argcages 0
  match translateVirtualFd s.fds cage (c.args 0).toNat with
  | none => return (s, -ebadf)
  | some entry =>
    if c.args 0 = c.args 1 then return (s, asI32 (c.args 1).toNat)
    else do
      let s ← closeTarget s cage (c.args 1)
      let ret ← dupUnder s cage entry
      if ret < 0 then return (s, ret)
      else installAt s cage (c.args 1) ret false entry.perfdinfo

def markArgs (underfd : Word) : Fin 6 → Word :=
  fun i => if i = 0 then underfd else if i = 1 then fSetfd else if i = 2 then fdCloexec else 0

def nsDup3Handler : Asking (State T × Int) :=
  let cage := c.argcages 0
  match translateVirtualFd s.fds cage (c.args 0).toNat with
  | none => return (s, -ebadf)
  | some entry =>
    if c.args 0 = c.args 1 ∨ c.args 2 &&& ~~~oCloexec ≠ 0 then return (s, -einval)
    else do
      let cloexec := decide (c.args 2 &&& oCloexec ≠ 0)
      let s ← closeTarget s cage (c.args 1)
      let ret ← dupUnder s cage entry
      if ret < 0 then return (s, ret)
      else if cloexec then do
        let fcntlRet ← doSyscall cage (.plain .fcntl) (markArgs (wordOf ret)) fun _ => cage
        if fcntlRet < 0 then do
          let _ ← closeUnder cage (wordOf ret)
          return (s, fcntlRet)
        else installAt s cage (c.args 1) ret cloexec entry.perfdinfo
      else installAt s cage (c.args 1) ret cloexec entry.perfdinfo

/-- `ns_getcwd_handler`. The copy ends at the NUL or after 4096 bytes. -/
def nsGetcwdHandler : Asking (State T × Int) := do
  let cwd := s.getCageCwd (c.argcages 1)
  let ret ← request (.copyOut (c.argcages 0) (c.args 0) ((cwd.bytes ++ [0]).take maxPathLen))
  return (s, if copyDataBetweenCages (BitVec.ofInt 32 ret) then asI32 (c.argcages 0) else -efault)

/-- `get_ns_handler`, as far as it is asked. -/
def nsHandler : Option (Asking (State T × Int)) :=
  match c.sys with
  | .open => some (nsOpenHandler s mem c)
  | .openat => some (nsOpenatHandler s mem c)
  | .xstat => some (nsStatHandler s mem c)
  | .lstat => some (nsLstatHandler s mem c)
  | .getcwd => some (nsGetcwdHandler s c)
  | .access => some (nsAccessHandler s mem c)
  | .unlink => some (nsUnlinkHandler s mem c)
  | .link => some (nsLinkHandler s mem c)
  | .linkat => some (nsLinkatHandler s mem c)
  | .mkdir => some (nsMkdirHandler s mem c)
  | .rmdir => some (nsRmdirHandler s mem c)
  | .rename => some (nsRenameHandler s mem c)
  | .truncate => some (nsTruncateHandler s mem c)
  | .chmod => some (nsChmodHandler s mem c)
  | .chown => some (nsChownHandler s mem c)
  | .lchown => some (nsLchownHandler s mem c)
  | .chdir => some (nsChdirHandler s mem c)
  | .mknod => some (nsMknodHandler s mem c)
  | .symlink => some (nsSymlinkHandler s mem c)
  | .symlinkat => some (nsSymlinkatHandler s mem c)
  | .readlink => some (nsReadlinkHandler s mem c)
  | .unlinkat => some (nsUnlinkatHandler s mem c)
  | .readlinkat => some (nsReadlinkatHandler s mem c)
  | .statfs => some (nsStatfsHandler s mem c)
  | .getdents => some (nsGetdentsHandler s c)
  | .read => some (nsReadHandler s c)
  | .write => some (nsWriteHandler s c)
  | .close => some (nsCloseHandler s c)
  | .writev => some (nsWritevHandler s c)
  | .readv => some (nsReadvHandler s c)
  | .pread => some (nsPreadHandler s c)
  | .pwrite => some (nsPwriteHandler s c)
  | .preadv => some (nsPreadvHandler s c)
  | .pwritev => some (nsPwritevHandler s c)
  | .lseek => some (nsLseekHandler s c)
  | .fxstat => some (nsFstatHandler s c)
  | .newfstatat => some (nsFstatatHandler s mem c)
  | .statx => some (nsStatxHandler s mem c)
  | .faccessat => some (nsFaccessatHandler s mem c)
  | .fcntl => some (nsFcntlHandler s c)
  | .ftruncate => some (nsFtruncateHandler s c)
  | .fchmod => some (nsFchmodHandler s c)
  | .fchmodat => some (nsFchmodatHandler s mem c)
  | .fchownat => some (nsFchownatHandler s mem c)
  | .fchdir => some (nsFchdirHandler s c)
  | .utimensat => some (nsUtimensatHandler s mem c)
  | .fsync => some (nsFsyncHandler s c)
  | .fdatasync => some (nsFdatasyncHandler s c)
  | .fstatfs => some (nsFstatfsHandler s c)
  | .syncFileRange => some (nsSyncFileRangeHandler s c)
  | .mmap => some (nsMmapHandler s c)
  | .munmap => some (nsMunmapHandler s c)
  | .dup => some (nsDupHandler s c)
  | .dup2 => some (nsDup2Handler s c)
  | .dup3 => some (nsDup3Handler s c)
  | .clone | .exec | .exitGroup | .registerHandler | .other _ => none

end LindGrates.FsClamp
