import LindGrates.Core.Chroot.State
import LindGrates.Core.Copy

/-!
# Handlers of the Chroot Grate

A handler reads its path arguments out of the cage's memory, rewrites them, and
forwards the call; when the answer comes back it brings its tables up to date.
Other calls may be served in between, so a handler is given in two halves.

## Main definitions

* `handle`: The part before the forwarded call.
* `After`: What is still to be done then.
* `finish`: The second half, on whatever the tables are by then.
-/

namespace LindGrates.Chroot

/-- A pointer argument, with the bytes that a copy from it gives, if the copy
    succeeds. -/
structure CagePtr where
  addr : Nat
  cage : Nat
  mem : Option (List UInt8)
  deriving DecidableEq

/-- A pointer to a socket address, with as many bytes as the length argument says
    and whether a copy of them succeeds. -/
structure CageAddr where
  addr : Nat
  bytes : List UInt8
  readable : Bool
  deriving DecidableEq

/-- A buffer of a cage, and whether a copy into it succeeds. -/
structure CageBuf where
  size : Word
  writable : Bool
  deriving DecidableEq

/-- The size of a buffer as the grate reads it, `as usize`. -/
def CageBuf.usize (buf : CageBuf) : Nat :=
  (buf.size.setWidth 32).toNat

/-- Whether a copy into the buffer is reported to have succeeded. -/
def CageBuf.accepts (buf : CageBuf) : Bool :=
  copyDataBetweenCages (copyAnswer buf.writable)

/-- What a copy puts into the buffer. -/
def CageBuf.written (buf : CageBuf) (bytes : List UInt8) : List UInt8 :=
  if buf.writable then bytes else []

/-- `read_path_from_cage`: at most 4096 bytes, up to the first NUL. The buffer
    is full of zeros before the copy, which is the empty path. -/
def CagePtr.readPath (ptr : CagePtr) : Option Str :=
  (copyInto ptr.mem []).map fun bytes => untilNul (bytes.take 4096)

inductive Sys
  | xstat | access | statfs | mkdir | rmdir | unlink | chmod | chown | lchown | truncate
  | setxattr | listxattr | rename | link | openPath | openat | close | dup | dup2 | dup3
  | fcntl | readlink | readlinkat | unlinkat | symlink | symlinkat | faccessat | fchmodat
  | fchownat | newfstatat | statx | utimensat | renameat | renameat2 | clone | execve
  | bind | connect | sendto
  deriving DecidableEq

structure PathArg where
  dirfd : Option Word
  path : Str
  deriving DecidableEq

/-- A forwarded call: the cage it is made for, its paths, the text a symbolic
    link is to hold, and the other arguments that matter. -/
structure Request where
  sys : Sys
  cage : Nat
  paths : List PathArg
  target : Option Str
  words : List Word
  deriving DecidableEq

/-- What a handler does with the answer to the call it forwarded. -/
inductive After
  | reply
  | register (cage : Nat) (virtualPath : Option Str)
  | copyToResult (cage : Nat) (oldfd : Word)
  | copyTo (cage : Nat) (oldfd newfd : Word)
  | clear (cage : Nat) (fd : Word)
  | readBack (buf : CageBuf)
  | child (parent : Nat)
  | notDirectory
  deriving DecidableEq

inductive Reply
  | done (ret : Int) (out : List UInt8)
  | forward (req : Request) (after : After)
  deriving DecidableEq

structure Answer where
  ret : Int
  text : List UInt8
  deriving DecidableEq

def atFdcwd : Word :=
  BitVec.ofInt 64 (-100)

def isAtFdcwd (dirfd : Word) : Bool :=
  dirfd.toInt = -100

inductive Call
  | stat (path : CagePtr)
  | access (path : CagePtr)
  | statfs (path : CagePtr)
  | mkdir (path : CagePtr)
  | rmdir (path : CagePtr)
  | unlink (path : CagePtr)
  | chmod (path : CagePtr)
  | chown (path : CagePtr)
  | lchown (path : CagePtr)
  | truncate (path : CagePtr)
  | setxattr (path : CagePtr)
  | listxattr (path : CagePtr)
  | rename (oldpath newpath : CagePtr)
  | link (oldpath newpath : CagePtr)
  | openPath (path : CagePtr) (flags : Word)
  | openat (dirfd : Word) (path : CagePtr) (flags : Word)
  | close (cage : Nat) (fd : Word)
  | dup (cage : Nat) (oldfd : Word)
  | dup2 (cage : Nat) (oldfd newfd : Word)
  | dup3 (cage : Nat) (oldfd newfd flags : Word)
  | fcntl (cage : Nat) (fd cmd arg : Word)
  | readlink (path : CagePtr) (buf : CageBuf)
  | readlinkat (dirfd : Word) (path : CagePtr) (buf : CageBuf)
  | unlinkat (dirfd : Word) (path : CagePtr) (flags : Word)
  | symlink (target linkpath : CagePtr)
  | symlinkat (target : CagePtr) (dirfd : Word) (linkpath : CagePtr)
  | faccessat (dirfd : Word) (path : CagePtr)
  | fchmodat (dirfd : Word) (path : CagePtr)
  | fchownat (dirfd : Word) (path : CagePtr)
  | fstatat (dirfd : Word) (path : CagePtr)
  | statx (dirfd : Word) (path : CagePtr)
  | utimensat (dirfd : Word) (path : CagePtr)
  | renameat (olddirfd : Word) (oldpath : CagePtr) (newdirfd : Word) (newpath : CagePtr)
  | renameat2 (olddirfd : Word) (oldpath : CagePtr) (newdirfd : Word) (newpath : CagePtr)
  | fork (cage : Nat) (isThread : Bool)
  | execve (path : CagePtr)
  | chdir (path : CagePtr)
  | fchdir (cage : Nat) (fd : Word)
  | getcwd (cage : Nat) (buf : CageBuf)
  | chroot
  | bind (cage : Nat) (sockaddr : CageAddr)
  | connect (cage : Nat) (sockaddr : CageAddr)
  | sendto (cage : Nat) (sockaddr : CageAddr)
  deriving DecidableEq

namespace State

/-! ## Path input -/

def rewritePaths (s : State) : List CagePtr → State × Except Int (List Str)
  | [] => (s, .ok [])
  | ptr :: ptrs =>
    match ptr.readPath with
    | none => (s, .error (-14))
    | some path =>
      if path = [] then (s, .error (-2))
      else
        match cString (s.chrootPath path ptr.cage) with
        | none => (s.touch path ptr.cage, .error (-1))
        | some transformed =>
          let rest := rewritePaths (s.touch path ptr.cage) ptrs
          (rest.1, rest.2.map (transformed :: ·))

variable (s : State)

/-- `input_path_handler!`. The call is made for the cage of the first
    argument. -/
def inputPathHandler (sys : Sys) (first : CagePtr) (others : List CagePtr) :
    State × Reply :=
  let rewritten := s.rewritePaths (first :: others)
  (rewritten.1,
    match rewritten.2 with
    | .error code => .done code []
    | .ok paths => .forward ⟨sys, first.cage, paths.map fun path => ⟨none, path⟩, none, []⟩ .reply)

def statHandler (path : CagePtr) : State × Reply :=
  s.inputPathHandler .xstat path []

def accessHandler (path : CagePtr) : State × Reply :=
  s.inputPathHandler .access path []

def statfsHandler (path : CagePtr) : State × Reply :=
  s.inputPathHandler .statfs path []

def mkdirHandler (path : CagePtr) : State × Reply :=
  s.inputPathHandler .mkdir path []

def rmdirHandler (path : CagePtr) : State × Reply :=
  s.inputPathHandler .rmdir path []

def unlinkHandler (path : CagePtr) : State × Reply :=
  s.inputPathHandler .unlink path []

def chmodHandler (path : CagePtr) : State × Reply :=
  s.inputPathHandler .chmod path []

def chownHandler (path : CagePtr) : State × Reply :=
  s.inputPathHandler .chown path []

def lchownHandler (path : CagePtr) : State × Reply :=
  s.inputPathHandler .lchown path []

def truncateHandler (path : CagePtr) : State × Reply :=
  s.inputPathHandler .truncate path []

def setxattrHandler (path : CagePtr) : State × Reply :=
  s.inputPathHandler .setxattr path []

def listxattrHandler (path : CagePtr) : State × Reply :=
  s.inputPathHandler .listxattr path []

def renameHandler (oldpath newpath : CagePtr) : State × Reply :=
  s.inputPathHandler .rename oldpath [newpath]

def linkHandler (oldpath newpath : CagePtr) : State × Reply :=
  s.inputPathHandler .link oldpath [newpath]

/-! ## Paths relative to a descriptor -/

/-- The choice `rewrite_at_path` makes for a path it has read. A relative path
    is only rewritten when the grate knows the directory. -/
def placeAtPath (cage : Nat) (dirfd : Word) (path : Str) : Word × Str :=
  if path.isAbsolute ∨ isAtFdcwd dirfd then (atFdcwd, s.chrootPath path cage)
  else if path ≠ [] then
    match s.fdDirPath cage dirfd with
    | some dir => (atFdcwd, s.chrootPath (normalizePath path dir) cage)
    | none => (dirfd, path)
  else (dirfd, path)

def rewriteAtPath (cage : Nat) (dirfd : Word) (ptr : CagePtr) :
    State × Except Int PathArg :=
  match ptr.readPath with
  | none => (s, .error (-14))
  | some path =>
    (s.touch path cage,
      match cString (s.placeAtPath cage dirfd path).2 with
      | none => .error (-22)
      | some text => .ok ⟨some (s.placeAtPath cage dirfd path).1, text⟩)

def callWithAtPath (sys : Sys) (dirfd : Word) (ptr : CagePtr) : State × Reply :=
  let rewritten := s.rewriteAtPath ptr.cage dirfd ptr
  (rewritten.1,
    match rewritten.2 with
    | .error code => .done code []
    | .ok arg => .forward ⟨sys, ptr.cage, [arg], none, []⟩ .reply)

def faccessatHandler (dirfd : Word) (path : CagePtr) : State × Reply :=
  s.callWithAtPath .faccessat dirfd path

def fchmodatHandler (dirfd : Word) (path : CagePtr) : State × Reply :=
  s.callWithAtPath .fchmodat dirfd path

def fchownatHandler (dirfd : Word) (path : CagePtr) : State × Reply :=
  s.callWithAtPath .fchownat dirfd path

def fstatatHandler (dirfd : Word) (path : CagePtr) : State × Reply :=
  s.callWithAtPath .newfstatat dirfd path

def statxHandler (dirfd : Word) (path : CagePtr) : State × Reply :=
  s.callWithAtPath .statx dirfd path

/-- `utimensat_handler`. Without a path the times of the descriptor itself are
    set, and nothing is rewritten. -/
def utimensatHandler (dirfd : Word) (path : CagePtr) : State × Reply :=
  if path.addr = 0 then (s, .forward ⟨.utimensat, path.cage, [], none, [dirfd]⟩ .reply)
  else s.callWithAtPath .utimensat dirfd path

/-- `renameat_common`. Both paths are looked up for the cage of the first. -/
def renameatCommon (sys : Sys) (olddirfd : Word) (oldpath : CagePtr)
    (newdirfd : Word) (newpath : CagePtr) : State × Reply :=
  let old := s.rewriteAtPath oldpath.cage olddirfd oldpath
  match old.2 with
  | .error code => (old.1, .done code [])
  | .ok oldArg =>
    let new := old.1.rewriteAtPath oldpath.cage newdirfd newpath
    (new.1,
      match new.2 with
      | .error code => .done code []
      | .ok newArg => .forward ⟨sys, oldpath.cage, [oldArg, newArg], none, []⟩ .reply)

def renameatHandler (olddirfd : Word) (oldpath : CagePtr) (newdirfd : Word)
    (newpath : CagePtr) : State × Reply :=
  s.renameatCommon .renameat olddirfd oldpath newdirfd newpath

def renameat2Handler (olddirfd : Word) (oldpath : CagePtr) (newdirfd : Word)
    (newpath : CagePtr) : State × Reply :=
  s.renameatCommon .renameat2 olddirfd oldpath newdirfd newpath

/-! ## Opening and descriptors -/

/-- The branch of the opening handlers for a path under `/dev/fd`. -/
def dupFdTarget (cage : Nat) (fd : Word) : State × Reply :=
  (s, .forward ⟨.dup, cage, [], none, [fd]⟩ (.copyToResult cage fd))

def openHandler (ptr : CagePtr) (flags : Word) : State × Reply :=
  match ptr.readPath with
  | none => (s, .done (-14) [])
  | some path =>
    if path = [] then (s, .done (-2) [])
    else
      match devFdTarget path with
      | some fd => s.dupFdTarget ptr.cage fd
      | none =>
        (s.ensureCageCwd ptr.cage,
          match cString (s.chrootPath path ptr.cage) with
          | none => .done (-22) []
          | some text =>
            .forward ⟨.openPath, ptr.cage, [⟨none, text⟩], none, [flags]⟩
              (.register ptr.cage (some (normalizePath path (s.getCageCwd ptr.cage)))))

def resolveVirtualAtPath (cage : Nat) (dirfd : Word) (path : Str) : Option Str :=
  if path.isAbsolute ∨ isAtFdcwd dirfd then some (normalizePath path (s.getCageCwd cage))
  else (s.fdDirPath cage dirfd).map (normalizePath path)

def openatHandler (dirfd : Word) (ptr : CagePtr) (flags : Word) : State × Reply :=
  match ptr.readPath with
  | none => (s, .done (-14) [])
  | some path =>
    if path = [] then (s, .done (-2) [])
    else
      match (if path.isAbsolute then devFdTarget path else none) with
      | some fd => s.dupFdTarget ptr.cage fd
      | none =>
        let rewritten := (s.ensureCageCwd ptr.cage).rewriteAtPath ptr.cage dirfd ptr
        (rewritten.1,
          match rewritten.2 with
          | .error code => .done code []
          | .ok arg =>
            .forward ⟨.openat, ptr.cage, [arg], none, [flags]⟩
              (.register ptr.cage (s.resolveVirtualAtPath ptr.cage dirfd path)))

def closeHandler (cage : Nat) (fd : Word) : State × Reply :=
  (s, .forward ⟨.close, cage, [], none, [fd]⟩ (.clear cage fd))

def dupHandler (cage : Nat) (oldfd : Word) : State × Reply :=
  (s, .forward ⟨.dup, cage, [], none, [oldfd]⟩ (.copyToResult cage oldfd))

def dup2Handler (cage : Nat) (oldfd newfd : Word) : State × Reply :=
  (s, .forward ⟨.dup2, cage, [], none, [oldfd, newfd]⟩ (.copyTo cage oldfd newfd))

def dup3Handler (cage : Nat) (oldfd newfd flags : Word) : State × Reply :=
  (s, .forward ⟨.dup3, cage, [], none, [oldfd, newfd, flags]⟩ (.copyTo cage oldfd newfd))

/-- Whether a command of `fcntl`, which is read as an `i32`, duplicates. -/
def duplicates (cmd : Word) : Bool :=
  (cmd.setWidth 32).toInt = 0 ∨ (cmd.setWidth 32).toInt = 1030

def fcntlHandler (cage : Nat) (fd cmd arg : Word) : State × Reply :=
  (s, .forward ⟨.fcntl, cage, [], none, [fd, cmd, arg]⟩
    (if duplicates cmd then .copyToResult cage fd else .reply))

/-! ## Symbolic links -/

def readlinkHandler (ptr : CagePtr) (buf : CageBuf) : State × Reply :=
  match ptr.readPath with
  | none => (s, .done (-14) [])
  | some path =>
    (s.touch path ptr.cage,
      match cString (s.chrootPath path ptr.cage) with
      | none => .done (-1) []
      | some text =>
        .forward ⟨.readlink, ptr.cage, [⟨none, text⟩], none, [buf.size]⟩ (.readBack buf))

/-- The choice `readlinkat_handler` and `unlinkat_handler` make for a path:
    a relative one is passed on whether the grate knows the directory or not. -/
def placeBesideDirfd (cage : Nat) (dirfd : Word) (path : Str) : Word × Str :=
  if path.isAbsolute ∨ isAtFdcwd dirfd then (atFdcwd, s.chrootPath path cage)
  else (dirfd, path)

/-- The tables that choice leaves behind. -/
def touchBesideDirfd (cage : Nat) (dirfd : Word) (path : Str) : State :=
  if path.isAbsolute ∨ isAtFdcwd dirfd then s.touch path cage else s

def readlinkatHandler (dirfd : Word) (ptr : CagePtr) (buf : CageBuf) :
    State × Reply :=
  match ptr.readPath with
  | none => (s, .done (-14) [])
  | some path =>
    (s.touchBesideDirfd ptr.cage dirfd path,
      match cString (s.placeBesideDirfd ptr.cage dirfd path).2 with
      | none => .done (-1) []
      | some text =>
        .forward
          ⟨.readlinkat, ptr.cage, [⟨some (s.placeBesideDirfd ptr.cage dirfd path).1, text⟩],
            none, [buf.size]⟩
          (.readBack buf))

def unlinkatHandler (dirfd : Word) (ptr : CagePtr) (flags : Word) : State × Reply :=
  match ptr.readPath with
  | none => (s, .done (-14) [])
  | some path =>
    if path = [] then (s, .done (-2) [])
    else
      (s.touchBesideDirfd ptr.cage dirfd path,
        match cString (s.placeBesideDirfd ptr.cage dirfd path).2 with
        | none => .done (-1) []
        | some text =>
          .forward
            ⟨.unlinkat, ptr.cage, [⟨some (s.placeBesideDirfd ptr.cage dirfd path).1, text⟩],
              none, [flags]⟩
            .reply)

/-- The text `rewrite_symlink_target` chooses for a target it has read. -/
def symlinkText (cage : Nat) (target : Str) : Str :=
  if target.isAbsolute then s.chrootPath target cage else target

def rewriteSymlinkTarget (cage : Nat) (ptr : CagePtr) : State × Except Int Str :=
  match ptr.readPath with
  | none => (s, .error (-14))
  | some target =>
    (if target.isAbsolute then s.touch target cage else s,
      match cString (s.symlinkText cage target) with
      | none => .error (-22)
      | some text => .ok text)

def symlinkHandler (target linkpath : CagePtr) : State × Reply :=
  let rewritten := s.rewriteSymlinkTarget linkpath.cage target
  match rewritten.2 with
  | .error code => (rewritten.1, .done code [])
  | .ok text =>
    match linkpath.readPath with
    | none => (rewritten.1, .done (-14) [])
    | some link =>
      (rewritten.1.touch link linkpath.cage,
        match cString (rewritten.1.chrootPath link linkpath.cage) with
        | none => .done (-22) []
        | some path => .forward ⟨.symlink, target.cage, [⟨none, path⟩], some text, []⟩ .reply)

def symlinkatHandler (target : CagePtr) (dirfd : Word) (linkpath : CagePtr) :
    State × Reply :=
  let rewritten := s.rewriteSymlinkTarget linkpath.cage target
  match rewritten.2 with
  | .error code => (rewritten.1, .done code [])
  | .ok text =>
    let link := rewritten.1.rewriteAtPath linkpath.cage dirfd linkpath
    (link.1,
      match link.2 with
      | .error code => .done code []
      | .ok arg => .forward ⟨.symlinkat, linkpath.cage, [arg], some text, []⟩ .reply)

/-! ## Processes and working directories -/

/-- `fork_handler`, before the call. The arguments say whether a thread is
    made. -/
def forkHandler (cage : Nat) (isThread : Bool) : State × Reply :=
  (s, .forward ⟨.clone, cage, [], none, [if isThread then 1 else 0]⟩
    (if isThread then .reply else .child cage))

def execveHandler (ptr : CagePtr) : State × Reply :=
  match ptr.readPath with
  | none => (s, .done (-14) [])
  | some path =>
    (s.touch path ptr.cage,
      match cString (s.chrootPath path ptr.cage) with
      | none => .done (-1) []
      | some text => .forward ⟨.execve, ptr.cage, [⟨none, text⟩], none, []⟩ .reply)

def chdirHandler (host : Host) (ptr : CagePtr) : State × Reply :=
  match ptr.readPath with
  | none => (s, .done (-14) [])
  | some path =>
    let newCwd := normalizePath path (s.getCageCwd ptr.cage)
    if host.checkDir (s.chrootPath newCwd ptr.cage) then
      ((s.ensureCageCwd ptr.cage).setCageCwd ptr.cage newCwd, .done 0 [])
    else (s.ensureCageCwd ptr.cage, .done (-20) [])

/-- `fchdir_handler`, before the call it makes for a descriptor that is no
    directory: 3 is `F_GETFL`. -/
def fchdirHandler (cage : Nat) (fd : Word) : State × Reply :=
  match s.fdDirPath cage fd with
  | some path => ((s.ensureCageCwd cage).setCageCwd cage path, .done 0 [])
  | none => (s.ensureCageCwd cage, .forward ⟨.fcntl, cage, [], none, [fd, 3]⟩ .notDirectory)

def getcwdHandler (cage : Nat) (buf : CageBuf) : State × Reply :=
  let cwd := s.getCageCwd cage
  (s.ensureCageCwd cage,
    if buf.usize < cwd.len + 1 then .done (-34) []
    else if buf.accepts then .done (cwd.len + 1) (buf.written (cwd.bytes ++ [0]))
    else .done (-14) [])

/-! ## Socket addresses -/

/-- `socket_translate_handler!`. Of the forwarded address the path is kept. -/
def socketTranslateHandler (sys : Sys) (cage : Nat) (sockaddr : CageAddr) : State × Reply :=
  if sockaddr.addr = 0 then (s, .forward ⟨sys, cage, [], none, []⟩ .reply)
  else
    let data := if sockaddr.readable then some sockaddr.bytes else none
    match copyInto data (sockaddr.bytes.map fun _ => 0) with
    | none => (s, .done (-14) [])
    | some buf =>
      match translateSockaddr s.chrootDir (s.getCageCwd cage) buf with
      | none => (s, .done (-14) [])
      | some new =>
        (s.touch (unixPath buf) cage,
          .forward ⟨sys, cage, [⟨none, unixPath new⟩], none, []⟩ .reply)

def bindHandler (cage : Nat) (sockaddr : CageAddr) : State × Reply :=
  s.socketTranslateHandler .bind cage sockaddr

def connectHandler (cage : Nat) (sockaddr : CageAddr) : State × Reply :=
  s.socketTranslateHandler .connect cage sockaddr

def sendtoHandler (cage : Nat) (sockaddr : CageAddr) : State × Reply :=
  s.socketTranslateHandler .sendto cage sockaddr

end State

def handle (host : Host) (s : State) : Call → State × Reply
  | .stat path => s.statHandler path
  | .access path => s.accessHandler path
  | .statfs path => s.statfsHandler path
  | .mkdir path => s.mkdirHandler path
  | .rmdir path => s.rmdirHandler path
  | .unlink path => s.unlinkHandler path
  | .chmod path => s.chmodHandler path
  | .chown path => s.chownHandler path
  | .lchown path => s.lchownHandler path
  | .truncate path => s.truncateHandler path
  | .setxattr path => s.setxattrHandler path
  | .listxattr path => s.listxattrHandler path
  | .rename oldpath newpath => s.renameHandler oldpath newpath
  | .link oldpath newpath => s.linkHandler oldpath newpath
  | .openPath path flags => s.openHandler path flags
  | .openat dirfd path flags => s.openatHandler dirfd path flags
  | .close cage fd => s.closeHandler cage fd
  | .dup cage oldfd => s.dupHandler cage oldfd
  | .dup2 cage oldfd newfd => s.dup2Handler cage oldfd newfd
  | .dup3 cage oldfd newfd flags => s.dup3Handler cage oldfd newfd flags
  | .fcntl cage fd cmd arg => s.fcntlHandler cage fd cmd arg
  | .readlink path buf => s.readlinkHandler path buf
  | .readlinkat dirfd path buf => s.readlinkatHandler dirfd path buf
  | .unlinkat dirfd path flags => s.unlinkatHandler dirfd path flags
  | .symlink target linkpath => s.symlinkHandler target linkpath
  | .symlinkat target dirfd linkpath => s.symlinkatHandler target dirfd linkpath
  | .faccessat dirfd path => s.faccessatHandler dirfd path
  | .fchmodat dirfd path => s.fchmodatHandler dirfd path
  | .fchownat dirfd path => s.fchownatHandler dirfd path
  | .fstatat dirfd path => s.fstatatHandler dirfd path
  | .statx dirfd path => s.statxHandler dirfd path
  | .utimensat dirfd path => s.utimensatHandler dirfd path
  | .renameat olddirfd oldpath newdirfd newpath =>
    s.renameatHandler olddirfd oldpath newdirfd newpath
  | .renameat2 olddirfd oldpath newdirfd newpath =>
    s.renameat2Handler olddirfd oldpath newdirfd newpath
  | .fork cage isThread => s.forkHandler cage isThread
  | .execve path => s.execveHandler path
  | .chdir path => s.chdirHandler host path
  | .fchdir cage fd => s.fchdirHandler cage fd
  | .getcwd cage buf => s.getcwdHandler cage buf
  | .chroot => (s, .done (-1) [])
  | .bind cage sockaddr => s.bindHandler cage sockaddr
  | .connect cage sockaddr => s.connectHandler cage sockaddr
  | .sendto cage sockaddr => s.sendtoHandler cage sockaddr

def readBackBytes (chrootDir : Str) (buf : CageBuf) (answer : Answer) : List UInt8 :=
  (stripChrootPrefix chrootDir (fromUtf8Lossy (answer.text.take answer.ret.toNat))).bytes.take
    buf.usize

def finish (host : Host) (answer : Answer) (s : State) : After → State × Int × List UInt8
  | .reply => (s, answer.ret, [])
  | .register cage virtualPath =>
    match virtualPath with
    | none => (s, answer.ret, [])
    | some path =>
      (if answer.ret < 0 then s
        else s.registerDirFdIfDirectory host cage (BitVec.ofInt 64 answer.ret) path,
        answer.ret, [])
  | .copyToResult cage oldfd =>
    (if answer.ret < 0 then s else s.copyFdDirPath cage oldfd (BitVec.ofInt 64 answer.ret),
      answer.ret, [])
  | .copyTo cage oldfd newfd =>
    (if answer.ret < 0 then s else s.copyFdDirPath cage oldfd newfd, answer.ret, [])
  | .clear cage fd => (if answer.ret < 0 then s else s.clearFdDirPath cage fd, answer.ret, [])
  | .readBack buf =>
    if answer.ret < 0 then (s, answer.ret, [])
    else if buf.accepts then
      (s, (readBackBytes s.chrootDir buf answer).length,
        buf.written (readBackBytes s.chrootDir buf answer))
    else (s, -14, [])
  | .child parent =>
    (if answer.ret ≤ 0 then s
      else (s.registerCage parent answer.ret.toNat).registerChildFdPaths parent answer.ret.toNat,
      answer.ret, [])
  | .notDirectory => (s, if answer.ret < 0 then answer.ret else -20, [])

end LindGrates.Chroot
