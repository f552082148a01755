import LindGrates.Core.Chroot.Handlers

/-!
# The Chroot Grate and the Kernel

The chroot grate together with the descriptors the kernel keeps for the cages. A new
descriptor gets any number that is closed.

A call is taken from beginning to end before the next. What the kernel decides
(the result, and whether the opened file is a directory) and what the file
system looks like are part of the event, and an event the kernel would not
produce is no step.

## Main definitions

* `Desc`: What a descriptor was opened as, and whether executing a program closes it.
  The first is the virtual path the cage asked for, if that is a directory; it is not
  something the kernel would record.
* `Kernel.serve`: What the kernel does with a forwarded call.
* `World.step`: One event.
-/

namespace LindGrates.Chroot

open Function

/-- What a descriptor is open on: the directory at a virtual path, or something
    else. -/
inductive Origin
  | directory (path : Str)
  | other
  deriving DecidableEq

structure Desc where
  origin : Origin
  cloexec : Bool
  deriving DecidableEq

structure Kernel where
  live : Nat → Bool
  fds : Nat → Nat → Option Desc

def kernelFd (fd : Word) : Nat :=
  (fd.setWidth 32).toNat

/-- Whether a flag is set in the 32 bits the kernel reads. -/
def hasFlag (flags : Word) (flag : Nat) : Bool :=
  (flags.setWidth 32).toNat &&& flag ≠ 0

def oCloexec : Nat :=
  0o2000000

def oNofollow : Nat :=
  0o400000

def oPath : Nat :=
  0o10000000

/-- The bit of `O_TMPFILE` that no other flag has. -/
def oTmpfile : Nat :=
  0o20000000

def isDirectory (mode : Nat) : Bool :=
  mode &&& 0o170000 = sIfdir

namespace Kernel

def set (k : Kernel) (cage fd : Nat) (desc : Option Desc) : Kernel :=
  { k with fds := update k.fds cage (update (k.fds cage) fd desc) }

/-- A number that a new descriptor of a cage can get. -/
def isFree (k : Kernel) (cage fd : Nat) : Bool :=
  fd < 2 ^ 31 ∧ k.fds cage fd = none

def duplicate (k : Kernel) (cage : Nat) (oldfd : Word) (newfd : Nat) (cloexec : Bool) :
    Option Kernel :=
  (k.fds cage (kernelFd oldfd)).bind fun desc =>
    if k.isFree cage newfd then some (k.set cage newfd (some { desc with cloexec := cloexec }))
    else none

def replace (k : Kernel) (cage : Nat) (oldfd newfd : Word) (cloexec : Bool) : Option Kernel :=
  (k.fds cage (kernelFd oldfd)).bind fun desc =>
    if kernelFd oldfd = kernelFd newfd then some k
    else if kernelFd newfd < 2 ^ 31 then
      some (k.set cage (kernelFd newfd) (some { desc with cloexec := cloexec }))
    else none

/-- The descriptors left when a cage executes a new program. -/
def exec (k : Kernel) (cage : Nat) : Kernel :=
  { k with
    fds := update k.fds cage fun fd =>
      (k.fds cage fd).filter fun desc => desc.cloexec = false }

def fork (k : Kernel) (parent child : Nat) : Option Kernel :=
  if k.live child then none
  else
    some
      { live := update k.live child true
        fds := update k.fds child (k.fds parent) }

end Kernel

/-- The virtual path that a call opens. Relative to a descriptor it is the path
    of the directory the descriptor is open on. -/
def Call.opens (k : Kernel) (s : State) : Call → Option Str
  | .openPath ptr _ => ptr.readPath.map fun path => normalizePath path (s.getCageCwd ptr.cage)
  | .openat dirfd ptr _ =>
    ptr.readPath.bind fun path =>
      if path.isAbsolute ∨ isAtFdcwd dirfd then
        some (normalizePath path (s.getCageCwd ptr.cage))
      else
        match (k.fds ptr.cage (kernelFd dirfd)).map Desc.origin with
        | some (.directory dir) => some (normalizePath path dir)
        | _ => none
  | _ => none

/-- A call, with what the kernel decides: its answer, whether an opened file is
    a directory, and the file system the call leaves behind. -/
structure Event where
  call : Call
  host : Host
  answer : Answer
  opensDir : Bool

/-- What an opened descriptor is open on. -/
def Event.origin (e : Event) (k : Kernel) (s : State) : Origin :=
  match e.call.opens k s with
  | some path => if e.opensDir then .directory path else .other
  | none => .other

/-- `O_TMPFILE` gives an unnamed file in the directory at the path; the kernel
    does not look at the flag next to `O_PATH`. -/
def opensTmpfile (flags : Word) : Bool :=
  hasFlag flags oTmpfile && !hasFlag flags oPath

/-- An opened file is a directory exactly when there is one at the path, unless
    a link is opened itself or an unnamed file is made. Nothing is said about
    paths next to a descriptor. -/
def Event.opensAsFound (e : Event) (arg : PathArg) (flags : Word) : Bool :=
  if hasFlag flags oPath ∧ hasFlag flags oNofollow then true
  else if opensTmpfile flags then !e.opensDir
  else if arg.dirfd = none ∨ arg.dirfd = some atFdcwd then
    e.opensDir = (e.host.stat arg.path).any isDirectory
  else true

def Kernel.perform (k : Kernel) (s : State) (e : Event) (req : Request) : Option Kernel :=
  match req.sys, req.paths, req.words with
  | .openPath, [arg], [flags] | .openat, [arg], [flags] =>
    if k.isFree req.cage e.answer.ret.toNat ∧ e.opensAsFound arg flags then
      some (k.set req.cage e.answer.ret.toNat (some ⟨e.origin k s, hasFlag flags oCloexec⟩))
    else none
  | .close, _, [fd] =>
    if (k.fds req.cage (kernelFd fd)).isSome then some (k.set req.cage (kernelFd fd) none)
    else none
  | .dup, _, [oldfd] => k.duplicate req.cage oldfd e.answer.ret.toNat false
  | .dup2, _, [oldfd, newfd] => k.replace req.cage oldfd newfd false
  | .dup3, _, [oldfd, newfd, flags] => k.replace req.cage oldfd newfd (hasFlag flags oCloexec)
  | .fcntl, _, [fd, cmd, arg] =>
    if State.duplicates cmd then
      k.duplicate req.cage fd e.answer.ret.toNat (kernelFd cmd = 1030)
    else if kernelFd cmd = 2 then
      (k.fds req.cage (kernelFd fd)).map fun desc =>
        k.set req.cage (kernelFd fd) (some { desc with cloexec := hasFlag arg 1 })
    else some k
  | .clone, _, [thread] =>
    if thread = 0 ∧ 0 < e.answer.ret then k.fork req.cage e.answer.ret.toNat else some k
  | .execve, _, _ => some (k.exec req.cage)
  | _, _, _ => some k

/-- What the kernel does with a forwarded call: nothing if it fails. -/
def Kernel.serve (k : Kernel) (s : State) (e : Event) (req : Request) : Option Kernel :=
  if k.live req.cage = false then none
  else if e.answer.ret < 0 then some k
  else k.perform s e req

structure World where
  grate : State
  kernel : Kernel

/-- A call that the grate handles, or a descriptor that a cage gets by a call
    the grate does not see. -/
inductive Action
  | call (e : Event)
  | create (cage fd : Nat) (cloexec : Bool)

def World.step (w : World) : Action → Option World
  | .call e =>
    match (handle e.host w.grate e.call).2 with
    | .done _ _ => some { w with grate := (handle e.host w.grate e.call).1 }
    | .forward req after =>
      (w.kernel.serve w.grate e req).map fun k =>
        { grate := (finish e.host e.answer (handle e.host w.grate e.call).1 after).1
          kernel := k }
  | .create cage fd cloexec =>
    if w.kernel.live cage ∧ w.kernel.isFree cage fd then
      some { w with kernel := w.kernel.set cage fd (some ⟨.other, cloexec⟩) }
    else none

/-- The beginning: the grate has just started, and no cage that is not there
    has a descriptor. -/
structure World.Start (w : World) : Prop where
  grate : ∃ host chrootDir hostCwd grate cage, '\x00' ∉ hostCwd ∧
    State.initState host chrootDir hostCwd grate cage = some w.grate
  dead : ∀ cage, w.kernel.live cage = false → ∀ fd, w.kernel.fds cage fd = none

end LindGrates.Chroot
