import LindGrates.Core.FdSupport.Handler

/-!
# A Cage behind the Default Descriptor Handlers

One cage makes calls through the default descriptor handlers, against a kernel
that gives out descriptor numbers of its own.

## Main definitions

* `Request.meaning`: What a call asks of the descriptors of its process. It is used for
  the kernel, on the call that is passed on, and for the cage, on the call it makes.
* `serve`: A handler serves a call.
* `World`: The tables, the descriptors of the kernel, and those the cage would have
  without the grate.
-/

namespace LindGrates.FdSupport

open FdTables Posix

def fSetfd : BitVec 32 :=
  2

def fdCloexec : Word :=
  1

def mapAnonymous : Word :=
  0x20

/-- The descriptor in a directory argument. -/
def dirArg (arg : Word) : List Nat :=
  if arg = atFdcwd then [] else [arg.toNat]

/-- The descriptors a `select` asks for. -/
def Request.wanted (call : Request) : List Nat :=
  (List.range (asI32 (call.args 0).toNat).toNat).filter fun fd =>
    decide (∃ i, call.args (setIndex i) ≠ 0 ∧ fdIsset fd (call.sets i) = true)

/-- What a call asks of the descriptors of its process. -/
def Request.meaning (call : Request) : Meaning :=
  let arg := fun i => (call.args i).toNat
  match call.sys with
  | .read | .preadv | .write | .pwritev | .lseek | .ioctl | .fstat | .fsync
  | .fdatasync | .ftruncate | .flock | .fchmod | .fchdir | .getdents | .fstatfs
  | .syncFileRange | .pread | .pwrite | .readv | .writev | .bind | .listen | .connect
  | .shutdown | .sendto | .recvfrom | .sendmsg | .recvmsg | .setsockopt | .getsockopt
  | .getsockname | .getpeername | .epollWait => .use [arg 0]
  | .close => .close (arg 0)
  | .mmap => .use (if call.args 3 &&& mapAnonymous = 0 then [arg 4] else [])
  | .unlinkat | .readlinkat | .fchmodat => .use (dirArg (call.args 0))
  | .symlinkat => .use (dirArg (call.args 1))
  | .open => .create [] (hasCloexec (call.args 1))
  | .openat => .create (dirArg (call.args 0)) (hasCloexec (call.args 2))
  | .dup => .dup (arg 0) 0 false
  | .dup2 => .replace (arg 0) (arg 1) false false
  | .dup3 => .replace (arg 0) (arg 1) (hasCloexec (call.args 2)) true
  | .fcntl =>
    let cmd := (call.args 1).setWidth 32
    if cmd = fDupfd then .dup (arg 0) (arg 2) false
    else if cmd = fDupfdCloexec then .dup (arg 0) (arg 2) true
    else if cmd = fSetfd then .mark (arg 0) (decide (call.args 2 &&& fdCloexec ≠ 0))
    else .use [arg 0]
  | .accept => .create [arg 0] false
  | .accept4 => .create [arg 0] (hasCloexec (call.args 3))
  | .socket => .create [] (hasCloexec (call.args 1))
  | .socketpair => .pair (hasCloexec (call.args 1))
  | .epollCreate => .create [] false
  | .epollCreate1 => .create [] (hasCloexec (call.args 0))
  | .pipe => .pair false
  | .pipe2 => .pair (hasCloexec (call.args 1))
  | .poll | .ppoll => .poll
  | .epollCtl => .use [arg 0, arg 2]
  | .select => .select call.wanted

def replyOf (kernel : Descs) (req : Request) (ans : Answer) (r : Result) : Reply where
  ret := r.ret
  pair := r.pair.getD (0, 0)
  pollfds := fun i => (req.pollfds i).polled kernel ans
  sets := fun i =>
    selected kernel (ans.ready i) (asI32 (req.args 0).toNat).toNat (req.sets i)

/-- A call of the cage with everything that is decided outside the grate: the
    answer of the system, the numbers the kernel has for new descriptors, and
    which copies succeed. -/
structure Action where
  call : Request
  answer : Answer
  kernelFd₁ : Nat
  kernelFd₂ : Nat
  copies : Copies

/-- What a call comes to: how the handler ends, the descriptors of the kernel,
    the call that was passed on and the descriptors it opened. -/
structure Served (T : Type) where
  final : Final T
  kernel : Descs
  forwarded : Option Request
  opened : List Nat

def Stop.final {T : Type} (t : T) : Stop → Final T
  | .ret code => ⟨.ok code, t, {}⟩
  | .panic => ⟨.error .panic, t, {}⟩

section Serve

variable {T : Type} [FdTables T]

def kernelServe (kernel : Descs) (req : Request) (a : Action) : Option Result :=
  req.meaning.run kernel a.answer (given a.kernelFd₁ a.kernelFd₂)

/-- A handler serves a call. There is no result if the kernel is given no number
    it could use. -/
def serve (g : Grate) (t : T) (kernel : Descs) (a : Action) : Option (Served T) :=
  match prepare g t a.call a.copies with
  | .error stop => some ⟨stop.final t, kernel, none, []⟩
  | .ok p =>
    let req := p.request a.call
    (kernelServe kernel req a).map fun r =>
      ⟨settle t a.call p (replyOf kernel req a.answer r) a.copies, r.descs, some req, r.opened⟩

end Serve

/-- A cage behind the handlers: the grate's tables, the descriptors the kernel
    has for the cage, and those the cage would have on its own. -/
structure World (T : Type) where
  grate : Grate
  cage : Nat
  fds : T
  kernel : Descs
  native : Descs
  panicked : Bool

namespace World

variable {T : Type} [FdTables T]

def names (w : World T) (fd : Nat) : Option Nat :=
  (translateVirtualFd w.fds w.cage fd).map FDTableEntry.underfd

def step (w : World T) (a : Action) : Option (World T) :=
  if w.panicked ∨ a.call.argcages ≠ fun _ => w.cage then none
  else
    (serve w.grate w.fds w.kernel a).map fun s =>
      { w with
        fds := s.final.fds
        kernel := s.kernel
        native := (a.call.meaning.native (fdLimit T) w.native a.answer).descs
        panicked := !s.final.ret.isOk }

/-- The cage starts with the standard descriptors, under their own numbers. -/
structure Start (w : World T) : Prop where
  registered : checkCageExists w.fds w.cage = true
  standard : ∀ fd, fd < 3 → ∃ x,
    translateVirtualFd w.fds w.cage fd = some (kernelEntry fd x.cloexec) ∧
      w.kernel fd = some x ∧ w.native fd = some x
  closed : ∀ fd, 3 ≤ fd →
    translateVirtualFd w.fds w.cage fd = none ∧ w.kernel fd = none ∧ w.native fd = none
  running : w.panicked = false

end World

end LindGrates.FdSupport
