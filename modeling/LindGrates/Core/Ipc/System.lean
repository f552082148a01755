import LindGrates.Core.Ipc.Epoll
import LindGrates.Core.Ipc.Process
import LindGrates.Core.Ipc.Socket

/-!
# The IPC Grate as a System

Every call the grate handles, with the runtime's answer to the calls it passes
on. Handlers take turns: the fork handler runs to its end before the child makes
a call.

## Main definitions

* `Call`: The calls.
* `World.serve`: What a call returns and leaves behind.
* `Initial`: The grate before its first call.
* `Promised`: The runtime gives a forked child a cage that has no table yet.
-/

namespace LindGrates.Ipc

open FdTables ManagedTables RingBuffer

/-- A call of a cage, or a later turn of a call that waits. -/
inductive Call
  | pipe (cage : Nat)
  | pipe2 (cage : Nat) (flags : BitVec 32)
  | close (cage fd : Nat) (answer : Int)
  | openPath (cage : Nat) (flags : BitVec 32) (answer : Int)
  | openat (cage dirfd : Nat) (flags : BitVec 32) (answer : Int)
  | dup (cage fd : Nat) (answer : Int)
  | dup2 (cage oldfd newfd : Nat) (answer : Int)
  | dup3 (cage oldfd newfd : Nat) (flags : BitVec 32) (answer : Int)
  | fcntl (cage fd : Nat) (op : Int) (arg : Nat) (answer : Int)
  | ioctl (cage fd request : Nat) (arg : Option Int) (answer : Int)
  | fork (parent : Nat) (isThread isVfork : Bool) (answer : Int)
  | exec (cage : Nat) (answer : Int)
  | exit (cage : Nat) (answer : Int)
  | preexec (cage : Nat)
  | socket (cage : Nat) (domain socktype : BitVec 32) (answer : Int)
  | socketpair (cage : Nat) (domain socktype : BitVec 32)
  | bind (cage fd : Nat) (addr : List UInt8) (answer : Int)
  | listen (cage fd : Nat) (answer : Int)
  | connect (cage fd : Nat) (addr : List UInt8) (answer : Int)
  | accept (cage fd : Nat) (interrupted : Bool) (answer : Int)
  | accept4 (cage fd : Nat) (flags : BitVec 32) (interrupted : Bool) (answer : Int)
  | shutdown (cage fd : Nat) (how : Int) (answer : Int)
  | epollCreate (cage : Nat) (answer : Int)
  | epollCreate1 (cage : Nat) (flags : BitVec 32) (answer : Int)
  | epollCtl (cage epfd : Nat) (op : Int) (fd : Nat) (event : Option EpollEvent) (answer : Int)
  | read (cage fd : Nat) (mem : List UInt8) (interrupted okLeft okRight : Bool) (answer : Int)
  | write (cage fd : Nat) (src : List UInt8) (interrupted : Bool)
      (copyLeft copyRight : Option (List UInt8)) (answer : Int)
  | resumeRead (arc : Nat) (mem : List UInt8) (nonblocking interrupted okLeft okRight : Bool)
  | resumeWrite (arc : Nat) (src : List UInt8) (total : Nat) (nonblocking interrupted : Bool)
      (copyLeft copyRight : Option (List UInt8))
  | resumeAccept (cage listener : Nat) (addr : Str) (flags : BitVec 32) (interrupted : Bool)

namespace World

variable {T R : Type} [ManagedTables T] [RingBuffer R]

/-- What a call returns and leaves behind. -/
def serve (w : World T R) : Call → Outcome (Reply T R)
  | .pipe cage => w.pipe cage
  | .pipe2 cage flags => w.pipe2 cage flags
  | .close cage fd answer => w.close cage fd answer
  | .openPath cage flags answer => w.openPath cage flags answer
  | .openat cage dirfd flags answer => w.openat cage dirfd flags answer
  | .dup cage fd answer => w.dup cage fd answer
  | .dup2 cage oldfd newfd answer => w.dup2 cage oldfd newfd answer
  | .dup3 cage oldfd newfd flags answer => w.dup3 cage oldfd newfd flags answer
  | .fcntl cage fd op arg answer => w.fcntl cage fd op arg answer
  | .ioctl cage fd request arg answer => w.ioctl cage fd request arg answer
  | .fork parent isThread isVfork answer => w.fork parent isThread isVfork answer
  | .exec cage answer => w.exec cage answer
  | .exit cage answer => w.exit cage answer
  | .preexec cage => w.preexec cage
  | .socket cage domain socktype answer => w.socket cage domain socktype answer
  | .socketpair cage domain socktype => w.socketpair cage domain socktype
  | .bind cage fd addr answer => w.bind cage fd addr answer
  | .listen cage fd answer => w.listen cage fd answer
  | .connect cage fd addr answer => w.connect cage fd addr answer
  | .accept cage fd interrupted answer => w.accept cage fd interrupted answer
  | .accept4 cage fd flags interrupted answer => w.accept4 cage fd flags interrupted answer
  | .shutdown cage fd how answer => w.shutdown cage fd how answer
  | .epollCreate cage answer => w.epollCreate cage answer
  | .epollCreate1 cage flags answer => w.epollCreate1 cage flags answer
  | .epollCtl cage epfd op fd event answer => w.epollCtl cage epfd op fd event answer
  | .read cage fd mem interrupted okLeft okRight answer => do
    return (← w.read cage fd mem interrupted okLeft okRight answer).1
  | .write cage fd src interrupted copyLeft copyRight answer =>
    w.write cage fd src interrupted copyLeft copyRight answer
  | .resumeRead arc mem nonblocking interrupted okLeft okRight =>
    w.resumeRead arc mem nonblocking interrupted okLeft okRight
  | .resumeWrite arc src total nonblocking interrupted copyLeft copyRight =>
    w.resumeWrite arc src total nonblocking interrupted copyLeft copyRight
  | .resumeAccept cage listener addr flags interrupted =>
    w.acceptRound cage listener addr false flags interrupted

def step (w : World T R) (call : Call) : Option (World T R) :=
  match w.serve call with
  | .ok (_, w') => some w'
  | .error _ => none

def started (fds : T) : World T R :=
  { fds := fds
    ipc :=
      { arcs := []
        pipes := fun _ => none
        nextPipeId := 0
        sockets :=
          { sockets := fun _ => none
            nextSocketId := 0
            pendingConnections := fun _ => []
            boundPaths := fun _ => none }
        pendingInet := fun _ => none
        epollTargets := fun _ => none }
    pending := [] }

end World

/-- The grate before its first call: no cage has a descriptor. -/
def Initial {T R : Type} [ManagedTables T] (w : World T R) : Prop :=
  ∃ fds : T, w = World.started fds ∧ ∀ cage fd, translateVirtualFd fds cage fd = none

/-- The runtime's promise: a fork that succeeds gives a cage without a table. -/
def Promised {T R : Type} [ManagedTables T] (w : World T R) (call : Call) : Bool :=
  match call with
  | .fork _ isThread _ answer =>
    isThread || decide (answer < 0) ||
      decide (0 < answer) && !checkCageExists w.fds answer.toNat
  | _ => true

theorem serve_of_step {T R : Type} [ManagedTables T] [RingBuffer R] {w w' : World T R}
    {call : Call} (h : w.step call = some w') : ∃ r, w.serve call = .ok (r, w') := by
  rw [World.step] at h
  split at h
  next r w1 hserve =>
    cases h
    exact ⟨r, hserve⟩
  · cases h

end LindGrates.Ipc
