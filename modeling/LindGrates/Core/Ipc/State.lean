import LindGrates.Core.Ipc.Pipe
import LindGrates.Core.ManagedTables

/-!
# The State of the IPC Grate

The grate keeps its pipes and sockets in registries behind one lock and its
descriptors in `fdtables`. A pipe is shared by reference, so the pipes live in a
list of their own and the registries hold positions in it.

A descriptor table entry of kind `IPC_PIPE` or `IPC_SOCKET` counts as a
reference to the pipes behind it. The counters go up where a handler duplicates
an entry. They go down in the close handlers, which `fdtables` calls with every
entry it removes or overwrites.

A forked child can make calls before the parent's handler has copied the
parent's descriptors. The parent therefore publishes a snapshot first, and a
lookup that does not find a cage's table or descriptor installs the latest
snapshot there and looks again.

## Main definitions

* `IpcState`: The registries.
* `World`: The registries, the tables and the pending snapshots.
* `IpcState.closeHandler`, `IpcState.bump`: References counted down and up.
* `lookupIpcFd`, `translateToUnderfd`: Lookups.
-/

namespace LindGrates.Ipc

open FdTables ManagedTables RingBuffer

/-- `FDKIND_KERNEL`: a descriptor of the runtime. -/
def fdkindKernel : Nat := 0

/-- `IPC_PIPE`: an end of a pipe. -/
def ipcPipe : Nat := 1

/-- `IPC_SOCKET`: a socket of the grate. -/
def ipcSocket : Nat := 3

/-- `IPC_EPOLL`: an epoll instance. -/
def ipcEpoll : Nat := 4

def oNonblock : BitVec 32 := 0o4000#32

def oCloexec : BitVec 32 := 0o2000000#32

def oRdonly : BitVec 32 := 0#32

def oWronly : BitVec 32 := 1#32

def oAccmode : BitVec 32 := 3#32

def afUnix : BitVec 32 := 1#32

def afInet : BitVec 32 := 2#32

def pipeCapacity : Nat := 65536

def udsockCapacity : Nat := 212992

def has (flags bit : BitVec 32) : Bool :=
  flags &&& bit != 0#32

def isReadEnd (flags : BitVec 32) : Bool :=
  flags &&& oAccmode == oRdonly

def isWriteEnd (flags : BitVec 32) : Bool :=
  flags &&& oAccmode == oWronly

/-- `flags as u64` for an `i32`. -/
def flagsToU64 (flags : BitVec 32) : Nat :=
  (flags.signExtend 64).toNat

/-- `perfdinfo as i32`. -/
def entryFlags (e : FDTableEntry) : BitVec 32 :=
  BitVec.ofNat 32 e.perfdinfo

inductive ConnState
  | notConnected
  | connected
  | readOnly
  | writeOnly
  | listening
  deriving DecidableEq, Repr

/-- A socket. The pipes are positions in `IpcState.arcs`. -/
structure SocketInfo where
  domain : BitVec 32
  socktype : BitVec 32
  state : ConnState
  localAddr : Option Str
  remoteAddr : Option Str
  sendpipe : Option Nat
  recvpipe : Option Nat
  deriving DecidableEq, Repr

structure PendingConnection where
  remoteAddr : Str
  pipeToListener : Nat
  pipeToConnector : Nat
  deriving DecidableEq, Repr

structure SocketRegistry where
  sockets : Nat → Option SocketInfo
  nextSocketId : Nat
  pendingConnections : Str → List PendingConnection
  boundPaths : Str → Option Nat

structure EpollEvent where
  events : BitVec 32
  data : BitVec 64
  deriving DecidableEq, Repr

structure IpcState (R : Type) where
  /-- The pipes that `Arc`s point to. -/
  arcs : List (PipeBuffer R)
  pipes : Nat → Option Nat
  nextPipeId : Nat
  sockets : SocketRegistry
  pendingInet : Nat × Nat → Option Nat
  epollTargets : Nat × Nat → Option (Nat → Option EpollEvent)

/-- The pipes a duplicated descriptor refers to: one whose write counter, and
    one whose read counter, it stands for. -/
structure RefBump where
  write : Option Nat
  read : Option Nat
  deriving DecidableEq, Repr

structure PendingFdTable where
  parentCage : Nat
  entries : List (Nat × FDTableEntry)

structure World (T R : Type) where
  fds : T
  ipc : IpcState R
  /-- `PENDING_FDTABLES`. -/
  pending : List PendingFdTable

namespace SocketRegistry

def createSocket (s : SocketRegistry) (domain socktype : BitVec 32) : Nat × SocketRegistry :=
  (s.nextSocketId,
    { s with
      sockets := Function.update s.sockets s.nextSocketId
        (some ⟨domain, socktype, .notConnected, none, none, none, none⟩)
      nextSocketId := s.nextSocketId + 1 })

def modifySocket (s : SocketRegistry) (id : Nat) (f : SocketInfo → SocketInfo) :
    SocketRegistry :=
  { s with sockets := Function.update s.sockets id ((s.sockets id).map f) }

def remove (s : SocketRegistry) (id : Nat) : SocketRegistry :=
  { s with
    sockets := Function.update s.sockets id none
    boundPaths := match (s.sockets id).bind SocketInfo.localAddr with
      | some addr => Function.update s.boundPaths addr none
      | none => s.boundPaths }

end SocketRegistry

namespace IpcState

variable {R : Type}

def modifyArc (s : IpcState R) (arc : Nat) (f : PipeBuffer R → PipeBuffer R) : IpcState R :=
  { s with arcs := s.arcs.modify arc f }

def modifyArc? (s : IpcState R) (arc : Option Nat) (f : PipeBuffer R → PipeBuffer R) :
    IpcState R :=
  match arc with
  | some arc => s.modifyArc arc f
  | none => s

def pipeCloseHandler (s : IpcState R) (e : FDTableEntry) : IpcState R :=
  s.modifyArc? (s.pipes e.underfd)
    (if isReadEnd (entryFlags e) then PipeBuffer.decrReadRef else PipeBuffer.decrWriteRef)

def socketCloseHandler (s : IpcState R) (e : FDTableEntry) : IpcState R :=
  match s.sockets.sockets e.underfd with
  | some sock =>
    (s.modifyArc? sock.sendpipe PipeBuffer.decrWriteRef).modifyArc? sock.recvpipe
      PipeBuffer.decrReadRef
  | none => s

/-- The handler registered for the kind of an entry. The one for epoll instances
    changes nothing. -/
def closeHandler (s : IpcState R) (e : FDTableEntry) : IpcState R :=
  if e.fdkind = ipcPipe then s.pipeCloseHandler e
  else if e.fdkind = ipcSocket then s.socketCloseHandler e
  else s

def refBump (s : IpcState R) (e : FDTableEntry) : RefBump :=
  if e.fdkind = ipcPipe then
    if isReadEnd (entryFlags e) then ⟨none, s.pipes e.underfd⟩ else ⟨s.pipes e.underfd, none⟩
  else if e.fdkind = ipcSocket then
    ⟨(s.sockets.sockets e.underfd).bind SocketInfo.sendpipe,
      (s.sockets.sockets e.underfd).bind SocketInfo.recvpipe⟩
  else ⟨none, none⟩

def raise (s : IpcState R) (b : RefBump) : IpcState R :=
  (s.modifyArc? b.write PipeBuffer.incrWriteRef).modifyArc? b.read PipeBuffer.incrReadRef

def lower (s : IpcState R) (b : RefBump) : IpcState R :=
  (s.modifyArc? b.write PipeBuffer.decrWriteRef).modifyArc? b.read PipeBuffer.decrReadRef

/-- Count one more reference for an entry that has been duplicated. -/
def bump (s : IpcState R) (e : FDTableEntry) : IpcState R :=
  s.raise (s.refBump e)

def withSockets (s : IpcState R) (f : SocketRegistry → SocketRegistry) : IpcState R :=
  { s with sockets := f s.sockets }

end IpcState

/-- `with_ipc`: change the registries. -/
def World.withIpc {T R : Type} (w : World T R) (f : IpcState R → IpcState R) : World T R :=
  { w with ipc := f w.ipc }

abbrev Reply (T R : Type) := Option Int × World T R

namespace World

variable {T R : Type} [ManagedTables T]

def reply (w : World T R) (ret : Int) : Outcome (Reply T R) :=
  .ok (some ret, w)

/-- The handler of an entry that is removed or overwritten, if there is one. -/
def fire (w : World T R) (e : Option FDTableEntry) : World T R :=
  match e with
  | some e => { w with ipc := w.ipc.closeHandler e }
  | none => w

/-- `get_specific_virtual_fd`, with its result ignored. -/
def getSpecific (w : World T R) (cage fd : Nat) (e : FDTableEntry) : World T R :=
  match getSpecificVirtualFd w.fds cage fd e with
  | some fds => { w.fire (translateVirtualFd w.fds cage fd) with fds := fds }
  | none => w

/-- `close_virtualfd`, with its result ignored. -/
def closeFd (w : World T R) (cage fd : Nat) : World T R :=
  match closeVirtualfd w.fds cage fd with
  | some fds => { w.fire (translateVirtualFd w.fds cage fd) with fds := fds }
  | none => w

/-- Install a descriptor of a snapshot where the cage has none. -/
def installEntry (cage : Nat) (w : World T R) (p : Nat × FDTableEntry) : World T R :=
  if (translateVirtualFd w.fds cage p.1).isNone then w.getSpecific cage p.1 p.2 else w

def installPendingFdtable (w : World T R) (cage : Nat) : Bool × World T R :=
  match w.pending.getLast? with
  | none => (false, w)
  | some snapshot =>
    let w := if checkCageExists w.fds cage then w
      else { w with fds := initEmptyCage w.fds cage }
    (true, snapshot.entries.foldl (installEntry cage) w)

def fdtableWaitAttempts : Nat := 100

/-- `wait_for_cage_fdtable`, with the attempts that are left. -/
def waitForCage (w : World T R) (cage : Nat) : Nat → Bool × World T R
  | 0 => (checkCageExists w.fds cage, w)
  | n + 1 =>
    if checkCageExists w.fds cage then (true, w)
    else
      let r := w.installPendingFdtable cage
      if r.1 then (true, r.2) else r.2.waitForCage cage n

/-- `wait_for_fdtable_entry`, with the attempts that are left. -/
def waitForEntry (w : World T R) (cage fd : Nat) : Nat → Option FDTableEntry × World T R
  | 0 => (translateVirtualFd w.fds cage fd, w)
  | n + 1 =>
    match translateVirtualFd w.fds cage fd with
    | some e => (some e, w)
    | none => (w.installPendingFdtable cage).2.waitForEntry cage fd n

def waitForCageFdtable (w : World T R) (cage : Nat) : Bool × World T R :=
  w.waitForCage cage fdtableWaitAttempts

def waitForFdtableEntry (w : World T R) (cage fd : Nat) : Option FDTableEntry × World T R :=
  w.waitForEntry cage fd fdtableWaitAttempts

/-- `lookup_ipc_fd`: the entry of a descriptor of the grate's own. -/
def lookupIpcFd (w : World T R) (cage fd : Nat) : Option FDTableEntry × World T R :=
  let r := w.waitForCageFdtable cage
  if r.1 then
    let r := r.2.waitForFdtableEntry cage fd
    (r.1.filter fun e => e.fdkind = ipcPipe ∨ e.fdkind = ipcSocket, r.2)
  else (none, r.2)

def newFdtable (w : World T R) (cage : Nat) : World T R :=
  (List.range 3).foldl (fun w fd => w.getSpecific cage fd ⟨fdkindKernel, fd, false, 0⟩)
    { w with fds := initEmptyCage w.fds cage }

def ensureCageFdtable (w : World T R) (cage : Nat) : World T R :=
  let r := w.waitForCageFdtable cage
  if r.1 then r.2 else r.2.newFdtable cage

def translateToUnderfd (w : World T R) (cage fd : Nat) : Option Nat × World T R :=
  let r := w.waitForCageFdtable cage
  if r.1 then
    let r := r.2.waitForFdtableEntry cage fd
    (r.1.map FDTableEntry.underfd, r.2)
  else (some fd, r.2)

/-- `forward_with_fd1`: the runtime's answer, if the descriptor is known. -/
def forwardWithFd1 (w : World T R) (cage fd : Nat) (answer : Int) : Outcome (Reply T R) :=
  let r := w.translateToUnderfd cage fd
  if r.1.isSome then r.2.reply answer else r.2.reply (-9)

/-- `register_kernel_fd`: a descriptor for one of the runtime's. -/
def registerKernelFd (w : World T R) (cage : Nat) (runtimeVfd : Int) (cloexec : Bool)
    (perfdinfo : Nat) : Outcome (Reply T R) :=
  let w := w.ensureCageFdtable cage
  match getUnusedVirtualFd w.fds cage ⟨fdkindKernel, asU64 runtimeVfd, cloexec, perfdinfo⟩ with
  | some (fd, fds) => { w with fds := fds }.reply (asI32 fd)
  | none => w.reply (-24)

end World

end LindGrates.Ipc
