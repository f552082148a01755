import LindGrates.Core.Ipc.Address
import LindGrates.Core.Ipc.Descriptor

/-!
# Sockets

A local socket belongs to the grate from the start. An internet socket is one of
the runtime's until it is bound or connected: if the address turns out to be the
local host, the grate closes the runtime's descriptor and puts a socket of its
own under the same number. Until then the registry remembers it by cage and
number.

A connection is a pair of pipes. `connect` makes them, keeps one for each
direction and queues the pair under the name of the address; `accept` takes the
oldest pair queued under the name its socket is bound to.

## Main definitions

* `socket`, `socketpair`, `bind`, `listen`, `connect`, `accept4`, `shutdown`,
  `getsockname`: The handlers.
* `takeOver`: An internet socket becomes one of the grate.
-/

namespace LindGrates.Ipc

open FdTables ManagedTables RingBuffer Function

def sockStream : BitVec 32 := 1#32

def shutRd : Int := 0

def shutWr : Int := 1

def shutRdwr : Int := 2

def socketEntry (socketId : Nat) (flags : BitVec 32) : FDTableEntry :=
  ⟨ipcSocket, socketId, has flags oCloexec, flagsToU64 (flags &&& oNonblock)⟩

namespace IpcState

variable {R : Type} (s : IpcState R)

/-- A descriptor no longer stands for an internet socket that may become ours. -/
def dropPendingInet (cage fd : Nat) : IpcState R :=
  { s with pendingInet := update s.pendingInet (cage, fd) none }

def trackInet (cage : Nat) (socktype : BitVec 32) (fd : Int) : IpcState R :=
  let r := s.sockets.createSocket afInet socktype
  { s with
    sockets := r.2
    pendingInet := update s.pendingInet (cage, asU64 fd) (some r.1) }

/-- Leave an internet socket to the runtime. -/
def abandon (cage fd socketId : Nat) : IpcState R :=
  (s.dropPendingInet cage fd).withSockets (·.remove socketId)

def bindSocket (socketId : Nat) (addr : Str) : IpcState R :=
  s.withSockets fun s =>
    { s.modifySocket socketId fun sock => { sock with localAddr := some addr } with
      boundPaths := update s.boundPaths addr (some socketId) }

def setState (socketId : Nat) (state : ConnState) : IpcState R :=
  s.withSockets (·.modifySocket socketId fun sock => { sock with state := state })

def leaveQueue (addr : Str) (rest : List PendingConnection) : IpcState R :=
  s.withSockets fun s =>
    { s with pendingConnections := update s.pendingConnections addr rest }

def attached (sock : SocketInfo) (send recv : Nat) : SocketInfo :=
  { sock with sendpipe := some send, recvpipe := some recv, state := .connected }

/-- The socket for an accepted connection. -/
def acceptSocket (listener : Nat) (conn : PendingConnection) : IpcState R :=
  let sock := s.sockets.sockets listener
  let r := s.sockets.createSocket ((sock.map SocketInfo.domain).getD afUnix)
    ((sock.map SocketInfo.socktype).getD sockStream)
  s.withSockets fun _ => r.2.modifySocket r.1 fun sock =>
    { attached sock conn.pipeToConnector conn.pipeToListener with
      remoteAddr := some conn.remoteAddr }

variable [RingBuffer R]

/-- Two new pipes for a connection. -/
def newConnection : IpcState R :=
  { s with
    arcs := s.arcs ++ [PipeBuffer.new udsockCapacity, PipeBuffer.new udsockCapacity] }

def createSocketpair (domain socktype : BitVec 32) : IpcState R :=
  let a := s.arcs.length
  let r₁ := s.sockets.createSocket domain socktype
  let r₂ := r₁.2.createSocket domain socktype
  s.newConnection.withSockets fun _ =>
    (r₂.2.modifySocket r₁.1 fun sock => attached sock a (a + 1)).modifySocket r₂.1
      fun sock => attached sock (a + 1) a

/-- Give a socket the near ends of a new connection and queue the far ends. -/
def joinQueue (socketId : Nat) (target : Str) : IpcState R :=
  let toListener := s.arcs.length
  let toConnector := s.arcs.length + 1
  let own := ((s.sockets.sockets socketId).bind SocketInfo.localAddr).getD []
  s.newConnection.withSockets fun s =>
    { s.modifySocket socketId fun sock =>
        { attached sock toListener toConnector with remoteAddr := some target } with
      pendingConnections := update s.pendingConnections target
        (s.pendingConnections target ++ [⟨own, toListener, toConnector⟩]) }

end IpcState

namespace World

variable {T R : Type} [ManagedTables T] (w : World T R)

/-- `socket_handler` for local sockets. -/
def socketUnix (cage : Nat) (socktype : BitVec 32) : Outcome (Reply T R) :=
  let id := w.ipc.sockets.nextSocketId
  let w := w.withIpc (·.withSockets fun s => (s.createSocket afUnix socktype).2)
  match getUnusedVirtualFd w.fds cage (socketEntry id socktype) with
  | some (fd, fds) => { w with fds := fds }.reply (asI32 fd)
  | none => (w.withIpc (·.withSockets (·.remove id))).reply (-24)

def socket (cage : Nat) (domain socktype : BitVec 32) (answer : Int) :
    Outcome (Reply T R) :=
  let w := w.ensureCageFdtable cage
  if domain = afUnix then w.socketUnix cage socktype
  else if answer < 0 then w.reply answer
  else if domain = afInet then do
    let (ret, w) ← w.registerKernelFd cage answer false 0
    match ret with
    | some fd => if fd < 0 then w.reply fd else (w.withIpc (·.trackInet cage socktype fd)).reply fd
    | none => .ok (none, w)
  else w.registerKernelFd cage answer false 0

/-- Take over an internet socket: its number stands for a socket of ours from
    now on, with the flags of the entry there before. -/
def takeOver (cage fd socketId : Nat) (old : Option FDTableEntry) : World T R :=
  (w.getSpecific cage fd
    ⟨ipcSocket, socketId, old.any FDTableEntry.shouldCloexec,
      (old.map FDTableEntry.perfdinfo).getD 0⟩).withIpc (·.dropPendingInet cage fd)

/-- `bind_handler` for a descriptor that stands for an internet socket. -/
def bindInet (cage fd socketId : Nat) (addr : List UInt8) (answer : Int) :
    Outcome (Reply T R) :=
  match port addr with
  -- The handler indexes past the end of the bytes.
  | none => .error .panic
  | some n =>
    if isLoopback addr then
      let w := (w.translateToUnderfd cage fd).2
      if checkCageExists w.fds cage then
        ((w.takeOver cage fd socketId (translateVirtualFd w.fds cage fd)).withIpc
          (·.bindSocket socketId (inetKey n))).reply 0
      else .error .panic
    else (w.withIpc (·.abandon cage fd socketId)).forwardWithFd1 cage fd answer

def bind (cage fd : Nat) (addr : List UInt8) (answer : Int) :
    Outcome (Reply T R) :=
  if addr.length < 2 then w.forwardWithFd1 cage fd answer
  else
    let r := w.lookupIpcFd cage fd
    let w := r.2
    match r.1.filter fun e => e.fdkind = ipcSocket ∧ family addr = afUnix with
    | some e => (w.withIpc (·.bindSocket e.underfd (unixKey addr))).reply 0
    | none =>
      match w.ipc.pendingInet (cage, fd) with
      | some socketId =>
        if family addr = afInet then w.bindInet cage fd socketId addr answer
        else w.forwardWithFd1 cage fd answer
      | none => w.forwardWithFd1 cage fd answer

def listen (cage fd : Nat) (answer : Int) : Outcome (Reply T R) :=
  let r := w.lookupIpcFd cage fd
  match r.1 with
  | none => r.2.forwardWithFd1 cage fd answer
  | some e =>
    if e.fdkind = ipcSocket then
      (r.2.withIpc (·.setState e.underfd .listening)).reply 0
    else r.2.reply (-88)

def shutdownSocket (sock : SocketInfo) (socketId : Nat) (how : Int) :
    Outcome (Reply T R) :=
  let hangUp (s : IpcState R) := s.modifyArc? sock.sendpipe PipeBuffer.decrWriteRef
  if how = shutRd then
    (w.withIpc (·.setState socketId
      (if sock.state = .connected then .writeOnly else .notConnected))).reply 0
  else if how = shutWr then
    ((w.withIpc hangUp).withIpc (·.setState socketId
      (if sock.state = .connected then .readOnly else .notConnected))).reply 0
  else if how = shutRdwr then
    ((w.withIpc hangUp).withIpc (·.setState socketId .notConnected)).reply 0
  else w.reply (-22)

def shutdown (cage fd : Nat) (how : Int) (answer : Int) : Outcome (Reply T R) :=
  let r := w.lookupIpcFd cage fd
  match r.1 with
  | none => r.2.forwardWithFd1 cage fd answer
  | some e =>
    if e.fdkind = ipcSocket then
      match r.2.ipc.sockets.sockets e.underfd with
      | some sock => r.2.shutdownSocket sock e.underfd how
      | none => r.2.reply 0
    else r.2.reply (-88)

/-- `getsockname_handler`, with what is written to the caller's buffer of the
    given length: the bytes, cut to the buffer, and the full length. -/
def getsockname (cage fd : Nat) (userLen : Option Nat) (answer : Int) :
    Outcome (Reply T R × Option (List UInt8 × Nat)) := do
  let r := w.lookupIpcFd cage fd
  match r.1 with
  | none => return (← r.2.forwardWithFd1 cage fd answer, none)
  | some e =>
    if e.fdkind = ipcSocket then
      let sock := r.2.ipc.sockets.sockets e.underfd
      let bytes := buildIpcSockaddr ((sock.map SocketInfo.domain).getD 0#32)
        (sock.bind SocketInfo.localAddr)
      match userLen with
      | some n => return (← r.2.reply 0, some (bytes.take n, bytes.length))
      | none => return (← r.2.reply (-22), none)
    else return (← r.2.reply (-88), none)

section Pipes

variable [RingBuffer R]

def socketpair (w : World T R) (cage : Nat) (domain socktype : BitVec 32) :
    Outcome (Reply T R) :=
  let w := w.ensureCageFdtable cage
  if domain = afUnix then
    let id := w.ipc.sockets.nextSocketId
    let w := w.withIpc (·.createSocketpair domain socktype)
    match getUnusedVirtualFd w.fds cage (socketEntry id socktype) with
    | none => w.reply (-24)
    | some (fd₁, fds) =>
      let w := { w with fds := fds }
      match getUnusedVirtualFd w.fds cage (socketEntry (id + 1) socktype) with
      | none => (w.closeFd cage fd₁).reply (-24)
      | some (_, fds) => { w with fds := fds }.reply 0
  else w.reply (-97)

def connectTo (w : World T R) (socketId : Nat) (target : Str) : Outcome (Reply T R) :=
  if w.ipc.sockets.boundPaths target = none then w.reply (-111)
  else (w.withIpc (·.joinQueue socketId target)).reply 0

/-- `connect_handler`, once the socket is known. -/
def connectSocket (w : World T R) (socketId : Nat) (addr : List UInt8) : Outcome (Reply T R) :=
  if family addr = afUnix then w.connectTo socketId (unixKey addr)
  else if family addr = afInet then
    match port addr with
    | some n => w.connectTo socketId (inetKey n)
    | none => .error .panic
  else w.reply (-97)

def connect (w : World T R) (cage fd : Nat) (addr : List UInt8) (answer : Int) :
    Outcome (Reply T R) :=
  if addr.length < 2 then w.forwardWithFd1 cage fd answer
  else
    let r := w.lookupIpcFd cage fd
    let w := r.2
    match r.1 with
    | some e =>
      if e.fdkind = ipcSocket then w.connectSocket e.underfd addr
      else w.forwardWithFd1 cage fd answer
    | none =>
      match w.ipc.pendingInet (cage, fd) with
      | none => w.forwardWithFd1 cage fd answer
      | some socketId =>
        if family addr = afInet then
          if isLoopback addr then
            if checkCageExists w.fds cage then
              let old := translateVirtualFd w.fds cage fd
              let w := (w.translateToUnderfd cage fd).2
              (w.takeOver cage fd socketId old).connectSocket socketId addr
            else .error .panic
          else (w.withIpc (·.abandon cage fd socketId)).forwardWithFd1 cage fd answer
        else w.forwardWithFd1 cage fd answer

end Pipes

/-- One round of the loop in `accept_ipc_inner`, with the address found before
    the first round. -/
def acceptRound (cage listener : Nat) (addr : Str) (nonblocking : Bool)
    (flags : BitVec 32) (interrupted : Bool) : Outcome (Reply T R) :=
  match w.ipc.sockets.pendingConnections addr with
  | conn :: rest =>
    let id := w.ipc.sockets.nextSocketId
    let w := w.withIpc fun s => (s.leaveQueue addr rest).acceptSocket listener conn
    match getUnusedVirtualFd w.fds cage (socketEntry id flags) with
    | some (fd, fds) => { w with fds := fds }.reply (asI32 fd)
    | none => (w.withIpc (·.withSockets (·.remove id))).reply (-24)
  | [] =>
    if nonblocking then w.reply (-11)
    else if interrupted then w.reply (-4)
    else .ok (none, w)

/-- `accept_ipc_inner`, up to the first wait. -/
def acceptIpcInner (cage listener : Nat) (listenFlags : BitVec 32)
    (flags : BitVec 32) (interrupted : Bool) : Outcome (Reply T R) :=
  match (w.ipc.sockets.sockets listener).bind SocketInfo.localAddr with
  | none => w.reply (-22)
  | some addr => w.acceptRound cage listener addr (has listenFlags oNonblock) flags interrupted

def accept4 (cage fd : Nat) (flags : BitVec 32) (interrupted : Bool)
    (answer : Int) : Outcome (Reply T R) :=
  let r := w.lookupIpcFd cage fd
  match r.1 with
  | some e =>
    if e.fdkind = ipcSocket then
      r.2.acceptIpcInner cage e.underfd (entryFlags e) flags interrupted
    else r.2.reply (-88)
  | none =>
    let r := r.2.translateToUnderfd cage fd
    if r.1.isNone then r.2.reply (-9)
    else if answer < 0 then r.2.reply answer
    else r.2.registerKernelFd cage answer (has flags oCloexec) 0

def accept (cage fd : Nat) (interrupted : Bool) (answer : Int) :
    Outcome (Reply T R) :=
  w.accept4 cage fd 0 interrupted answer

end World

end LindGrates.Ipc
