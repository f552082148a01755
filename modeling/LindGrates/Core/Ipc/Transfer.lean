import LindGrates.Core.Ipc.State

/-!
# Transfer and Readiness

A handler finds the pipe behind the descriptor and keeps it while its call
waits, whatever happens to the descriptor, so a later turn is a turn on a pipe.

A socket has two pipes, of which one is looked at: the one it receives on if
readability was asked for, and otherwise the one it sends on.

## Main definitions

* `write`, `read`: The calls on a descriptor of the grate, up to the first wait.
* `resumeWrite`, `resumeRead`: Their later turns.
* `pipePollState`: What `poll` says about a descriptor.
-/

namespace LindGrates.Ipc

open FdTables ManagedTables RingBuffer

def pollIn : BitVec 16 := 0x0001#16

def pollOut : BitVec 16 := 0x0004#16

def pollErr : BitVec 16 := 0x0008#16

def pollHup : BitVec 16 := 0x0010#16

def pollNval : BitVec 16 := 0x0020#16

def asks (requested bit : BitVec 16) : Bool :=
  requested &&& bit != 0#16

namespace PipeBuffer

variable {R : Type} [RingBuffer R]

/-- One turn of `write_from_cage`: the result, if the call is done, the bytes
    written so far and the pipe. -/
def writeTurn (p : PipeBuffer R) (src : List UInt8) (total : Nat) (nonblocking interrupted : Bool)
    (copyLeft copyRight : Option (List UInt8)) : Option Int × Nat × PipeBuffer R :=
  let r := p.pushFromCage src total copyLeft copyRight
  let total := total + r.1
  if src.length ≤ total then (some (asI32 total), total, r.2)
  else (r.2.stalled total nonblocking interrupted, total, r.2)

/-- One turn of `read_to_cage`: the result, if the call is done, the buffer and
    the pipe. -/
def readTurn (p : PipeBuffer R) (mem : List UInt8) (nonblocking interrupted okLeft okRight : Bool) :
    Option Int × List UInt8 × PipeBuffer R :=
  let r := p.popToCage mem mem.length okLeft okRight
  if 0 < r.1 then (some (asI32 r.1), r.2.1, r.2.2)
  else (r.2.2.drained nonblocking interrupted, r.2.1, r.2.2)

end PipeBuffer

namespace IpcState

variable {R : Type} (s : IpcState R) (e : FDTableEntry)

def readPipe : Option Nat :=
  if e.fdkind = ipcPipe then
    if isReadEnd (entryFlags e) then s.pipes e.underfd else none
  else if e.fdkind = ipcSocket then (s.sockets.sockets e.underfd).bind SocketInfo.recvpipe
  else none

def writePipe : Option Nat :=
  if e.fdkind = ipcPipe then
    if isWriteEnd (entryFlags e) then s.pipes e.underfd else none
  else if e.fdkind = ipcSocket then (s.sockets.sockets e.underfd).bind SocketInfo.sendpipe
  else none

/-- Whether a connection waits at a listening socket; nothing for any other
    descriptor. -/
def listenPending : Option Bool :=
  if e.fdkind = ipcSocket then do
    let sock ← s.sockets.sockets e.underfd
    if sock.state = .listening then
      let addr ← sock.localAddr
      return !(s.sockets.pendingConnections addr).isEmpty
    else none
  else none

def pollPipe (requested : BitVec 16) : Option Nat :=
  if e.fdkind = ipcPipe then s.pipes e.underfd
  else if e.fdkind = ipcSocket then
    if asks requested pollIn then (s.sockets.sockets e.underfd).bind SocketInfo.recvpipe
    else if asks requested pollOut then (s.sockets.sockets e.underfd).bind SocketInfo.sendpipe
    else none
  else none

def pollsReader (e : FDTableEntry) (requested : BitVec 16) : Bool :=
  if e.fdkind = ipcPipe then isReadEnd (entryFlags e) else asks requested pollIn

variable [RingBuffer R]

/-- What `poll` reports about a pipe. -/
def pipeEvents (p : PipeBuffer R) (reader : Bool) (requested : BitVec 16) : BitVec 16 :=
  (if asks requested pollIn ∧ reader then
    if p.hasData then pollIn else if p.writeRefs = 0 then pollHup else 0#16
  else 0#16) |||
  (if asks requested pollOut ∧ ¬ reader then
    if p.hasSpace then pollOut else if p.readRefs = 0 then pollErr else 0#16
  else 0#16)

def pipePollState (requested : BitVec 16) : BitVec 16 :=
  match s.listenPending e with
  | some waiting => if asks requested pollIn ∧ waiting then pollIn else 0#16
  | none =>
    match (s.pollPipe e requested).bind (s.arcs[·]?) with
    | some p => pipeEvents p (pollsReader e requested) requested
    | none => pollNval

end IpcState

namespace World

variable {T R : Type} [ManagedTables T] [RingBuffer R]

/-- `write_handler`, up to the first wait. A null pointer counts as an empty
    buffer. -/
def write (w : World T R) (cage fd : Nat) (src : List UInt8) (interrupted : Bool)
    (copyLeft copyRight : Option (List UInt8)) (answer : Int) : Outcome (Reply T R) :=
  let r := w.lookupIpcFd cage fd
  let w := r.2
  match r.1 with
  | none => w.forwardWithFd1 cage fd answer
  | some e =>
    match w.ipc.writePipe e with
    | none => w.reply (-9)
    | some arc =>
      match w.ipc.arcs[arc]? with
      | none => w.reply (-9)
      | some p =>
        if src = [] then w.reply 0
        else if p.readRefs = 0 then w.reply (-32)
        else
          let t := p.writeTurn src 0 (has (entryFlags e) oNonblock) interrupted
            copyLeft copyRight
          .ok (t.1, { w with ipc := w.ipc.modifyArc arc fun _ => t.2.2 })

/-- `read_handler`, up to the first wait, with what the caller's buffer holds
    then. -/
def read (w : World T R) (cage fd : Nat) (mem : List UInt8) (interrupted okLeft okRight : Bool)
    (answer : Int) : Outcome (Reply T R × List UInt8) := do
  let r := w.lookupIpcFd cage fd
  let w := r.2
  match r.1 with
  | none => return (← w.forwardWithFd1 cage fd answer, mem)
  | some e =>
    match w.ipc.readPipe e with
    | none => return (← w.reply (-9), mem)
    | some arc =>
      match w.ipc.arcs[arc]? with
      | none => return (← w.reply (-9), mem)
      | some p =>
        if mem = [] then return (← w.reply 0, mem)
        else
          let t := p.readTurn mem (has (entryFlags e) oNonblock) interrupted okLeft okRight
          return ((t.1, { w with ipc := w.ipc.modifyArc arc fun _ => t.2.2 }), t.2.1)

/-- A later turn of a writing call. -/
def resumeWrite (w : World T R) (arc : Nat) (src : List UInt8) (total : Nat)
    (nonblocking interrupted : Bool) (copyLeft copyRight : Option (List UInt8)) :
    Outcome (Reply T R) :=
  match w.ipc.arcs[arc]? with
  | none => .error .panic
  | some p =>
    let t := p.writeTurn src total nonblocking interrupted copyLeft copyRight
    .ok (t.1, { w with ipc := w.ipc.modifyArc arc fun _ => t.2.2 })

/-- A later turn of a reading call. -/
def resumeRead (w : World T R) (arc : Nat) (mem : List UInt8)
    (nonblocking interrupted okLeft okRight : Bool) : Outcome (Reply T R) :=
  match w.ipc.arcs[arc]? with
  | none => .error .panic
  | some p =>
    let t := p.readTurn mem nonblocking interrupted okLeft okRight
    .ok (t.1, { w with ipc := w.ipc.modifyArc arc fun _ => t.2.2 })

end World

end LindGrates.Ipc
