import LindGrates.Core.Ipc.Pipe

/-!
# One Pipe, One Writer, One Reader

The calls that move bytes through a pipe, as a transition system in which the
writer's and the reader's call run side by side. Every half of a turn is one
step, so the other side, or a descriptor going away, can come in between any
two of them.

A call reaches the pipe in one of two ways. `write` and `sendto` hand the
address of the cage's buffer to `write_from_cage`; `writev` and `sendmsg` gather
the segments into a buffer of the grate first and hand that to `write`. The
reading calls mirror this, and `readv` and `recvmsg` scatter what they read.

Beside the pipe the state logs what the cages see.

## Main definitions

* `gatherIovIntoBuf`, `scatterBufIntoIov`: The segments of a vectored call.
* `Channel`: The pipe, the calls in progress and the log.
* `Channel.act`: What happens next, if it can.
-/

namespace LindGrates.Ipc

open RingBuffer PipeBuffer

/-- `MAX_IOV`: the most segments a vectored call may have. -/
def maxIov : Nat := 1024

/-- `gather_iov_into_buf`: the segments one after the other. A segment whose
    copy fails reads as zeros. -/
def gatherIovIntoBuf (segments : List (List UInt8 × Bool)) : List UInt8 :=
  segments.flatMap fun seg => if seg.2 then seg.1 else List.replicate seg.1.length 0

/-- `scatter_buf_into_iov`: what the segments hold after the bytes have been
    spread over them. A segment whose copy fails keeps what it held. -/
def scatterBufIntoIov : List UInt8 → List (List UInt8 × Bool) → List (List UInt8)
  | _, [] => []
  | data, seg :: segments =>
    let chunk := min seg.1.length data.length
    (if seg.2 then data.take chunk ++ seg.1.drop chunk else seg.1) ::
      scatterBufIntoIov (data.drop chunk) segments

structure WriteCall where
  /-- The bytes in the calling cage's memory. -/
  wanted : List UInt8
  /-- The bytes the pipe is given: the cage's own, or a gathered copy. -/
  src : List UInt8
  /-- Whether the pipe copies from the cage itself. -/
  direct : Bool
  nonblocking : Bool
  /-- `total_written`. -/
  total : Nat
  /-- What entered the pipe during this call. -/
  entered : List UInt8
  /-- Whether the turn is in its second half. -/
  pushed : Bool

/-- A finished writing call: its bytes, its result, and what entered the pipe. -/
structure Written where
  wanted : List UInt8
  ret : Int
  entered : List UInt8

structure ReadCall where
  /-- What the cage's buffer, or the segments, hold when the call starts. -/
  segments : List (List UInt8)
  /-- Whether the pipe copies to the cage itself. -/
  direct : Bool
  nonblocking : Bool
  /-- Whether the turn is in its second half. -/
  popped : Bool

structure Channel (R : Type) where
  pipe : PipeBuffer R
  writer : Option WriteCall
  reader : Option ReadCall
  /-- The bytes the writing calls have counted as written. -/
  accepted : List UInt8
  /-- The bytes the reading calls have returned. -/
  returned : List UInt8
  /-- The finished writing calls, latest first. -/
  written : List Written

inductive Act
  /-- `write` or `sendto` starts. -/
  | write (bytes : List UInt8) (nonblocking : Bool)
  /-- `writev` or `sendmsg` starts. -/
  | writev (segments : List (List UInt8 × Bool)) (nonblocking : Bool)
  | push (copyLeft copyRight : Option (List UInt8))
  | stall (interrupted : Bool)
  /-- `read` or `recvfrom` starts, with a buffer that holds `mem`. -/
  | read (mem : List UInt8) (nonblocking : Bool)
  /-- `readv` or `recvmsg` starts. -/
  | readv (segments : List (List UInt8)) (nonblocking : Bool)
  | pop (okLeft okRight : Bool)
  | popv (oks : List Bool)
  | drain (interrupted : Bool)
  | incrWriteRef
  | decrWriteRef
  | incrReadRef
  | decrReadRef

namespace Channel

variable {R : Type} [RingBuffer R]

def start (capacity : Nat) : Channel R :=
  { pipe := PipeBuffer.new capacity
    writer := none, reader := none, accepted := [], returned := [], written := [] }

variable (c : Channel R)

def endWrite (call : WriteCall) (ret : Int) : Channel R :=
  { c with writer := none, written := ⟨call.wanted, ret, call.entered⟩ :: c.written }

/-- A writing call with something to write starts. It fails right away if no
    read end is left. -/
def beginWrite (call : WriteCall) : Channel R :=
  if call.src = [] then c.endWrite call 0
  else if c.pipe.readRefs = 0 then c.endWrite call (-32)
  else { c with writer := some call }

/-- The first half of a writer's turn. -/
def push (call : WriteCall) (copyLeft copyRight : Option (List UInt8)) :
    Channel R :=
  let r := if call.direct then c.pipe.pushFromCage call.src call.total copyLeft copyRight
    else c.pipe.pushFrom call.src call.total
  let c' := { c with
    pipe := r.2
    accepted := c.accepted ++ (call.wanted.drop call.total).take r.1 }
  let call' := { call with
    total := call.total + r.1
    entered := call.entered ++ (contents r.2.ring).drop (contents c.pipe.ring).length
    pushed := true }
  if call'.src.length ≤ call'.total then c'.endWrite call' (asI32 call'.total)
  else { c' with writer := some call' }

/-- The second half of a writer's turn. -/
def stall (call : WriteCall) (interrupted : Bool) : Channel R :=
  match c.pipe.stalled call.total call.nonblocking interrupted with
  | some ret => c.endWrite call ret
  | none => { c with writer := some { call with pushed := false } }

/-- The reading call ends with the first bytes of its buffers. -/
def endRead (ret : Int) (mem : List UInt8) : Channel R :=
  { c with reader := none, returned := c.returned ++ mem.take ret.toNat }

/-- The first half of a direct reader's turn. -/
def pop (call : ReadCall) (okLeft okRight : Bool) : Channel R :=
  let mem := call.segments.flatten
  let r := c.pipe.popToCage mem mem.length okLeft okRight
  let c' := { c with pipe := r.2.2 }
  if 0 < r.1 then c'.endRead (asI32 r.1) r.2.1
  else { c' with reader := some { call with popped := true } }

/-- The first half of a vectored reader's turn. -/
def popv (call : ReadCall) (oks : List Bool) : Channel R :=
  let r := c.pipe.popTo call.segments.flatten.length
  let c' := { c with pipe := r.2 }
  if 0 < r.1.length then
    c'.endRead (asI32 r.1.length) (scatterBufIntoIov r.1 (call.segments.zip oks)).flatten
  else { c' with reader := some { call with popped := true } }

/-- The second half of a reader's turn. -/
def drain (call : ReadCall) (interrupted : Bool) : Channel R :=
  match c.pipe.drained call.nonblocking interrupted with
  | some ret => c.endRead ret []
  | none => { c with reader := some { call with popped := false } }

/-- What happens next, if it can: a call starts when none is in progress on its
    side, and a call in progress goes through its turns. The buffers the
    vectored calls allocate are, like every allocation, shorter than `2 ^ 31`. -/
def act : Act → Option (Channel R)
  | .write bytes nonblocking =>
    if c.writer.isNone then some (c.beginWrite ⟨bytes, bytes, true, nonblocking, 0, [], false⟩)
    else none
  | .writev segments nonblocking =>
    let src := gatherIovIntoBuf segments
    let call := ⟨segments.flatMap Prod.fst, src, false, nonblocking, 0, [], false⟩
    if c.writer.isNone ∧ src.length < 2 ^ 31 then
      some (if maxIov < segments.length then c.endWrite call (-22) else c.beginWrite call)
    else none
  | .push copyLeft copyRight =>
    match c.writer with
    | some call => if call.pushed then none else some (c.push call copyLeft copyRight)
    | none => none
  | .stall interrupted =>
    match c.writer with
    | some call => if call.pushed then some (c.stall call interrupted) else none
    | none => none
  | .read mem nonblocking =>
    if c.reader.isNone then
      if mem = [] then some (c.endRead 0 [])
      else some { c with reader := some ⟨[mem], true, nonblocking, false⟩ }
    else none
  | .readv segments nonblocking =>
    if c.reader.isNone ∧ segments.flatten.length < 2 ^ 31 then
      if maxIov < segments.length then some (c.endRead (-22) [])
      else if segments.flatten = [] then some (c.endRead 0 [])
      else some { c with reader := some ⟨segments, false, nonblocking, false⟩ }
    else none
  | .pop okLeft okRight =>
    match c.reader with
    | some call => if call.direct ∧ ¬ call.popped then some (c.pop call okLeft okRight) else none
    | none => none
  | .popv oks =>
    match c.reader with
    | some call =>
      if ¬ call.direct ∧ ¬ call.popped ∧ oks.length = call.segments.length then
        some (c.popv call oks)
      else none
    | none => none
  | .drain interrupted =>
    match c.reader with
    | some call => if call.popped then some (c.drain call interrupted) else none
    | none => none
  | .incrWriteRef => some { c with pipe := c.pipe.incrWriteRef }
  | .decrWriteRef => some { c with pipe := c.pipe.decrWriteRef }
  | .incrReadRef => some { c with pipe := c.pipe.incrReadRef }
  | .decrReadRef => some { c with pipe := c.pipe.decrReadRef }

end Channel

end LindGrates.Ipc
