import LindGrates.Core.Rust
import LindGrates.Core.RingBuffer

/-!
# Pipes

A ring buffer of bytes, a counter of descriptors for each end and a flag that is set
when the last write end goes away. The counters are `AtomicU32` and wrap.

Reading and writing are loops that try, check why nothing happened and sleep.
What such a loop does between two sleeps is one turn, and a turn is two halves
with other threads running in between: moving bytes, and looking at the flags.
A turn either gives the call's result or lets the loop go on. The sleep is the
only place where a signal is noticed, so a turn is told whether one arrives.

The bytes come from a slice of the grate's own memory, or straight from the
memory of the calling cage, in two copies when the free slots wrap around. The
result of a copy is not looked at. A copy that fails leaves in the slots what
was there before, and the slots count as filled all the same; a copy out of the
pipe that fails leaves the cage's buffer as it was.

## Main definitions

* `PipeBuffer`: A pipe.
* `pushFrom`, `pushFromCage`, `popTo`, `popToCage`: The first half of a turn.
* `stalled`, `drained`: The second half.
-/

namespace LindGrates.Ipc

open RingBuffer

/-- `fetch_add(1)` on a `u32`. -/
def succU32 (n : Nat) : Nat :=
  if n = 2 ^ 32 - 1 then 0 else n + 1

/-- `fetch_sub(1)` on a `u32`. -/
def predU32 (n : Nat) : Nat :=
  if n = 0 then 2 ^ 32 - 1 else n - 1

structure PipeBuffer (R : Type) where
  ring : R
  writeRefs : Nat
  readRefs : Nat
  eof : Bool

namespace PipeBuffer

variable {R : Type} (p : PipeBuffer R)

def incrWriteRef : PipeBuffer R :=
  { p with writeRefs := succU32 p.writeRefs }

/-- Count one write end less. The last one sets the end-of-file flag. -/
def decrWriteRef : PipeBuffer R :=
  { p with
    writeRefs := predU32 p.writeRefs
    eof := if p.writeRefs = 1 then true else p.eof }

def incrReadRef : PipeBuffer R :=
  { p with readRefs := succU32 p.readRefs }

def decrReadRef : PipeBuffer R :=
  { p with readRefs := predU32 p.readRefs }

variable [RingBuffer R]

def new (capacity : Nat) : PipeBuffer R :=
  { ring := RingBuffer.new capacity, writeRefs := 1, readRefs := 1, eof := false }

def hasData : Bool :=
  !isEmpty p.ring

def hasSpace : Bool :=
  !isFull p.ring

/-- What the slots a copy was meant to fill hold afterwards: the bytes, or what
    was there before if the copy failed. -/
def landed (bytes : List UInt8) : Option (List UInt8) → List UInt8
  | none => bytes
  | some stale => (stale ++ List.replicate bytes.length 0).take bytes.length

/-- `write`: push what is left of the slice. -/
def pushFrom (src : List UInt8) (total : Nat) : Nat × PipeBuffer R :=
  let r := pushSlice p.ring (src.drop total)
  (r.1, { p with ring := r.2 })

/-- `write_from_cage`: copy what is left of the cage's buffer into the free
    slots, first those up to the end of the storage and then those behind the
    wrap. -/
def pushFromCage (src : List UInt8) (total : Nat)
    (copyLeft copyRight : Option (List UInt8)) : Nat × PipeBuffer R :=
  let want := src.length - total
  let r := pushAccess p.ring fun left right =>
    let nLeft := min want left
    let nRight := min (want - nLeft) right
    landed ((src.drop total).take nLeft) copyLeft ++
      landed ((src.drop (total + nLeft)).take nRight) copyRight
  (r.1, { p with ring := r.2 })

def stalled (total : Nat) (nonblocking interrupted : Bool) : Option Int :=
  if p.readRefs = 0 then some (-32)
  else if nonblocking then some (if 0 < total then asI32 total else -11)
  else if interrupted then some (if 0 < total then asI32 total else -4)
  else none

/-- `read`: pop into a slice. -/
def popTo (count : Nat) : List UInt8 × PipeBuffer R :=
  let r := popSlice p.ring count
  (r.1, { p with ring := r.2 })

/-- The buffer `mem` with `bytes` copied to the position `off`. -/
def overlay (mem : List UInt8) (off : Nat) (bytes : List UInt8) : List UInt8 :=
  mem.take off ++ bytes ++ mem.drop (off + bytes.length)

/-- `read_to_cage`: the number of bytes popped, what the cage's buffer holds
    then, and the pipe. The copies succeed or fail one by one. -/
def popToCage (mem : List UInt8) (count : Nat) (okLeft okRight : Bool) :
    Nat × List UInt8 × PipeBuffer R :=
  let left := (occupied p.ring).1
  let right := (occupied p.ring).2
  let nLeft := min count left.length
  let nRight := min (count - nLeft) right.length
  let mem := if okLeft then overlay mem 0 (left.take nLeft) else mem
  let mem := if okRight then overlay mem nLeft (right.take nRight) else mem
  let r := popAccess p.ring fun left right =>
    let nLeft := min count left.length
    nLeft + min (count - nLeft) right.length
  (r.1, mem, { p with ring := r.2 })

def drained (nonblocking interrupted : Bool) : Option Int :=
  if p.eof then some 0
  else if nonblocking then some (-11)
  else if interrupted then some (-4)
  else none

end PipeBuffer

end LindGrates.Ipc
