import LindGrates.Core.Imfs.State

/-!
# File Data

Reading, writing and truncating a regular file's chain of chunks, loop by loop
as in `imfs/mod.rs`. The loops change chunks, the chunk free list and the two ends,
never another node, so each one runs on an `Arena` together with the ends and its own
variables.

Sizes and positions are natural numbers. In the source they are `usize`, and
`offset + written` could only wrap past the end of the address space once every
byte below it is held by an allocated chunk, which the same address space
cannot hold.

## Main definitions

* `readPass`, `skipFullPass`, `writePass`, `truncPass`: The loop bodies.
* `readFromNode`, `writeToNode`, `truncateNode`: The calls around them.
-/

namespace LindGrates.Imfs

structure Cursor where
  chunkIdx : Option Nat
  localOffset : Nat
  done : Nat

def skipPass (a : Arena) (c : Option Nat × Nat) : Pass (Option Nat × Nat) (Option Nat × Nat) :=
  match c.1 with
  | none => .leave c
  | some ci =>
    if c.2 < chunkSize then .leave c
    else .again ((a.chunk ci).next, c.2 - chunkSize)

/-- One pass of the copying loop of `read_from_node`. The bytes read so far
    stand for the filled part of the caller's buffer. -/
def readPass (a : Arena) (count : Nat) :
    Option Nat × Nat × List UInt8 → Pass (Option Nat × Nat × List UInt8) (List UInt8)
  | (chunkIdx, localOffset, out) =>
    if out.length < count then
      match chunkIdx with
      | none => .leave out
      | some ci =>
        let available := (a.chunk ci).used - localOffset
        let toCopy := min (count - out.length) available
        .again ((a.chunk ci).next, 0,
          out ++ ((a.chunk ci).data.drop localOffset).take toCopy)
    else .leave out

/-- One pass of the loop that skips whole chunks before a write. A skipped
    chunk counts as full from then on. -/
def skipFullPass (c : Option Nat × Nat × Arena) :
    Pass (Option Nat × Nat × Arena) (Option Nat × Nat × Arena) :=
  match c with
  | (none, _, _) => .leave c
  | (some ci, localOffset, a) =>
    if localOffset < chunkSize then .leave c
    else .again ((a.chunk ci).next, localOffset - chunkSize,
      a.modifyChunk ci fun k => { k with used := chunkSize })

structure WriteState where
  arena : Arena
  head : Option Nat
  tail : Option Nat
  cur : Cursor

def WriteState.grow (w : WriteState) : Nat × WriteState :=
  let (newCi, a) := w.arena.allocChunk
  let a := match w.tail with
    | some t => a.modifyChunk t fun k => { k with next := some newCi }
    | none => a
  (newCi, { w with
    arena := a
    head := if w.head = none then some newCi else w.head
    tail := some newCi })

/-- Copy into one chunk: zero the hole below the offset, copy, and raise the
    watermark. -/
def Chunk.fill (k : Chunk) (localOffset : Nat) (bytes : List UInt8) : Chunk :=
  let k := if localOffset > k.used then k.fillZero k.used localOffset else k
  let k := k.copyFromSlice localOffset bytes
  if localOffset + bytes.length > k.used then
    { k with used := localOffset + bytes.length }
  else k

/-- What one pass of the loop of `write_to_node` does to the chunk it is at:
    pass over it whole, or copy as much as fits. -/
def WriteState.writeChunk (w : WriteState) (buf : List UInt8) (ci : Nat) : WriteState :=
  if w.cur.localOffset ≥ chunkSize then
    let a := w.arena.modifyChunk ci fun k => { k with used := chunkSize }
    { w with
      arena := a
      cur := ⟨(a.chunk ci).next, w.cur.localOffset - chunkSize, w.cur.done⟩ }
  else
    let space := chunkSize - w.cur.localOffset
    let toCopy := min (buf.length - w.cur.done) space
    let a := w.arena.modifyChunk ci fun k =>
      k.fill w.cur.localOffset ((buf.drop w.cur.done).take toCopy)
    { w with
      arena := a
      cur := ⟨(a.chunk ci).next, 0, w.cur.done + toCopy⟩ }

def writePass (buf : List UInt8) (w : WriteState) : Pass WriteState WriteState :=
  if w.cur.done < buf.length then
    match w.cur.chunkIdx with
    | some ci => .again (w.writeChunk buf ci)
    | none => .again (w.grow.2.writeChunk buf w.grow.1)
  else .leave w

structure TruncState where
  remaining : Nat
  current : Option Nat
  lastKeep : Option Nat

/-- One pass of the loop of `truncate_node`. It leaves with the chunk the new
    end falls into, or with the last chunk when the chain is shorter. -/
def truncPass (a : Arena) (t : TruncState) : Pass TruncState TruncState :=
  match t.current with
  | none => .leave t
  | some ci =>
    if t.remaining > chunkSize then
      .again ⟨t.remaining - chunkSize, (a.chunk ci).next, some ci⟩
    else .leave t

namespace ImfsState

/-- `read_from_node`. The result is the part of the buffer that was filled. -/
def readFromNode (s : ImfsState) (nodeIdx offset len : Nat) : Outcome (List UInt8) :=
  if offset ≥ (s.node nodeIdx).totalSize then .ok []
  else
    let count := min len ((s.node nodeIdx).totalSize - offset)
    match (s.node nodeIdx).info with
    | .reg head _ => do
      let (chunkIdx, localOffset) ← okOr .hang
        (loop (skipPass s.toArena) (offset / chunkSize + 2) (head, offset))
      okOr .hang (loop (readPass s.toArena count) (s.chunks.length + 2)
        (chunkIdx, localOffset, []))
    | _ => .ok []

def setFile (s : ImfsState) (nodeIdx : Nat) (a : Arena) (head tail : Option Nat)
    (totalSize : Nat) : ImfsState :=
  { (s.modifyNode nodeIdx fun n => { n with
      info := .reg head tail
      totalSize := totalSize }) with toArena := a }

def writeToNode (s : ImfsState) (nodeIdx offset : Nat) (buf : List UInt8) :
    Outcome (Nat × ImfsState) :=
  if buf = [] then .ok (0, s)
  else match (s.node nodeIdx).info with
    | .reg head tail => do
      let (chunkIdx, localOffset, a) ← okOr .hang
        (loop skipFullPass (offset / chunkSize + 2) (head, offset, s.toArena))
      let w ← okOr .hang (loop (writePass buf) (offset / chunkSize + buf.length + 2)
        ⟨a, head, tail, ⟨chunkIdx, localOffset, 0⟩⟩)
      return (w.cur.done, s.setFile nodeIdx w.arena w.head w.tail
        (max (s.node nodeIdx).totalSize (offset + w.cur.done)))
    | _ => .ok (0, s)

def truncateNode (s : ImfsState) (nodeIdx newSize : Nat) : Outcome ImfsState :=
  let oldSize := (s.node nodeIdx).totalSize
  if newSize = oldSize then .ok s
  else if newSize > oldSize then do
    let (_, s) ← s.writeToNode nodeIdx (newSize - 1) [0]
    return s
  else match (s.node nodeIdx).info with
    | .reg head tail =>
      if newSize = 0 then do
        let a ← s.toArena.reclaimChunkChain head
        return s.setFile nodeIdx a none none 0
      else do
        let t ← okOr .hang (loop (truncPass s.toArena) (newSize / chunkSize + 2)
          ⟨newSize, head, none⟩)
        match t.current with
        | some ci =>
          let toReclaim := (s.chunk ci).next
          let a := s.toArena.modifyChunk ci fun k =>
            { k with used := t.remaining, next := none }
          let a ← a.reclaimChunkChain toReclaim
          return s.setFile nodeIdx a head (some ci) newSize
        | none =>
          match t.lastKeep with
          | some ci =>
            let a := s.toArena.modifyChunk ci fun k => { k with next := none }
            return s.setFile nodeIdx a head (some ci) newSize
          | none => return s.setFile nodeIdx s.toArena head tail newSize
    | _ => .ok s

end ImfsState

end LindGrates.Imfs
