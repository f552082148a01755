import LindGrates.Base.Loop
import LindGrates.Core.Imfs.Node

/-!
# In-Memory Filesystem State

The two free lists are used as stacks only, and are kept with the top first. The
per-descriptor records sit behind an `Arc<Mutex<..>>` that several table entries
may share, so the table maps a descriptor to a handle and the records live in a
list indexed by handle; a handle is never reused, which is what pointer identity
amounts to here.

Out-of-range indexing panics in Rust. Every index the program stores was handed
out by one of the arenas, and no arena shrinks, so reads go through `getD` with
a free slot as the default and the default is never read in a state the program
reaches (`Theory.Imfs.Range`).

## Main definitions

* `ImfsState`: The state of `imfs/mod.rs`.
* `unlinkNode`, `dropIfUnlinked`: When a node is freed.
* `init`: A root directory holding `.` and `..`.
-/

namespace LindGrates.Imfs

structure Arena where
  chunks : List Chunk
  chunkFreeList : List Nat

/-- The record behind one descriptor: its open flags and its position. The
    flags are stored as `u64` and read back as `i32`, which keeps all bits. -/
structure FDInfo where
  flags : BitVec 32
  offset : Int
  deriving DecidableEq, Repr

structure ImfsState extends Arena where
  nodes : List Node
  nodeFreeList : List Nat
  rootIdx : Nat
  /-- The handle of the record of each `(cage, fd)`. -/
  fdInfo : Nat × Nat → Option Nat
  /-- The records themselves, by handle. -/
  arcs : List FDInfo
  /-- The working directory of each cage. -/
  cwdInfo : Nat → Option Str

/-- What reading past the end of the node arena would give. -/
def Node.vacant : Node :=
  Node.new [] .free 0

namespace Arena

def chunk (a : Arena) (i : Nat) : Chunk :=
  a.chunks.getD i Chunk.new

def modifyChunk (a : Arena) (i : Nat) (f : Chunk → Chunk) : Arena :=
  { a with chunks := a.chunks.modify i f }

def allocChunk (a : Arena) : Nat × Arena :=
  match a.chunkFreeList with
  | freeIdx :: rest =>
    (freeIdx, { chunks := a.chunks.set freeIdx Chunk.new, chunkFreeList := rest })
  | [] => (a.chunks.length, { a with chunks := a.chunks ++ [Chunk.new] })

def reclaimChunk (a : Arena) (i : Nat) : Arena :=
  { chunks := a.chunks.set i Chunk.new, chunkFreeList := i :: a.chunkFreeList }

def reclaimPass : Option Nat × Arena → Pass (Option Nat × Arena) Arena
  | (none, a) => .leave a
  | (some ci, a) => .again ((a.chunk ci).next, a.reclaimChunk ci)

/-- Return a whole chain of chunks to the free list. A cleared chunk has no
    successor, so the walk meets each chunk at most once, and a cleared one at
    most once more. -/
def reclaimChunkChain (a : Arena) (chunkIdx : Option Nat) : Outcome Arena :=
  okOr .hang (loop reclaimPass (2 * a.chunks.length + 2) (chunkIdx, a))

end Arena

namespace ImfsState

variable (s : ImfsState)

def node (i : Nat) : Node :=
  s.nodes.getD i Node.vacant

def modifyNode (i : Nat) (f : Node → Node) : ImfsState :=
  { s with nodes := s.nodes.modify i f }

def arc (h : Nat) : FDInfo :=
  s.arcs.getD h { flags := 0, offset := 0 }

def newArc (info : FDInfo) : Nat × ImfsState :=
  (s.arcs.length, { s with arcs := s.arcs ++ [info] })

def insertFdInfo (cage fd handle : Nat) : ImfsState :=
  { s with fdInfo := fun k => if k = (cage, fd) then some handle else s.fdInfo k }

def removeFdInfo (cage fd : Nat) : ImfsState :=
  { s with fdInfo := fun k => if k = (cage, fd) then none else s.fdInfo k }

def insertCwd (cage : Nat) (path : Str) : ImfsState :=
  { s with cwdInfo := fun c => if c = cage then some path else s.cwdInfo c }

def updateAtime (i : Nat) : ImfsState :=
  s.modifyNode i fun n => { n with atime := .now }

def updateMtime (i : Nat) : ImfsState :=
  s.modifyNode i fun n => { n with mtime := .now }

def updateCtime (i : Nat) : ImfsState :=
  s.modifyNode i fun n => { n with ctime := .now }

def createNode (name : Str) (nodeType : NodeType) (mode : BitVec 32) :
    Nat × ImfsState :=
  match s.nodeFreeList with
  | freeIdx :: rest =>
    (freeIdx, { s with
      nodes := s.nodes.set freeIdx (Node.new name nodeType mode)
      nodeFreeList := rest })
  | [] => (s.nodes.length, { s with nodes := s.nodes ++ [Node.new name nodeType mode] })

def addChild (parentIdx childIdx : Nat) : Outcome ImfsState :=
  match (s.node parentIdx).children? with
  | none => .error .panic
  | some children =>
    .ok ((s.modifyNode parentIdx fun n =>
        { n with info := .dir (children ++ [⟨(s.node childIdx).name, childIdx⟩]) }).modifyNode
      childIdx fun n => { n with parentIdx := parentIdx })

def removeChild (nodeIdx : Nat) : Outcome ImfsState :=
  let parentIdx := (s.node nodeIdx).parentIdx
  let name := (s.node nodeIdx).name
  match (s.node parentIdx).children? with
  | none => .error .panic
  | some children =>
    .ok (s.modifyNode parentIdx fun n =>
      { n with info := .dir (children.filter fun e => e.name ≠ name) })

/-- The head of the chunk chain a slot owns; `reclaim_node` takes it away. -/
def chunkHead (i : Nat) : Option Nat :=
  match (s.node i).info with
  | .reg head _ => head
  | _ => none

def reclaimNode (idx : Nat) : Outcome ImfsState := do
  let a ← s.toArena.reclaimChunkChain (s.chunkHead idx)
  return { (s.modifyNode idx fun n => { n with info := .free }) with
    toArena := a
    nodeFreeList := idx :: s.nodeFreeList }

def allEntries : List DirEntry :=
  s.nodes.flatMap fun n => n.children?.getD []

/-- The number of links to a node. For a directory this is counted from its
    own entries, for anything else by scanning every directory. -/
def linkCount (nodeIdx : Nat) : Nat :=
  match (s.node nodeIdx).info with
  | .dir children =>
    2 + ((children.filter fun e => e.name ≠ ['.'] ∧ e.name ≠ ['.', '.']).filter
      fun e => (s.node e.nodeIdx).nodeType = .dir).length
  | _ =>
    (s.allEntries.filter fun e =>
      e.nodeIdx = nodeIdx ∨ (s.node e.nodeIdx).info = .hardLink nodeIdx).length

/-- Doom a node that has lost its last link, and free it unless it is open. -/
def dropIfUnlinked (nodeIdx : Nat) : Outcome ImfsState :=
  if s.linkCount nodeIdx = 0 then
    let s := s.modifyNode nodeIdx fun n => { n with doomed := true }
    if (s.node nodeIdx).inUse = 0 then s.reclaimNode nodeIdx else .ok s
  else .ok s

/-- Called after a node's directory entry is gone. A hard link is freed at
    once, its target when that was the last link. -/
def unlinkNode (nodeIdx : Nat) : Outcome ImfsState :=
  match (s.node nodeIdx).info with
  | .hardLink target => do
    let s := s.updateCtime target
    let s ← s.dropIfUnlinked target
    s.reclaimNode nodeIdx
  | _ => s.dropIfUnlinked nodeIdx

def setHardLink (idx target : Nat) : ImfsState :=
  s.modifyNode idx fun n => { n with info := .hardLink target }

def addDots (dirIdx parentIdx : Nat) : Outcome ImfsState := do
  let (dotIdx, s) := s.createNode ['.'] .lnk 0
  let s := s.setHardLink dotIdx dirIdx
  let s ← s.addChild dirIdx dotIdx
  let (dotdotIdx, s) := s.createNode ['.', '.'] .lnk 0
  let s := s.setHardLink dotdotIdx parentIdx
  s.addChild dirIdx dotdotIdx

end ImfsState

def emptyState : ImfsState :=
  { chunks := []
    chunkFreeList := []
    nodes := []
    nodeFreeList := []
    rootIdx := 0
    fdInfo := fun _ => none
    arcs := []
    cwdInfo := fun c => if c = 0 then some ['/'] else none }

/-- `init`: a root directory holding `.` and `..`. -/
def init : Outcome ImfsState := do
  let (rootIdx, s) := emptyState.createNode ['/'] .dir 0o755
  let s := s.modifyNode rootIdx fun n => { n with parentIdx := rootIdx }
  ({ s with rootIdx := rootIdx }).addDots rootIdx rootIdx

end LindGrates.Imfs
