import LindGrates.Core.Rust

/-!
# In-Memory Filesystem Nodes

The types of `imfs/node.rs`. The source stores a node's type beside its type-specific
data. Every place that writes one writes the other to match: `Node::new` picks the
data from the type, `reclaim_node` clears both, and the link calls only ever replace
the data of a `Lnk` node by another kind of link. The model keeps the data and reads
the type off it, so a node whose two fields disagree cannot be built.

## Main definitions

* `Node`: A node of the tree.
* `Chunk`: 1024 bytes of file data.
-/

namespace LindGrates.Imfs

abbrev chunkSize : Nat := 1024

abbrev maxNodeName : Nat := 65

inductive NodeType
  | reg
  | dir
  | lnk
  | pip
  | free
  deriving DecidableEq, Repr

structure DirEntry where
  name : Str
  nodeIdx : Nat
  deriving DecidableEq, Repr

/-- A time stamp. `NodeTime::now` is the only value the program produces. -/
inductive NodeTime
  | now
  deriving DecidableEq, Repr

inductive NodeInfo
  | reg (head tail : Option Nat)
  | dir (children : List DirEntry)
  | hardLink (target : Nat)
  | symlink (target : Str)
  | pip (data : List UInt8) (readers writers : Nat)
  | free
  deriving DecidableEq, Repr

def NodeInfo.nodeType : NodeInfo → NodeType
  | .reg _ _ => .reg
  | .dir _ => .dir
  | .hardLink _ => .lnk
  | .symlink _ => .lnk
  | .pip _ _ _ => .pip
  | .free => .free

structure Node where
  totalSize : Nat
  name : Str
  parentIdx : Nat
  /-- Number of open file descriptions referencing this node. The source counts in
      a `u32`, which does not overflow: each of them is an entry of a table in
      memory. -/
  inUse : Nat
  /-- Marked for deletion once all references are closed. -/
  doomed : Bool
  mode : BitVec 32
  owner : Nat
  group : Nat
  info : NodeInfo
  ctime : NodeTime
  atime : NodeTime
  mtime : NodeTime
  deriving DecidableEq, Repr

def Node.nodeType (n : Node) : NodeType :=
  n.info.nodeType

def NodeType.modeBits : NodeType → BitVec 32
  | .reg => 0o100000#32
  | .dir => 0o040000#32
  | .lnk => 0o120000#32
  | .pip => 0o010000#32
  | .free => 0#32

/-- The data `Node::new` starts a node of each type with. -/
def NodeType.emptyInfo : NodeType → NodeInfo
  | .reg => .reg none none
  | .dir => .dir []
  | .lnk => .symlink []
  | .pip => .pip [] 0 0
  | .free => .free

def Node.new (name : Str) (nodeType : NodeType) (mode : BitVec 32) : Node :=
  { totalSize := 0
    name := name
    parentIdx := 0
    inUse := 0
    doomed := false
    mode := nodeType.modeBits ||| (mode &&& 0o7777#32)
    owner := 501
    group := 20
    info := nodeType.emptyInfo
    ctime := .now
    atime := .now
    mtime := .now }

/-- The children of a directory; `None` is the `panic!("not a directory")` of
    `children` and `children_mut`. -/
def Node.children? (n : Node) : Option (List DirEntry) :=
  match n.info with
  | .dir children => some children
  | _ => none

def Node.hardlinkTarget (n : Node) : Option Nat :=
  match n.info with
  | .hardLink target => some target
  | _ => none

def Node.symlinkTarget (n : Node) : Option Str :=
  match n.info with
  | .symlink target => some target
  | _ => none

/-- Copy `src` over the elements of `l` from position `off` on. The length of
    `l` never changes: what would land past its end is dropped. -/
def overwrite {α : Type} (l : List α) (off : Nat) (src : List α) : List α :=
  l.take off ++ src.take (l.length - off) ++ l.drop (off + src.length)

@[simp] theorem length_overwrite {α : Type} (l : List α) (off : Nat) (src : List α) :
    (overwrite l off src).length = l.length := by
  simp only [overwrite, List.length_append, List.length_take, List.length_drop]
  omega

structure Chunk where
  data : List UInt8
  used : Nat
  next : Option Nat
  data_length : data.length = chunkSize
  deriving DecidableEq, Repr

def Chunk.new : Chunk :=
  { data := List.replicate chunkSize 0
    used := 0
    next := none
    data_length := List.length_replicate }

/-- `data[off..off + src.len()].copy_from_slice(src)`. -/
def Chunk.copyFromSlice (c : Chunk) (off : Nat) (src : List UInt8) : Chunk :=
  { c with
    data := overwrite c.data off src
    data_length := by rw [length_overwrite, c.data_length] }

def Chunk.fillZero (c : Chunk) (lo hi : Nat) : Chunk :=
  c.copyFromSlice lo (List.replicate (hi - lo) 0)

end LindGrates.Imfs
