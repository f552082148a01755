import LindGrates.Core.FdTables
import LindGrates.Core.Imfs.Data
import LindGrates.Core.Imfs.Path

/-!
# Descriptors

`fdtables` maps a descriptor to a node index, and the filesystem's own table maps it
to a record with the open flags and the position. A duplicate or a forked descriptor
shares the record. The node counts how many descriptors are open on it, so a
node whose last link is gone can be kept until the last of them is closed.

## Main definitions

* `World`: The filesystem and the descriptor tables.
* `openResolvedPath`, `dup`, `close`, `readData`, `write`: Calls that create, use and drop
  descriptors.
* `forkHook`, `execHook`, `preexec`: The hooks that touch the tables directly.
-/

namespace LindGrates.Imfs

open FdTables

structure World (T : Type) where
  fs : ImfsState
  fds : T

abbrev Reply (T : Type) := Int × World T

def oRdonly : BitVec 32 := 0#32
def oWronly : BitVec 32 := 1#32
def oRdwr : BitVec 32 := 2#32
def oAccmode : BitVec 32 := 3#32
def oCreat : BitVec 32 := 0o100#32
def oExcl : BitVec 32 := 0o200#32
def oTrunc : BitVec 32 := 0o1000#32
def oAppend : BitVec 32 := 0o2000#32
def oDirectory : BitVec 32 := 0o200000#32
def oCloexec : BitVec 32 := 0o2000000#32
def sIrusr : BitVec 32 := 0o400#32
def sIwusr : BitVec 32 := 0o200#32

def has (flags bit : BitVec 32) : Bool :=
  flags &&& bit ≠ 0#32

def imfsFdkind : Nat := 1

def imfsEntry (nodeIdx : Nat) (cloexec : Bool) : FDTableEntry :=
  { fdkind := imfsFdkind, underfd := nodeIdx, shouldCloexec := cloexec, perfdinfo := 0 }

namespace ImfsState

variable (s : ImfsState)

def incInUse (i : Nat) : ImfsState :=
  s.modifyNode i fun n => { n with inUse := n.inUse + 1 }

def decInUse (i : Nat) : ImfsState :=
  s.modifyNode i fun n => { n with inUse := n.inUse - 1 }

/-- Count one more end of a pipe, chosen by the access mode. -/
def countPipeEnd (i : Nat) (flags : BitVec 32) : ImfsState :=
  s.modifyNode i fun n => match n.info with
    | .pip data readers writers =>
      if flags &&& oAccmode = oWronly then { n with info := .pip data readers (writers + 1) }
      else { n with info := .pip data (readers + 1) writers }
    | _ => n

/-- `get_offset`; a missing record is an `unwrap` on `None`. -/
def getOffset (cage fd : Nat) : Outcome Int :=
  match s.fdInfo (cage, fd) with
  | none => .error .panic
  | some h => .ok (s.arc h).offset

/-- `set_offset`, through the shared record. -/
def setOffset (cage fd : Nat) (offset : Int) : Outcome ImfsState :=
  match s.fdInfo (cage, fd) with
  | none => .error .panic
  | some h => .ok { s with arcs := s.arcs.modify h fun r => { r with offset := offset } }

def insertPerfdinfo (cage fd : Nat) (flags : BitVec 32) : ImfsState :=
  let (h, s) := s.newArc { flags := flags, offset := 0 }
  s.insertFdInfo cage fd h

def permits (mode flags : BitVec 32) : Bool :=
  if flags &&& oAccmode = oRdonly then has mode sIrusr
  else if flags &&& oAccmode = oWronly then has mode sIwusr
  else if flags &&& oAccmode = oRdwr then has mode sIrusr && has mode sIwusr
  else true

def openExisting (idx : Nat) (flags : BitVec 32) :
    Outcome (Except Int (Nat × ImfsState)) :=
  if has flags oExcl ∧ has flags oCreat then .ok (.error (-17))
  else if has flags oDirectory ∧ (s.node idx).nodeType ≠ .dir then .ok (.error (-20))
  else if (s.node idx).nodeType = .dir ∧
      (flags &&& oAccmode = oWronly ∨ flags &&& oAccmode = oRdwr) then .ok (.error (-21))
  else if permits (s.node idx).mode flags = false then .ok (.error (-13))
  else if (s.node idx).nodeType = .reg ∧ has flags oTrunc ∧ flags &&& oAccmode ≠ oRdonly then do
    let s ← s.truncateNode idx 0
    return .ok (idx, (s.updateMtime idx).updateCtime idx)
  else .ok (.ok (idx, s))

def openCreate (normPath : Str) (flags mode : BitVec 32) :
    Outcome (Except Int (Nat × ImfsState)) :=
  if has flags oCreat = false then .ok (.error (-2))
  else do
    match ← s.resolveParentAndName normPath with
    | .error e => return .error e
    | .ok (parentIdx, filename) =>
      if filename.len ≥ maxNodeName then return .error (-36)
      else
        let (newIdx, s) := s.createNode filename .reg mode
        let s ← s.addChild parentIdx newIdx
        let s := (s.updateMtime parentIdx).updateCtime parentIdx
        return .ok (newIdx, (s.updateMtime newIdx).updateCtime newIdx)

/-- The node an `open` refers to. Any failure to resolve the path counts as
    the path not existing. -/
def openTarget (normPath : Str) (flags mode : BitVec 32) :
    Outcome (Except Int (Nat × ImfsState)) := do
  match ← s.resolvePath normPath true with
  | .ok idx => s.openExisting idx flags
  | .error _ => s.openCreate normPath flags mode

/-- `ImfsState::fork`: the child shares the parent's records. -/
def fork (parentCage childCage : Nat) : ImfsState :=
  { s with
    fdInfo := fun k =>
      if k.1 = childCage then (s.fdInfo (parentCage, k.2)).orElse fun _ => s.fdInfo k
      else s.fdInfo k
    cwdInfo := fun c =>
      if c = childCage then (s.cwdInfo parentCage).orElse fun _ => s.cwdInfo c
      else s.cwdInfo c }

end ImfsState

namespace World

variable {T : Type} [FdTables T] (w : World T)

def reply (ret : Int) (fs : ImfsState) : Outcome (Reply T) :=
  .ok (ret, { w with fs := fs })

/-- A reply that changes nothing. -/
def fail (code : Int) : Outcome (Reply T) :=
  .ok (code, w)

def normalizePathAt (cageId : Nat) (dirfd : Int) (path : Str) :
    Outcome (Except Int Str) :=
  if path.isAbsolute ∨ dirfd = -100 then .ok (.ok (w.fs.normalizePathForCage cageId path))
  else match translateVirtualFd w.fds cageId (asU64 dirfd) with
    | none => .ok (.error (-9))
    | some entry => do
      let nodeIdx ← w.fs.followHardLinks entry.underfd
      if (w.fs.node nodeIdx).nodeType ≠ .dir then return .error (-20)
      else
        let base ← w.fs.absolutePathForNode nodeIdx
        return .ok (w.fs.normalizePathForCage cageId (base ++ '/' :: path))

/-- `get_node_and_flags`; a missing record is an `unwrap` on `None`. -/
def getNodeAndFlags (cageId fd : Nat) :
    Outcome (Except Int (Nat × BitVec 32)) :=
  match translateVirtualFd w.fds cageId fd with
  | none => .ok (.error (-9))
  | some entry => match w.fs.fdInfo (cageId, fd) with
    | none => .error .panic
    | some h => do
      let idx ← w.fs.followHardLinks entry.underfd
      return .ok (idx, (w.fs.arc h).flags)

/-- `open_resolved_path`. The node is created or truncated before the
    descriptor is allocated. -/
def openResolvedPath (cageId : Nat) (normPath : Str) (flags mode : BitVec 32) :
    Outcome (Reply T) := do
  match ← w.fs.openTarget normPath flags mode with
  | .error e => w.fail e
  | .ok (nodeIdx, fs) =>
    let fs := fs.incInUse nodeIdx
    match getUnusedVirtualFd w.fds cageId (imfsEntry nodeIdx false) with
    | some (vfd, fds) =>
      return (asI32 vfd, { fs := fs.insertPerfdinfo cageId vfd flags, fds := fds })
    | none => w.reply (-24) (fs.decInUse nodeIdx)

def openPath (cageId : Nat) (path : Str) (flags mode : BitVec 32) :
    Outcome (Reply T) :=
  w.openResolvedPath cageId (w.fs.normalizePathForCage cageId path) flags mode

def openat (cageId : Nat) (dirfd : Int) (path : Str) (flags mode : BitVec 32) :
    Outcome (Reply T) := do
  match ← w.normalizePathAt cageId dirfd path with
  | .error e => w.fail e
  | .ok normPath => w.openResolvedPath cageId normPath flags mode

def dropReference (s : ImfsState) (nodeIdx : Nat) : Outcome ImfsState :=
  if nodeIdx < s.nodes.length then
    let s := s.decInUse nodeIdx
    if (s.node nodeIdx).doomed ∧ (s.node nodeIdx).inUse = 0 then s.reclaimNode nodeIdx
    else .ok s
  else .ok s

def dropDescriptor (cageId fd : Nat) : Outcome ImfsState :=
  match translateVirtualFd w.fds cageId fd with
  | some entry => dropReference w.fs entry.underfd
  | none => .ok w.fs

def close (cageId fd : Nat) : Outcome (Reply T) := do
  let fs ← w.dropDescriptor cageId fd
  let fs := fs.removeFdInfo cageId fd
  match closeVirtualfd w.fds cageId fd with
  | some fds => return (0, { fs := fs, fds := fds })
  | none => w.reply (-9) fs

/-- A descriptor that can be duplicated: its entry, the handle of its record
    and the node it is open on. -/
def dupSource (cageId oldfd : Nat) : Option (FDTableEntry × Nat) :=
  match translateVirtualFd w.fds cageId oldfd, w.fs.fdInfo (cageId, oldfd) with
  | some entry, some h => some (entry, h)
  | _, _ => none

def attachDup (cageId newfd nodeIdx h : Nat) (fds : T) : Outcome (Reply T) :=
  .ok (asI32 newfd, { fs := (w.fs.incInUse nodeIdx).insertFdInfo cageId newfd h, fds := fds })

/-- `dup`. The pipe ends are counted before the descriptor is allocated. -/
def dup (cageId oldfd : Nat) : Outcome (Reply T) :=
  match w.dupSource cageId oldfd with
  | none => w.fail (-9)
  | some (entry, h) =>
    if entry.underfd ≥ w.fs.nodes.length then w.fail (-9)
    else
      let w := { w with fs := w.fs.countPipeEnd entry.underfd (w.fs.arc h).flags }
      match getUnusedVirtualFd w.fds cageId (imfsEntry entry.underfd false) with
      | some (newfd, fds) => w.attachDup cageId newfd entry.underfd h fds
      | none => w.fail (-24)

def closeTarget (cageId newfd : Nat) : Outcome (Reply T) :=
  if (translateVirtualFd w.fds cageId newfd).isSome then w.close cageId newfd else w.fail 0

/-- `dup2`, also behind `dup3`. An open target is closed first. -/
def dup2 (cageId oldfd newfd : Nat) (cloexec : Bool) : Outcome (Reply T) :=
  match w.dupSource cageId oldfd with
  | none => w.fail (-9)
  | some (entry, h) =>
    if oldfd = newfd then w.fail (asI32 newfd)
    else if entry.underfd ≥ w.fs.nodes.length then w.fail (-9)
    else do
      let (closeRet, w) ← w.closeTarget cageId newfd
      if closeRet ≠ 0 then w.fail closeRet
      else match getSpecificVirtualFd w.fds cageId newfd (imfsEntry entry.underfd cloexec) with
        | some fds =>
          let w := { w with fs := w.fs.countPipeEnd entry.underfd (w.fs.arc h).flags }
          w.attachDup cageId newfd entry.underfd h fds
        | none => w.fail (-24)

/-- `dup_from_startfd`, behind the two duplicating `fcntl` commands. -/
def dupFromStartfd (cageId oldfd : Nat) (startfd : Int) (cloexec : Bool) :
    Outcome (Reply T) :=
  if startfd < 0 then w.fail (-22)
  else match w.dupSource cageId oldfd with
    | none => w.fail (-9)
    | some (entry, h) =>
      if entry.underfd ≥ w.fs.nodes.length then w.fail (-9)
      else match getUnusedVirtualFdFromStartfd w.fds cageId (imfsEntry entry.underfd cloexec)
          startfd.toNat with
        | some (newfd, fds) =>
          let w := { w with fs := w.fs.countPipeEnd entry.underfd (w.fs.arc h).flags }
          w.attachDup cageId newfd entry.underfd h fds
        | none => w.fail (-24)

def dup3 (cageId oldfd newfd : Nat) (flags : BitVec 32) : Outcome (Reply T) :=
  if oldfd = newfd then w.fail (-22)
  else w.dup2 cageId oldfd newfd (has flags oCloexec)

def fcntl (cageId fd : Nat) (op arg : Int) : Outcome (Reply T) :=
  if op = 0 then w.dupFromStartfd cageId fd arg false
  else if op = 1030 then w.dupFromStartfd cageId fd arg true
  else if op = 1 then
    match translateVirtualFd w.fds cageId fd with
    | some entry => w.fail (if entry.shouldCloexec then 1 else 0)
    | none => w.fail (-9)
  else if op = 2 then
    match setCloexec w.fds cageId fd (arg % 2 = 1) with
    | some fds => .ok (0, { w with fds := fds })
    | none => w.fail (-9)
  else if op = 3 then
    match w.fs.fdInfo (cageId, fd) with
    | some h => w.fail (w.fs.arc h).flags.toInt
    | none => w.fail (-9)
  else w.fail (-1)

/-- `read`. The second component is the part of the buffer that was filled. -/
def readData (cageId fd len : Nat) : Outcome (Int × List UInt8 × World T) := do
  match ← w.getNodeAndFlags cageId fd with
  | .error e => return (e, [], w)
  | .ok (nodeIdx, flags) =>
    if (w.fs.node nodeIdx).nodeType ≠ .reg then return (-9, [], w)
    else if flags &&& oAccmode = oWronly then return (-9, [], w)
    else
      let offset ← w.fs.getOffset cageId fd
      let out ← w.fs.readFromNode nodeIdx (asUsize offset) len
      let fs := if out.length > 0 then w.fs.updateAtime nodeIdx else w.fs
      let fs ← fs.setOffset cageId fd (wrapI64 (offset + out.length))
      return (asI32 out.length, out, { w with fs := fs })

def read (cageId fd len : Nat) : Outcome (Reply T) := do
  let (ret, _, w) ← w.readData cageId fd len
  return (ret, w)

def pread (cageId fd len : Nat) (offset : Int) : Outcome (Reply T) :=
  if offset < 0 then w.fail (-22)
  else do
    match ← w.getNodeAndFlags cageId fd with
    | .error e => w.fail e
    | .ok (nodeIdx, flags) =>
      if (w.fs.node nodeIdx).nodeType ≠ .reg then w.fail (-9)
      else if flags &&& oAccmode = oWronly then w.fail (-9)
      else
        let out ← w.fs.readFromNode nodeIdx (asUsize offset) len
        w.reply (asI32 out.length)
          (if out.length > 0 then w.fs.updateAtime nodeIdx else w.fs)

/-- Record that a write changed a file. -/
def touchWritten (s : ImfsState) (nodeIdx n : Nat) : ImfsState :=
  if n > 0 then (s.updateMtime nodeIdx).updateCtime nodeIdx else s

def writeOffset (cageId fd nodeIdx : Nat) (flags : BitVec 32) : Outcome Int :=
  if has flags oAppend then .ok (w.fs.node nodeIdx).totalSize
  else w.fs.getOffset cageId fd

def write (cageId fd : Nat) (buf : Slice) : Outcome (Reply T) := do
  match ← w.getNodeAndFlags cageId fd with
  | .error e => w.fail e
  | .ok (nodeIdx, flags) =>
    if (w.fs.node nodeIdx).nodeType ≠ .reg then w.fail (-9)
    else if flags &&& oAccmode = oRdonly then w.fail (-9)
    else
      let offset ← w.writeOffset cageId fd nodeIdx flags
      let (n, fs) ← w.fs.writeToNode nodeIdx (asUsize offset) buf.bytes
      let fs ← (touchWritten fs nodeIdx n).setOffset cageId fd (wrapI64 (offset + n))
      w.reply (asI32 n) fs

def pwrite (cageId fd : Nat) (buf : Slice) (offset : Int) : Outcome (Reply T) :=
  if offset < 0 then w.fail (-22)
  else do
    match ← w.getNodeAndFlags cageId fd with
    | .error e => w.fail e
    | .ok (nodeIdx, flags) =>
      if (w.fs.node nodeIdx).nodeType ≠ .reg then w.fail (-9)
      else if flags &&& oAccmode = oRdonly then w.fail (-9)
      else
        let (n, fs) ← w.fs.writeToNode nodeIdx (asUsize offset) buf.bytes
        w.reply (asI32 n) (touchWritten fs nodeIdx n)

def seekTarget (current size offset whence : Int) : Option Int :=
  if whence = 0 then some offset
  else if whence = 1 then some (wrapI64 (current + offset))
  else if whence = 2 then some (wrapI64 (size + offset))
  else none

def lseek (cageId fd : Nat) (offset whence : Int) : Outcome (Reply T) := do
  match ← w.getNodeAndFlags cageId fd with
  | .error e => w.fail e
  | .ok (nodeIdx, _) =>
    match (w.fs.node nodeIdx).nodeType with
    | .pip => w.fail (-29)
    | .dir => w.fail (asI32 offset)
    | .reg =>
      let current ← w.fs.getOffset cageId fd
      match seekTarget current (w.fs.node nodeIdx).totalSize offset whence with
      | none => w.fail (-22)
      | some newOffset =>
        if newOffset < 0 then w.fail (-22)
        else
          let fs ← w.fs.setOffset cageId fd newOffset
          w.reply (asI32 newOffset) fs
    | _ => w.fail (-9)

def truncateFile (nodeIdx : Nat) (length : Int) : Outcome (Reply T) :=
  match (w.fs.node nodeIdx).nodeType with
  | .reg => do
    let fs ← w.fs.truncateNode nodeIdx (asUsize length)
    w.reply 0 ((fs.updateMtime nodeIdx).updateCtime nodeIdx)
  | .dir => w.fail (-21)
  | _ => w.fail (-22)

def ftruncate (cageId fd : Nat) (length : Int) : Outcome (Reply T) :=
  if length < 0 then w.fail (-22)
  else do
    match ← w.getNodeAndFlags cageId fd with
    | .error e => w.fail e
    | .ok (nodeIdx, flags) =>
      if flags &&& oAccmode = oRdonly then w.fail (-9)
      else w.truncateFile nodeIdx length

/-- The body of `fork_handler` once the runtime has made the child cage. A new
    thread shares its cage's tables and changes nothing. -/
def forkHook (parentCage childCage : Nat) (isThread : Bool) : Outcome (Reply T) :=
  if isThread then w.fail (asI32 childCage)
  else .ok (asI32 childCage,
    { fs := w.fs.fork parentCage childCage
      fds := copyFdtableForCage w.fds parentCage childCage })

def reserveFd (fds : T) (cageId : Nat) : T :=
  match getUnusedVirtualFd fds cageId (imfsEntry 0 false) with
  | some (_, fds) => fds
  | none => fds

/-- The body of `exec_handler` before the call is forwarded; `ret` is what the
    runtime then answers. -/
def execHook (cageId : Nat) (ret : Int) : Outcome (Reply T) :=
  let fds := if checkCageExists w.fds cageId then w.fds else initEmptyCage w.fds cageId
  let fds := emptyFdsForExec fds cageId
  let fds := reserveFd (reserveFd (reserveFd fds cageId) cageId) cageId
  .ok (ret, { w with fds := fds })

def preexecFd (cageId fd : Nat) : World T :=
  { fs := w.fs.insertPerfdinfo cageId fd oRdwr
    fds := (getSpecificVirtualFd w.fds cageId fd (imfsEntry 0 false)).getD w.fds }

/-- The `preexec` hook of `main`. Giving a cage a second table panics. -/
def preexec (cageId : Nat) : Outcome (Reply T) :=
  if checkCageExists w.fds cageId then .error .panic
  else
    let w : World T := { fs := w.fs.insertCwd cageId ['/'], fds := initEmptyCage w.fds cageId }
    .ok (0, ((w.preexecFd cageId 0).preexecFd cageId 1).preexecFd cageId 2)

end World

end LindGrates.Imfs
