import LindGrates.Core.Imfs.Descriptor
import Mathlib.Data.List.DropRight

/-!
# Names

Each creating call has its own test for whether the name is taken. `open`,
`mkdir` and `mknod` resolve the whole path and follow a final symbolic link;
`link`, `symlink` and `rename` do not follow it.

## Main definitions

* `mkdir`, `linkResolvedPaths`, `symlinkResolvedPath`, `rmdirResolvedPath`,
  `renameResolvedPaths`: Calls that change directory entries.
* `chmodNode`, `chownat`, `utimensat`: Calls that change a node.
-/

namespace LindGrates.Imfs

open FdTables

namespace World

variable {T : Type} [FdTables T] (w : World T) (cageId : Nat)

/-- Run a call on a path once it is normalised relative to a directory. -/
def withPathAt (dirfd : Int) (path : Str)
    (k : Str → Outcome (Reply T)) : Outcome (Reply T) := do
  match ← w.normalizePathAt cageId dirfd path with
  | .error e => w.fail e
  | .ok normPath => k normPath

def withNode (w : World T) (normPath : Str) (followFinal : Bool)
    (k : Nat → Outcome (Reply T)) : Outcome (Reply T) := do
  match ← w.fs.resolvePath normPath followFinal with
  | .error e => w.fail e
  | .ok nodeIdx => k nodeIdx

def withParent (w : World T) (normPath : Str) (k : Nat → Str → Outcome (Reply T)) :
    Outcome (Reply T) := do
  match ← w.fs.resolveParentAndName normPath with
  | .error e => w.fail e
  | .ok (parentIdx, name) => k parentIdx name

/-- Go on only if a path resolves to nothing, without following its last
    component. -/
def ifAbsent (w : World T) (normPath : Str) (k : Unit → Outcome (Reply T)) :
    Outcome (Reply T) := do
  match ← w.fs.resolvePath normPath false with
  | .ok _ => w.fail (-17)
  | .error e => if e = -2 then k () else w.fail e

/-- A component that names a directory itself or its parent. -/
def isDots (name : Str) : Bool :=
  name = ['.'] ∨ name = ['.', '.']

def mkdir (path : Str) (mode : BitVec 32) : Outcome (Reply T) := do
  let normPath := w.fs.normalizePathForCage cageId path
  match ← w.fs.resolvePath normPath true with
  | .ok _ => w.fail (-17)
  | .error _ =>
    if normPath = ['/'] then w.fail (-17)
    else w.withParent normPath fun parentIdx dirname =>
      if isDots dirname then w.fail (-17)
      else do
        let (dirIdx, fs) := w.fs.createNode dirname .dir mode
        let fs ← fs.addChild parentIdx dirIdx
        let fs ← fs.addDots dirIdx parentIdx
        let fs := (fs.updateMtime parentIdx).updateCtime parentIdx
        w.reply 0 ((fs.updateMtime dirIdx).updateCtime dirIdx)

def mknodType (mode : BitVec 32) : Option NodeType :=
  if mode &&& 0o170000#32 = 0o010000#32 then some .pip
  else if mode &&& 0o170000#32 = 0o100000#32 ∨ mode &&& 0o170000#32 = 0#32 then some .reg
  else none

def mknod (path : Str) (mode : BitVec 32) : Outcome (Reply T) :=
  match mknodType mode with
  | none => w.fail (-1)
  | some nodeType => do
    let normPath := w.fs.normalizePathForCage cageId path
    match ← w.fs.resolvePath normPath true with
    | .ok _ => w.fail (-17)
    | .error _ =>
      w.withParent normPath fun parentIdx filename =>
        if isDots filename then w.fail (-17)
        else if filename.len ≥ maxNodeName then w.fail (-36)
        else do
          let (nodeIdx, fs) := w.fs.createNode filename nodeType mode
          let fs ← fs.addChild parentIdx nodeIdx
          let fs := (fs.updateMtime parentIdx).updateCtime parentIdx
          w.reply 0 ((fs.updateMtime nodeIdx).updateCtime nodeIdx)

/-- `link_resolved_paths`. The new entry is a node of its own that targets
    whatever the old path resolved to. -/
def linkResolvedPaths (w : World T) (normOldpath normNewpath : Str) (followOld : Bool) :
    Outcome (Reply T) :=
  w.withNode normOldpath followOld fun oldIdx =>
    if (w.fs.node oldIdx).nodeType = .dir then w.fail (-1)
    else w.ifAbsent normNewpath fun _ =>
      w.withParent normNewpath fun parentIdx filename =>
        if isDots filename then w.fail (-1)
        else if filename.len ≥ maxNodeName then w.fail (-36)
        else do
          let (newIdx, fs) := w.fs.createNode filename .lnk (w.fs.node oldIdx).mode
          let fs ← fs.addChild parentIdx newIdx
          let fs := fs.setHardLink newIdx oldIdx
          let fs := ((fs.updateMtime parentIdx).updateCtime parentIdx).updateCtime oldIdx
          w.reply 0 ((fs.updateMtime newIdx).updateCtime newIdx)

def link (oldpath newpath : Str) : Outcome (Reply T) :=
  w.linkResolvedPaths (w.fs.normalizePathForCage cageId oldpath)
    (w.fs.normalizePathForCage cageId newpath) true

def atSymlinkFollow : BitVec 32 := 0x400#32

def linkat (olddirfd : Int) (oldpath : Str) (newdirfd : Int)
    (newpath : Str) (flags : BitVec 32) : Outcome (Reply T) :=
  if has flags (~~~atSymlinkFollow) then w.fail (-22)
  else w.withPathAt cageId olddirfd oldpath fun normOldpath =>
    w.withPathAt cageId newdirfd newpath fun normNewpath =>
      w.linkResolvedPaths normOldpath normNewpath (has flags atSymlinkFollow)

def symlinkResolvedPath (w : World T) (target normLinkpath : Str) : Outcome (Reply T) :=
  w.ifAbsent normLinkpath fun _ =>
    w.withParent normLinkpath fun parentIdx filename =>
      if isDots filename then w.fail (-17)
      else if filename.len ≥ maxNodeName then w.fail (-36)
      else do
        let (newIdx, fs) := w.fs.createNode filename .lnk 0o777
        let fs := fs.modifyNode newIdx fun n =>
          { n with info := .symlink target, totalSize := target.len }
        let fs ← fs.addChild parentIdx newIdx
        let fs := (fs.updateMtime parentIdx).updateCtime parentIdx
        w.reply 0 ((fs.updateMtime newIdx).updateCtime newIdx)

def symlink (target linkpath : Str) : Outcome (Reply T) :=
  w.symlinkResolvedPath target (w.fs.normalizePathForCage cageId linkpath)

def symlinkat (target : Str) (newdirfd : Int) (linkpath : Str) :
    Outcome (Reply T) :=
  w.withPathAt cageId newdirfd linkpath fun normLinkpath =>
    w.symlinkResolvedPath target normLinkpath

/-- `rmdir_resolved_path`. The path is followed to its end, so a symbolic
    link removes the directory it leads to. -/
def rmdirResolvedPath (w : World T) (normPath : Str) : Outcome (Reply T) :=
  w.withNode normPath true fun nodeIdx =>
    if nodeIdx = w.fs.rootIdx then w.fail (-16)
    else match (w.fs.node nodeIdx).children? with
      | none => w.fail (-20)
      | some children =>
        if children.any fun e => e.name ≠ ['.'] ∧ e.name ≠ ['.', '.'] then w.fail (-39)
        else do
          let parentIdx := (w.fs.node nodeIdx).parentIdx
          let fs ← w.fs.removeChild nodeIdx
          let fs := (fs.updateMtime parentIdx).updateCtime parentIdx
          let fs ← (fs.updateCtime nodeIdx).unlinkNode nodeIdx
          w.reply 0 fs

def rmdir (path : Str) : Outcome (Reply T) :=
  w.rmdirResolvedPath (w.fs.normalizePathForCage cageId path)

def unlinkResolvedPath (w : World T) (normPath : Str) : Outcome (Reply T) :=
  if normPath = ['/'] then w.fail (-1)
  else w.withParent normPath fun parentIdx filename =>
    if isDots filename then w.fail (-1)
    else w.withNode normPath false fun nodeIdx =>
      if (w.fs.node nodeIdx).nodeType = .dir then w.fail (-21)
      else do
        let fs ← w.fs.removeChild nodeIdx
        let fs := (fs.updateMtime parentIdx).updateCtime parentIdx
        let fs ← (fs.updateCtime nodeIdx).unlinkNode nodeIdx
        w.reply 0 fs

def unlink (path : Str) : Outcome (Reply T) :=
  w.unlinkResolvedPath (w.fs.normalizePathForCage cageId path)

def atRemovedir : BitVec 32 := 0x200#32

def unlinkat (dirfd : Int) (path : Str) (flags : BitVec 32) :
    Outcome (Reply T) :=
  if has flags (~~~atRemovedir) then w.fail (-22)
  else w.withPathAt cageId dirfd path fun normPath =>
    if has flags atRemovedir then w.rmdirResolvedPath normPath
    else w.unlinkResolvedPath normPath

/-- `norm_newpath.starts_with(&format!("{}/", norm_oldpath.trim_end_matches('/')))`. -/
def isBelow (normOldpath normNewpath : Str) : Bool :=
  ((normOldpath.rdropWhile fun c => c = '/') ++ ['/']).isPrefixOf normNewpath

def moveNode (s : ImfsState) (oldIdx newParentIdx : Nat) (newName : Str) :
    Outcome ImfsState := do
  let s ← s.removeChild oldIdx
  let s := s.modifyNode oldIdx fun n => { n with name := newName }
  s.addChild newParentIdx oldIdx

/-- Remove the entry a rename replaces. -/
def replaceTarget (s : ImfsState) (existingIdx newParentIdx : Nat) : Outcome ImfsState := do
  let s ← s.removeChild existingIdx
  let s := (s.updateMtime newParentIdx).updateCtime newParentIdx
  (s.updateCtime existingIdx).unlinkNode existingIdx

/-- The time stamps a rename leaves behind. -/
def touchRenamed (s : ImfsState) (oldIdx oldParentIdx newParentIdx : Nat) : ImfsState :=
  let s := (s.updateMtime oldParentIdx).updateCtime oldParentIdx
  let s := if newParentIdx ≠ oldParentIdx
    then (s.updateMtime newParentIdx).updateCtime newParentIdx else s
  s.updateCtime oldIdx

/-- `rename_resolved_paths`. Moving a directory below itself is detected by
    comparing the two normalised strings. -/
def renameResolvedPaths (w : World T) (normOldpath normNewpath : Str) : Outcome (Reply T) :=
  if normOldpath = ['/'] then w.fail (-1)
  else w.withParent normOldpath fun oldParentIdx oldName =>
    w.withNode normOldpath false fun oldIdx =>
      if isDots oldName then w.fail (-1)
      else if normNewpath = ['/'] then w.fail (-1)
      else w.withParent normNewpath fun newParentIdx newName =>
        if isDots newName then w.fail (-1)
        else if newName.len ≥ maxNodeName then w.fail (-36)
        else if (w.fs.node oldIdx).nodeType = .dir ∧ isBelow normOldpath normNewpath then
          w.fail (-22)
        else do
          match ← w.fs.resolvePath normNewpath false with
          | .ok existingIdx =>
            if existingIdx = oldIdx then w.fail 0
            else if (w.fs.node existingIdx).nodeType = .dir then w.fail (-1)
            else do
              let fs ← replaceTarget w.fs existingIdx newParentIdx
              let fs ← moveNode fs oldIdx newParentIdx newName
              w.reply 0 (touchRenamed fs oldIdx oldParentIdx newParentIdx)
          | .error e =>
            if e = -2 then do
              let fs ← moveNode w.fs oldIdx newParentIdx newName
              w.reply 0 (touchRenamed fs oldIdx oldParentIdx newParentIdx)
            else w.fail e

def rename (oldpath newpath : Str) : Outcome (Reply T) :=
  w.renameResolvedPaths (w.fs.normalizePathForCage cageId oldpath)
    (w.fs.normalizePathForCage cageId newpath)

def renameat (olddirfd : Int) (oldpath : Str) (newdirfd : Int)
    (newpath : Str) : Outcome (Reply T) :=
  w.withPathAt cageId olddirfd oldpath fun normOldpath =>
    w.withPathAt cageId newdirfd newpath fun normNewpath =>
      w.renameResolvedPaths normOldpath normNewpath

def chdir (path : Str) : Outcome (Reply T) :=
  let normPath := w.fs.normalizePathForCage cageId path
  w.withNode normPath true fun nodeIdx =>
    if (w.fs.node nodeIdx).nodeType ≠ .dir then w.fail (-20)
    else w.reply 0 (w.fs.insertCwd cageId normPath)

def fchdir (w : World T) (cageId fd : Nat) : Outcome (Reply T) :=
  match translateVirtualFd w.fds cageId fd with
  | none => w.fail (-9)
  | some entry =>
    if entry.underfd ≥ w.fs.nodes.length then w.fail (-9)
    else do
      let nodeIdx ← w.fs.followHardLinks entry.underfd
      if (w.fs.node nodeIdx).nodeType ≠ .dir then w.fail (-20)
      else
        let cwd ← w.fs.absolutePathForNode nodeIdx
        w.reply 0 (w.fs.insertCwd cageId cwd)

def truncate (path : Str) (length : Int) : Outcome (Reply T) :=
  if length < 0 then w.fail (-22)
  else w.withNode (w.fs.normalizePathForCage cageId path) true fun nodeIdx =>
    w.truncateFile nodeIdx length

def chmodNode (w : World T) (nodeIdx : Nat) (mode : BitVec 32) : Outcome (Reply T) :=
  let fs := w.fs.modifyNode nodeIdx fun n =>
    { n with mode := (n.mode &&& 0o170000#32) ||| (mode &&& 0o7777#32) }
  w.reply 0 (fs.updateCtime nodeIdx)

def chmod (path : Str) (mode : BitVec 32) : Outcome (Reply T) :=
  w.withNode (w.fs.normalizePathForCage cageId path) true fun i => w.chmodNode i mode

def chmodat (dirfd : Int) (path : Str) (mode : BitVec 32) :
    Outcome (Reply T) :=
  w.withPathAt cageId dirfd path fun normPath =>
    w.withNode normPath true fun i => w.chmodNode i mode

def fchmod (w : World T) (cageId fd : Nat) (mode : BitVec 32) : Outcome (Reply T) := do
  match ← w.getNodeAndFlags cageId fd with
  | .error e => w.fail e
  | .ok (nodeIdx, _) => w.chmodNode nodeIdx mode

/-- `chown_node`; `u32::MAX` leaves an owner or group alone. A change clears
    the set-user and set-group bits. -/
def chownNode (w : World T) (nodeIdx owner group : Nat) : Outcome (Reply T) :=
  let n := w.fs.node nodeIdx
  let newOwner := if owner = 2 ^ 32 - 1 then n.owner else owner
  let newGroup := if group = 2 ^ 32 - 1 then n.group else group
  let changed := newOwner ≠ n.owner ∨ newGroup ≠ n.group
  let fs := w.fs.modifyNode nodeIdx fun n =>
    { n with
      owner := newOwner
      group := newGroup
      mode := if changed then n.mode &&& ~~~0o6000#32 else n.mode }
  w.reply 0 (fs.updateCtime nodeIdx)

def chown (path : Str) (owner group : Nat) (followFinal : Bool) :
    Outcome (Reply T) :=
  w.withNode (w.fs.normalizePathForCage cageId path) followFinal fun i =>
    w.chownNode i owner group

def atSymlinkNofollow : BitVec 32 := 0x100#32

/-- `chownat`, with the empty path naming the descriptor itself. -/
def chownat (dirfd : Int) (path : Str) (owner group : Nat)
    (flags : BitVec 32) : Outcome (Reply T) :=
  if path = [] ∧ dirfd ≠ -100 then
    match translateVirtualFd w.fds cageId (asU64 dirfd) with
    | none => w.fail (-9)
    | some entry => do
      let nodeIdx ← w.fs.followHardLinks entry.underfd
      w.chownNode nodeIdx owner group
  else w.withPathAt cageId dirfd path fun normPath =>
    w.withNode normPath (!has flags atSymlinkNofollow) fun i => w.chownNode i owner group

def touchNode (w : World T) (nodeIdx : Nat) : Outcome (Reply T) :=
  if nodeIdx ≥ w.fs.nodes.length then w.fail (-9)
  else w.reply 0 (((w.fs.updateAtime nodeIdx).updateMtime nodeIdx).updateCtime nodeIdx)

/-- `utimensat`, with no path naming the descriptor itself. -/
def utimensat (dirfd : Int) (path : Option Str) :
    Outcome (Reply T) :=
  match path with
  | some path => w.withPathAt cageId dirfd path fun normPath =>
    w.withNode normPath true fun i => w.touchNode i
  | none => match translateVirtualFd w.fds cageId (asU64 dirfd) with
    | none => w.fail (-9)
    | some entry => w.touchNode entry.underfd

end World

end LindGrates.Imfs
