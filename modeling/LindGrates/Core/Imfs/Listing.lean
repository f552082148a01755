import LindGrates.Core.Imfs.Descriptor

/-!
# Directory Listing

The entries of a directory from the descriptor's position on, as many as fit the
caller's buffer. The position counts entries.

## Main definitions

* `writeDirentRecord`: The record of one entry.
* `getdentsData`: The call.
-/

namespace LindGrates.Imfs

open FdTables

/-- The `n` low bytes of a number, least significant first. -/
def leBytes (n x : Nat) : List UInt8 :=
  (List.range n).map fun k => UInt8.ofNat (x / 256 ^ k)

def Str.asBytes (name : Str) : List UInt8 :=
  name.flatMap String.utf8EncodeChar

abbrev dirent64FixedSize : Nat := 8 + 8 + 2 + 1

/-- `dirent_reclen`: the record of a name, rounded up to a multiple of eight. -/
def direntReclen (nameLen : Nat) : Nat :=
  (dirent64FixedSize + nameLen + 1 + 7) / 8 * 8

/-- `write_dirent_record`: the inode number, the position after the entry, the
    record length, the type, and the name padded with zeros. -/
def writeDirentRecord (ino nextOffset dType : Nat) (name : Str) : List UInt8 :=
  let reclen := direntReclen name.len
  leBytes 8 ino ++ leBytes 8 nextOffset ++ leBytes 2 reclen ++ leBytes 1 dType ++
    Str.asBytes name ++ List.replicate (reclen - dirent64FixedSize - name.len) 0

namespace ImfsState

def direntType (s : ImfsState) (nodeIdx : Nat) : Outcome Nat := do
  let idx ← s.followHardLinks nodeIdx
  return match (s.node idx).nodeType with
    | .dir => 4
    | .reg => 8
    | .lnk => 10
    | .pip => 1
    | .free => 0

/-- The loop of `getdents` over the entries from `entryIdx` on. The result is
    the position it stopped at and the bytes written. -/
def direntLoop (s : ImfsState) (bufLen : Nat) :
    Nat → List DirEntry → List UInt8 → Outcome (Except Int (Nat × List UInt8))
  | entryIdx, [], out => .ok (.ok (entryIdx, out))
  | entryIdx, entry :: rest, out =>
    let reclen := direntReclen entry.name.len
    if reclen > bufLen then .ok (.error (-22))
    else if out.length + reclen > bufLen then .ok (.ok (entryIdx, out))
    else do
      let dType ← s.direntType entry.nodeIdx
      direntLoop s bufLen (entryIdx + 1) rest
        (out ++ writeDirentRecord (entry.nodeIdx + 1) (entryIdx + 1) dType entry.name)

end ImfsState

namespace World

variable {T : Type} [FdTables T]

/-- `getdents`. The second component is the part of the buffer that was
    filled. -/
def getdentsData (w : World T) (cageId fd bufLen : Nat) :
    Outcome (Int × List UInt8 × World T) := do
  match ← w.getNodeAndFlags cageId fd with
  | .error e => return (e, [], w)
  | .ok (nodeIdx, flags) => match (w.fs.node nodeIdx).children? with
    | none => return (-20, [], w)
    | some children =>
      if flags &&& oAccmode = oWronly then return (-9, [], w)
      else
        let start ← w.fs.getOffset cageId fd
        if start < 0 then return (-22, [], w)
        else
          let k := asUsize start
          match ← w.fs.direntLoop bufLen k (children.drop k) [] with
          | .error e => return (e, [], w)
          | .ok (entryIdx, out) =>
            let fs ← w.fs.setOffset cageId fd entryIdx
            return (asI32 out.length, out, { w with fs := fs })

def getdents (w : World T) (cageId fd bufLen : Nat) : Outcome (Reply T) := do
  let (ret, _, w) ← w.getdentsData cageId fd bufLen
  return (ret, w)

end World

end LindGrates.Imfs
