import LindGrates.Core.Chroot.Path
import LindGrates.Core.Copy
import LindGrates.Core.FdSupport.Specs

/-!
# A View of the File System for Each Cage

The handlers of `fs-view-grate`. A path is read from the memory of the cage it
comes with, `/cage-` and the number of that cage are put in front of it as text,
and the call goes on with the new text in the place of the old pointer. Before
it, the directory of the cage is made. A path is always copied with 4096 bytes,
however long it is. `exec` is passed on with the pointer it came with.

## Main definitions

* `readPath`: The path at an address of a cage.
* `cagePath`: The path that takes its place.
* `Handler.handle`: The calls a handler makes.
* `registered`: The handlers of the grate.
-/

namespace LindGrates.FsView

open Chroot

inductive Sys
  | open | xstat | access | mkdir | rmdir | unlink | unlinkat | chmod | truncate | chdir
  | readlink | rename | link | clone | exec
  deriving DecidableEq, Repr

/-- The bytes of a cage that are mapped from an address on. -/
abbrev Memory := Nat → Nat → List UInt8

/-- The arguments of a call, and the cage each comes from. -/
structure Call where
  args : Fin 6 → Nat
  cages : Fin 6 → Nat

/-- A call the grate makes for a cage: the arguments that are replaced by a text
    in the grate's own memory, and the paths that are left where they are, by
    cage and address. -/
structure Forward where
  sys : Sys
  cage : Nat
  texts : List (Fin 6 × Str)
  pointers : List (Nat × Nat)
  deriving DecidableEq, Repr

/-- `MAX_PATH`, which is also the `PATH_MAX` of the kernel. -/
def maxPath : Nat := 4096

/-- `read_path`. All `MAX_PATH` bytes are copied or none, and the buffer is full
    of zeros before. -/
def readPath (mem : Memory) (ptr cage : Nat) : Option Str :=
  let bytes := mem cage ptr
  (copyInto (if maxPath ≤ bytes.length then some (bytes.take maxPath) else none)
    (List.replicate maxPath 0)).map untilNul

/-- The name of a cage's own directory. -/
def cageName (cageId : Nat) : Str :=
  "cage-".toList ++ Nat.toDigits 10 cageId

/-- `cage_path`. -/
def cagePath (path : Str) (cageId : Nat) : Str :=
  '/' :: (cageName cageId ++ if path.isAbsolute then path else '/' :: path)

/-- `ensure_cage_root`. -/
def ensureCageRoot (cageId : Nat) : Forward :=
  ⟨.mkdir, cageId, [(0, '/' :: cageName cageId)], []⟩

/-- `path_rewrite_handler!`. -/
def pathRewriteHandler (sys : Sys) (i : Fin 6) (mem : Memory) (call : Call) :
    Except Int (List Forward) := do
  let cageId := call.cages i
  let path ← okOr (-14) (readPath mem (call.args i) (call.cages i))
  let cPath ← okOr (-1) (cString (cagePath path cageId))
  return [ensureCageRoot cageId, ⟨sys, cageId, [(i, cPath)], []⟩]

/-- `two_path_rewrite_handler!`. Both paths are rewritten for the cage of the
    first. -/
def twoPathRewriteHandler (sys : Sys) (i j : Fin 6) (mem : Memory) (call : Call) :
    Except Int (List Forward) := do
  let cageId := call.cages i
  let path₁ ← okOr (-14) (readPath mem (call.args i) (call.cages i))
  let path₂ ← okOr (-14) (readPath mem (call.args j) (call.cages j))
  let c₁ ← okOr (-1) (cString (cagePath path₁ cageId))
  let c₂ ← okOr (-1) (cString (cagePath path₂ cageId))
  return [ensureCageRoot cageId, ⟨sys, cageId, [(i, c₁), (j, c₂)], []⟩]

/-- A handler rewrites one path, or two, or passes the call on as it is, with
    the paths among its arguments. -/
inductive Handler
  | path (sys : Sys) (i : Fin 6)
  | twoPath (sys : Sys) (i j : Fin 6)
  | plain (sys : Sys) (paths : List (Fin 6))
  deriving DecidableEq, Repr

/-- The calls a handler makes, or the error it returns. -/
def Handler.handle (mem : Memory) (call : Call) : Handler → Except Int (List Forward)
  | .path sys i => pathRewriteHandler sys i mem call
  | .twoPath sys i j => twoPathRewriteHandler sys i j mem call
  | .plain sys paths =>
    .ok [⟨sys, call.cages 0, [], paths.map fun i => (call.cages i, call.args i)⟩]

/-- The handlers `main` registers. -/
def registered : List Handler :=
  [.path .open 0, .path .xstat 0, .path .access 0, .path .mkdir 0, .path .rmdir 0,
    .path .unlink 0, .path .unlinkat 1, .path .chmod 0, .path .truncate 0, .path .chdir 0,
    .path .readlink 0, .twoPath .rename 0 1, .twoPath .link 0 1, .plain .clone [], .plain .exec [0]]

/-! ## The paths of a call -/

/-- The arguments a handler rewrites. -/
def Handler.indices : Handler → List (Fin 6)
  | .path _ i => [i]
  | .twoPath _ i j => [i, j]
  | .plain _ _ => []

/-- The paths a handler passes on as they are. -/
def Handler.kept : Handler → List (Fin 6)
  | .plain _ paths => paths
  | _ => []

/-- The cage a handler makes its calls for. -/
def Handler.cage (call : Call) : Handler → Nat
  | .path _ i => call.cages i
  | .twoPath _ i _ => call.cages i
  | .plain _ _ => call.cages 0

/-- The memory behind some arguments of a call. -/
def Call.memoryAt (mem : Memory) (call : Call) (indices : List (Fin 6)) : List (List UInt8) :=
  indices.map fun i => mem (call.cages i) (call.args i)

/-- The texts that some calls are made with. -/
def texts (calls : List Forward) : List Str :=
  calls.flatMap fun f => f.texts.map Prod.snd

end LindGrates.FsView
