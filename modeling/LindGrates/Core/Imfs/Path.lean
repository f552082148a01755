import LindGrates.Core.Imfs.State

/-!
# Path Resolution

A path is normalised against a working directory, so the walk through the tree never
meets a dot component: the `.` and `..` nodes stored in a directory are listed but
not looked up.

A symbolic link met on the way restarts the walk on a new string, built from the
path of the directory the link sits in, the link's target, and whatever
components were still to come. The path of a directory is found by following
`parent_idx` to the root. That loop has no bound in the source, so it is the one
place where resolution can fail to return; the bound used here is the number of
nodes, which a walk that ends never exceeds (`Theory.Imfs.Tree`).

## Main definitions

* `normalizePathForCage`: Normalisation.
* `resolvePath`: From a path to a node.
* `pathParts`: From a directory to its path.
-/

namespace LindGrates.Imfs

/-- What one component does to the components collected so far. -/
def pushPart (parts : List Str) (part : Str) : List Str :=
  if part = [] ∨ part = ['.'] then parts
  else if part = ['.', '.'] then parts.dropLast
  else parts ++ [part]

def normalizeParts (base path : Str) : List Str :=
  (base.split ++ path.split).foldl pushPart []

/-- `/` for no components, else each component behind a slash. -/
def renderPath (parts : List Str) : Str :=
  if parts = [] then ['/'] else '/' :: Str.join parts

def components (path : Str) : List Str :=
  path.split.filter fun part => part ≠ []

def normalizePathFromBase (base path : Str) : Str :=
  renderPath (normalizeParts (if path.isAbsolute then ['/'] else base) path)

namespace ImfsState

variable (s : ImfsState)

/-- `normalize_path_for_cage`: the working directory is the base. -/
def normalizePathForCage (cageId : Nat) (path : Str) : Str :=
  normalizePathFromBase ((s.cwdInfo cageId).getD ['/']) path

def findChild (children : List DirEntry) (name : Str) : Option Nat :=
  (children.find? fun e => e.name = name).map DirEntry.nodeIdx

/-- `lookup_child`, on a node that is a directory. -/
def lookupChild (parentIdx : Nat) (name : Str) : Option Nat :=
  findChild ((s.node parentIdx).children?.getD []) name

def parentPass : Nat × List Str → Pass (Nat × List Str) (List Str)
  | (current, parts) =>
    if current = s.rootIdx then .leave parts
    else .again ((s.node current).parentIdx, (s.node current).name :: parts)

/-- The names on the way from the root to a node, or `none` when following
    the parents never meets the root. -/
def pathParts (nodeIdx : Nat) : Option (List Str) :=
  loop s.parentPass (s.nodes.length + 1) (nodeIdx, [])

def absolutePathForNode (nodeIdx : Nat) : Outcome Str := do
  let parts ← okOr .hang (s.pathParts nodeIdx)
  return renderPath parts

/-- The loop of `resolve_path_inner` over the components still to come.
    `restart` is the recursive call a symbolic link makes. -/
def walk (s : ImfsState) (followFinal : Bool)
    (restart : Str → Outcome (Except Int Nat)) :
    Nat → List Str → Outcome (Except Int Nat)
  | current, [] => .ok (.ok current)
  | current, component :: remaining =>
    if (s.node current).nodeType ≠ .dir then .ok (.error (-20))
    else match s.lookupChild current component with
      | none => .ok (.error (-2))
      | some entryIdx =>
        if remaining = [] ∧ followFinal = false then .ok (.ok entryIdx)
        else match (s.node entryIdx).hardlinkTarget with
          | some target => walk s followFinal restart target remaining
          | none => match (s.node entryIdx).symlinkTarget with
            | some target => do
              let parentPath ← s.absolutePathForNode current
              let resolved := normalizePathFromBase parentPath target
              restart (if remaining = [] then resolved
                else normalizePathFromBase resolved (Str.join remaining))
            | none => walk s followFinal restart entryIdx remaining

/-- `resolve_path_inner` with the given number of restarts left; none are left
    beyond a depth of forty. -/
def resolvePathInner (s : ImfsState) (followFinal : Bool) :
    Nat → Str → Outcome (Except Int Nat)
  | 0, _ => .ok (.error (-40))
  | n + 1, path => s.walk followFinal (s.resolvePathInner followFinal n) s.rootIdx (components path)

/-- `resolve_path`. Depths zero to forty are allowed. -/
def resolvePath (path : Str) (followFinal : Bool) :
    Outcome (Except Int Nat) :=
  s.resolvePathInner followFinal 41 path

/-- Split a path into its parent directory and its last component. -/
def resolveParentAndName (path : Str) : Outcome (Except Int (Nat × Str)) :=
  match (components path).getLast? with
  | none => .ok (.error (-2))
  | some filename =>
    if (components path).length = 1 then .ok (.ok (s.rootIdx, filename))
    else do
      match ← s.resolvePath ('/' :: Str.join (components path).dropLast) true with
      | .error e => return .error e
      | .ok parentIdx =>
        if (s.node parentIdx).nodeType ≠ .dir then return .error (-20)
        else return .ok (parentIdx, filename)

/-- One pass of the loops that follow hard links to the node behind them. -/
def hardLinkPass (idx : Nat) : Pass Nat Nat :=
  match (s.node idx).info with
  | .hardLink target => .again target
  | _ => .leave idx

/-- Follow hard links until a node that is not one. A chain that visits more
    nodes than there are repeats itself and has no end. -/
def followHardLinks (idx : Nat) : Outcome Nat :=
  okOr .hang (loop s.hardLinkPass (s.nodes.length + 1) idx)

end ImfsState

end LindGrates.Imfs
