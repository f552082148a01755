import LindGrates.Core.FsClamp.Handlers

/-!
# Grates and Cages behind the Routing Clamp

The command line of the clamp is a chain of programs in brackets, each of which
runs the next in a cage of its own. The markers `%{` and `%}` are names of
programs to it: inside a nested pair it only counts them, and at the marker that
closes its own block it runs what is left. A handler that panics takes the grate
with it.

## Main definitions

* `registerTargetHandlers`: A target gets its handlers.
* `execHandler`: Counts the markers and closes the block.
* `forkHandler`, `exitHandler`: What a child gets, and what goes with a cage.
-/

namespace LindGrates.FsClamp

open FdTables ManagedTables Posix Dialogue

/-- `%{`. -/
def openMarker : Str :=
  ['%', '\x7b']

/-- `%}`. -/
def closeMarker : Str :=
  ['%', '\x7d']

/-- `u64::from_le_bytes`, of the first eight bytes. -/
def fromLeBytes (bytes : List UInt8) : Word :=
  BitVec.ofNat 64 ((bytes.take 8).foldr (fun b acc => b.toNat + 256 * acc) 0)

variable {T : Type} [ManagedTables T] (s : State T)

def registerVisible (targetCage : Nat) (sys : Sys) : Asking (State T × Int) := do
  let ret ← request (.registerNs targetCage sys)
  return (s, if ret = 0 then 0 else -1)

/-- One turn of the loop over `FS_CALLS`. The loop goes on if it returns zero. -/
def registerOne (targetCage : Nat) (sys : Sys) : Asking (State T × Int) :=
  match s.getInterpositionRequest targetCage sys with
  | some (grateId, handlerFn) => do
    let (altNr, s) := s.allocAltSyscall
    let ret ← request (.registerAlt grateId handlerFn altNr)
    if ret ≠ 0 then return (s, ret)
    else registerVisible (s.setRoute targetCage sys altNr) targetCage sys
  | none => registerVisible s targetCage sys

def registerAll (targetCage : Nat) : List Sys → State T → Asking (State T × Int)
  | [], s => do
    let ret ← request (.registerDefaults targetCage)
    return (s, if ret = 0 then 0 else -1)
  | sys :: rest, s => do
    let (s, code) ← registerOne s targetCage sys
    if code = 0 then registerAll targetCage rest s else return (s, code)

def registerTargetHandlers (targetCage : Nat) : Asking (State T × Int) :=
  registerAll targetCage fsCalls s

def registerHandlerHandler (r : Interposition) : Asking (State T × Int) := do
  let ret ← request (.register r)
  return (s.pushInterpositionRequest r, ret)

/-- An `exec` that is passed on as it came. -/
def forwardExec (c : Request) : Asking (Outcome (State T × Int)) := do
  let ret ← doSyscall (c.argcages 0) (.plain .exec) c.args c.argcages
  return .ok (s, ret)

/-- The arguments of the `exec` of the real program: everything moves up by one. -/
def shiftedArgs (c : Request) (realPath : Word) : Fin 6 → Word :=
  Function.update (Function.update c.args 1 (c.args 1 + 8)) 0 realPath

/-- The closing marker of the clamp's own block. -/
def closeClamp (mem : Memory) (c : Request) : Asking (Outcome (State T × Int)) := do
  let (s, _) ← registerTargetHandlers s (c.argcages 0)
  let s := (s.deregisterClampedCage (c.argcages 0)).exitNestedClamp
  let cage := c.argcages 1
  match copyInto (mem cage (c.args 1 + 8)) [0, 0, 0, 0, 0, 0, 0, 0] with
  | none => return .ok (s, -2)
  | some bytes => do
    let ret ← doSyscall cage (.plain .exec) (shiftedArgs c (fromLeBytes bytes))
      (Function.update c.argcages 0 cage)
    return .ok (s, ret)

def execHandler (mem : Memory) (c : Request) : Asking (Outcome (State T × Int)) :=
  match readPathFromCage mem (c.args 0) (c.argcages 0) with
  | none => return .error .panic
  | some path =>
    if path = openMarker then forwardExec s.enterNestedClamp c
    else if path = closeMarker then
      if 1 < s.clampDepth then forwardExec s.exitNestedClamp c else closeClamp s mem c
    else forwardExec (if s.clampDepth = 1 then s.setClampEntry (c.argcages 0) else s) c

/-- What a child gets from its parent: the descriptors, the routes if the parent
    is among the clamped cages, and the working directory. -/
def State.copyCage (cage child : Nat) : State T :=
  let s := { s with fds := copyFdtableForCage s.fds cage child }
  let s := if s.isCageClamped cage then s.cloneCageRoutes cage child else s
  s.cloneCageCwd cage child

/-- `fork_handler`. A failed call gives a cage id too, a negative number as an
    unsigned one. -/
def forkHandler (isThread : Bool) (c : Request) :
    Asking (Outcome (State T × Int)) := do
  let cage := c.argcages 0
  let ret ← doSyscall cage (.plain .clone) c.args c.argcages
  let child := (wordOf ret).toNat
  if isThread then return .ok (s, asI32 child)
  else if checkCageExists s.fds child then return .error .panic
  else return .ok (s.copyCage cage child, asI32 child)

/-- Everything about a cage is dropped, except its mapped ranges. -/
def State.dropCage (cage : Nat) : State T :=
  let s := s.removeCageState cage
  { s with fds := removeCageFromFdtable s.fds cage }

def exitHandler (c : Request) : Asking (State T × Int) := do
  let cage := c.argcages 0
  let s := s.dropCage cage
  let ret ← doSyscall cage (.plain .exitGroup) c.args c.argcages
  return (s, ret)

/-- A standard descriptor of the first cage. -/
def enterStandard (cage : Nat) (t : T) (fd : Nat) : T :=
  (getSpecificVirtualFd t cage fd ⟨0, fd, false, 0⟩).getD t

def initState (nsCageId : Nat) (pre : Str) (t : T) (child : Nat) : State T :=
  State.registerClampedCage
    { nsCageId := nsCageId
      clampEntryCage := 0
      clampDepth := 1
      routingPrefix := pre
      routes := fun _ _ => none
      clampedCages := fun _ => false
      cwdByCage := fun _ => none
      altAllocator := 3000
      interpositionMap := []
      clampedMmaps := fun _ => none
      fds := (List.range 3).foldl (enterStandard child) (initEmptyCage t child) }
    child

end LindGrates.FsClamp
