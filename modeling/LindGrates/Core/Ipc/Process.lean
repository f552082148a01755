import LindGrates.Core.Ipc.State

/-!
# Processes

`fork` takes a snapshot of the parent's descriptors, publishes it, counts the
references the child will hold and only then asks the runtime for the child.
When the child is there, the snapshot is withdrawn and the child's table is
completed: if the child has made calls already it has a table, and only the
descriptors missing there are added; otherwise the parent's table is copied. A
`vfork` child that has a table is left alone.

## Main definitions

* `forkSnapshot`, `forkFailed`, `forkFinish`: The fork handler, split where the child,
  or another cage, can run in between.
* `fork`, `exec`, `exit`, `preexec`: The handlers.
-/

namespace LindGrates.Ipc

open FdTables ManagedTables

namespace World

variable {T R : Type} [ManagedTables T] (w : World T R)

def fireAll (es : List FDTableEntry) : World T R :=
  es.foldl (fun w e => w.fire (some e)) w

def pushPendingFdtable (parent : Nat) (fds : List (Nat × FDTableEntry)) :
    World T R :=
  { w with pending := w.pending ++ [⟨parent, fds⟩] }

/-- `remove_pending_fdtable`: the first snapshot of this parent. -/
def removePendingFdtable (parent : Nat) : World T R :=
  { w with pending := w.pending.eraseP fun s => s.parentCage = parent }

def forkSnapshot (parent : Nat) :
    List (Nat × FDTableEntry) × List RefBump × World T R :=
  let parentFds := entries w.fds parent
  let bumps := parentFds.map fun p => w.ipc.refBump p.2
  (parentFds, bumps,
    { w.pushPendingFdtable parent parentFds with ipc := bumps.foldl IpcState.raise w.ipc })

/-- The runtime could not make a child: take the references back. -/
def forkFailed (parent : Nat) (bumps : List RefBump) : World T R :=
  { w with ipc := bumps.foldl IpcState.lower w.ipc }.removePendingFdtable parent

def forkFinish (parent child : Nat) (parentFds : List (Nat × FDTableEntry))
    (isVfork : Bool) : World T R :=
  let w := w.removePendingFdtable parent
  if checkCageExists w.fds child then
    if isVfork then w else parentFds.foldl (installEntry child) w
  else { w with fds := copyFdtableForCage w.fds parent child }

/-- `fork_handler`, with nothing else running in between. The answer is the new
    cage, or an error. -/
def fork (parent : Nat) (isThread isVfork : Bool) (answer : Int) :
    Outcome (Reply T R) :=
  if isThread then w.reply answer
  else if checkCageExists w.fds parent then
    let (parentFds, bumps, w) := w.forkSnapshot parent
    if answer < 0 then (w.forkFailed parent bumps).reply answer
    else if answer = 0 then w.reply 0
    else (w.forkFinish parent answer.toNat parentFds isVfork).reply answer
  else .error .panic

/-- The descriptors of a cage that are marked close-on-exec. -/
def closing (cage : Nat) : List FDTableEntry :=
  ((entries w.fds cage).map Prod.snd).filter FDTableEntry.shouldCloexec

/-- Give a cage one of the standard descriptors, if it has none there. -/
def reserve (cage : Nat) (w : World T R) (fd : Nat) : World T R :=
  if (translateVirtualFd w.fds cage fd).isNone then
    w.getSpecific cage fd ⟨fdkindKernel, fd, false, 0⟩
  else w

def exec (cage : Nat) (answer : Int) : Outcome (Reply T R) :=
  let r := w.waitForCageFdtable cage
  if r.1 then
    let w := r.2.fireAll (r.2.closing cage)
    let w := { w with fds := emptyFdsForExec w.fds cage }
    ((List.range 3).foldl (reserve cage) w).reply answer
  else r.2.reply answer

def exit (cage : Nat) (answer : Int) : Outcome (Reply T R) :=
  if checkCageExists w.fds cage then
    let w := w.fireAll ((entries w.fds cage).map Prod.snd)
    { w with
      fds := removeCageFromFdtable w.fds cage
      ipc := { w.ipc with
        epollTargets := fun k => if k.1 = cage then none else w.ipc.epollTargets k } }.reply answer
  else .error .panic

def preexec (cage : Nat) : Outcome (Reply T R) :=
  if checkCageExists w.fds cage then .error .panic else (w.newFdtable cage).reply 0

end World

end LindGrates.Ipc
