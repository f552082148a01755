import LindGrates.Core.Ipc.State

/-!
# Making and Changing Descriptors

A handler works on the grate's own table if the descriptor belongs to the grate.
Otherwise it translates the number and asks the runtime, whose answer is an argument
here.

A handler that runs while the registries are locked must not close a descriptor,
since the close handlers take the same lock: `create_pipe` does so when the
table has room for one end only, and never returns.

## Main definitions

* `pipe2`, `openPath`, `openat`: Handlers that create descriptors.
* `dup`, `dup2`, `dup3`, `fcntl`, `ioctl`, `close`: Handlers that change them.
-/

namespace LindGrates.Ipc

open FdTables ManagedTables RingBuffer

def dupEntry (e : FDTableEntry) (cloexec : Bool) : FDTableEntry :=
  ⟨e.fdkind, e.underfd, cloexec, flagsToU64 (entryFlags e)⟩

def fDupfd : Int := 0

def fDupfdCloexec : Int := 1030

def fGetfd : Int := 1

def fSetfd : Int := 2

def fGetfl : Int := 3

def fSetfl : Int := 4

def fionread : Nat := 0x541B

def fionbio : Nat := 0x5421

def IpcState.newPipe {R : Type} [RingBuffer R] (s : IpcState R) : IpcState R :=
  { s with
    arcs := s.arcs ++ [PipeBuffer.new pipeCapacity]
    pipes := Function.update s.pipes s.nextPipeId (some s.arcs.length)
    nextPipeId := s.nextPipeId + 1 }

namespace World

variable {T R : Type} [ManagedTables T]

section Pipe

variable [RingBuffer R]

/-- The entry for one end of a new pipe. -/
def endEntry (pipeId : Nat) (flags direction : BitVec 32) : FDTableEntry :=
  ⟨ipcPipe, pipeId, has flags oCloexec, flagsToU64 (direction ||| flags &&& oNonblock)⟩

/-- `create_pipe`: the two descriptors, or an error. -/
def createPipe (w : World T R) (cage : Nat) (flags : BitVec 32) :
    Outcome (Except Int (Nat × Nat) × World T R) :=
  let pipeId := w.ipc.nextPipeId
  let w := w.withIpc IpcState.newPipe
  match getUnusedVirtualFd w.fds cage (endEntry pipeId flags oRdonly) with
  | none => .ok (.error (-24), w)
  | some (readFd, fds) =>
    match getUnusedVirtualFd fds cage (endEntry pipeId flags oWronly) with
    | some (writeFd, fds) => .ok (.ok (readFd, writeFd), { w with fds := fds })
    | none =>
      -- Closing the read end would take the lock that is held here.
      .error .panic

def pipe2 (w : World T R) (cage : Nat) (flags : BitVec 32) : Outcome (Reply T R) := do
  let (r, w) ← (w.ensureCageFdtable cage).createPipe cage flags
  match r with
  | .ok _ => w.reply 0
  | .error e => w.reply e

def pipe (w : World T R) (cage : Nat) : Outcome (Reply T R) :=
  w.pipe2 cage 0

end Pipe

variable (w : World T R)

def close (cage fd : Nat) (answer : Int) : Outcome (Reply T R) :=
  let r := w.lookupIpcFd cage fd
  if r.1.isSome then (r.2.closeFd cage fd).reply 0
  else
    let r := r.2.translateToUnderfd cage fd
    if r.1.isSome ∧ checkCageExists r.2.fds cage then (r.2.closeFd cage fd).reply answer
    else r.2.reply answer

def openPath (cage : Nat) (flags : BitVec 32) (answer : Int) :
    Outcome (Reply T R) :=
  if answer < 0 then w.reply answer
  else w.registerKernelFd cage answer (has flags oCloexec) (flagsToU64 flags)

def translateDirfd (cage fd : Nat) : Bool × World T R :=
  if fd = asU64 (-100) then (true, w)
  else
    let r := w.waitForCageFdtable cage
    if r.1 then
      let r := r.2.waitForFdtableEntry cage fd
      (r.1.any fun e => e.fdkind = fdkindKernel, r.2)
    else (true, r.2)

def openat (cage dirfd : Nat) (flags : BitVec 32) (answer : Int) :
    Outcome (Reply T R) :=
  let r := w.translateDirfd cage dirfd
  if r.1 then r.2.openPath cage flags answer else r.2.reply (-9)

def dup (cage fd : Nat) (answer : Int) : Outcome (Reply T R) :=
  let r := w.lookupIpcFd cage fd
  match r.1 with
  | some e =>
    match getUnusedVirtualFd r.2.fds cage (dupEntry e false) with
    | some (newFd, fds) =>
      ({ r.2 with fds := fds }.withIpc (·.bump (dupEntry e false))).reply (asI32 newFd)
    | none => r.2.reply (-24)
  | none =>
    let r := r.2.translateToUnderfd cage fd
    if r.1.isNone then r.2.reply (-9)
    else if answer < 0 then r.2.reply answer
    else r.2.registerKernelFd cage answer false 0

/-- `dup2_handler`. A failure to install the duplicate is ignored. -/
def dup2 (cage oldfd newfd : Nat) (answer : Int) : Outcome (Reply T R) :=
  if oldfd = newfd then w.reply (asI32 newfd)
  else
    let r := w.lookupIpcFd cage oldfd
    match r.1 with
    | some e =>
      ((r.2.getSpecific cage newfd (dupEntry e false)).withIpc
        (·.bump (dupEntry e false))).reply (asI32 newfd)
    | none =>
      let r := r.2.translateToUnderfd cage oldfd
      if r.1.isNone then r.2.reply (-9)
      else if answer < 0 then r.2.reply answer
      else ((r.2.ensureCageFdtable cage).getSpecific cage newfd
        ⟨fdkindKernel, asU64 answer, false, 0⟩).reply (asI32 newfd)

def dup3 (cage oldfd newfd : Nat) (_flags : BitVec 32) (answer : Int) :
    Outcome (Reply T R) :=
  w.dup2 cage oldfd newfd answer

/-- `fcntl_handler` for `F_DUPFD` and `F_DUPFD_CLOEXEC`. -/
def dupfd (cage fd minFd : Nat) (cloexec : Bool) (answer : Int) :
    Outcome (Reply T R) :=
  let r := w.lookupIpcFd cage fd
  match r.1 with
  | some e =>
    match getUnusedVirtualFdFromStartfd r.2.fds cage (dupEntry e cloexec) minFd with
    | some (newFd, fds) =>
      ({ r.2 with fds := fds }.withIpc (·.bump (dupEntry e cloexec))).reply (asI32 newFd)
    | none => r.2.reply (-24)
  | none =>
    let r := r.2.translateToUnderfd cage fd
    if r.1.isNone then r.2.reply (-9)
    else if answer < 0 then r.2.reply answer
    else
      let w := r.2.ensureCageFdtable cage
      match getUnusedVirtualFdFromStartfd w.fds cage
          ⟨fdkindKernel, asU64 answer, cloexec, 0⟩ minFd with
      | some (newFd, fds) => { w with fds := fds }.reply (asI32 newFd)
      | none => w.reply (-24)

/-- `F_SETFL`: the access mode stays. -/
def setflFlags (flags arg : BitVec 32) : BitVec 32 :=
  flags &&& oAccmode ||| arg &&& ~~~oAccmode

def fcntl (cage fd : Nat) (op : Int) (arg : Nat) (answer : Int) :
    Outcome (Reply T R) :=
  if op = fDupfd ∨ op = fDupfdCloexec then w.dupfd cage fd arg (op = fDupfdCloexec) answer
  else
    let r := w.lookupIpcFd cage fd
    match r.1 with
    | none => r.2.forwardWithFd1 cage fd answer
    | some e =>
      if op = fGetfl then r.2.reply (entryFlags e).toInt
      else if op = fSetfl then
        match setPerfdinfo r.2.fds cage fd
            (flagsToU64 (setflFlags (entryFlags e) (BitVec.ofNat 32 arg))) with
        | some fds => { r.2 with fds := fds }.reply 0
        | none => r.2.reply 0
      else if op = fGetfd then r.2.reply (if e.shouldCloexec then 1 else 0)
      else if op = fSetfd then
        match setCloexec r.2.fds cage fd (arg % 2 ≠ 0) with
        | some fds => { r.2 with fds := fds }.reply 0
        | none => r.2.reply 0
      else r.2.reply (-22)

/-- The information `FIONBIO` stores: the flags with `O_NONBLOCK` set or
    cleared. -/
def fionbioInfo (flags : BitVec 32) (value : Int) : Nat :=
  if value ≠ 0 then (flags.signExtend 64 ||| oNonblock.signExtend 64).toNat
  else (flags.signExtend 64 &&& ~~~oNonblock.signExtend 64).toNat

/-- `ioctl_handler`. `FIONBIO` installs the entry anew, which closes the old
    one. The argument is what the caller's pointer points to, if it is not null. -/
def ioctl (cage fd request : Nat) (arg : Option Int) (answer : Int) :
    Outcome (Reply T R) :=
  let r := w.lookupIpcFd cage fd
  match r.1 with
  | none => r.2.forwardWithFd1 cage fd answer
  | some e =>
    if request = fionbio then
      match arg with
      | none => r.2.reply (-22)
      | some value =>
        match translateVirtualFd r.2.fds cage fd with
        | some old => (r.2.getSpecific cage fd
            { old with perfdinfo := fionbioInfo (entryFlags e) value }).reply 0
        | none => r.2.reply 0
    else if request = fionread then r.2.reply (if arg.isNone then -22 else 0)
    else r.2.reply (-25)

end World

end LindGrates.Ipc
