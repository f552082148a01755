import LindGrates.Core.Ipc.Transfer

/-!
# Epoll

An epoll instance is a descriptor of the runtime with a map beside it, kept by cage
and number. Neither closing the instance nor closing a descriptor that was added
changes the map.

## Main definitions

* `epollCtl`: Which descriptors are added, and with which events.
* `epollReady`: What is reported for them.
-/

namespace LindGrates.Ipc

open FdTables ManagedTables RingBuffer

def epollCtlAdd : Int := 1

def epollCtlDel : Int := 2

def epollCtlMod : Int := 3

def epollIn : BitVec 32 := 0x001#32

def epollOut : BitVec 32 := 0x004#32

def epollErr : BitVec 32 := 0x008#32

def epollHup : BitVec 32 := 0x010#32

def IpcState.setTargets {R : Type} (s : IpcState R) (cage epfd : Nat)
    (targets : Nat → Option EpollEvent) : IpcState R :=
  { s with epollTargets := Function.update s.epollTargets (cage, epfd) (some targets) }

namespace World

variable {T R : Type} [ManagedTables T]

def registerIpcEpollFd (w : World T R) (cage : Nat) (runtimeVfd : Int) (cloexec : Bool) :
    Outcome (Reply T R) :=
  let w := w.ensureCageFdtable cage
  match getUnusedVirtualFd w.fds cage ⟨ipcEpoll, asU64 runtimeVfd, cloexec, 0⟩ with
  | some (fd, fds) =>
    ({ w with fds := fds }.withIpc (·.setTargets cage fd fun _ => none)).reply (asI32 fd)
  | none => w.reply (-24)

def epollCreate1 (w : World T R) (cage : Nat) (flags : BitVec 32) (answer : Int) :
    Outcome (Reply T R) :=
  if answer < 0 then w.reply answer else w.registerIpcEpollFd cage answer (has flags oCloexec)

def epollCreate (w : World T R) (cage : Nat) (answer : Int) : Outcome (Reply T R) :=
  w.epollCreate1 cage 0 answer

/-- `epoll_ctl_handler` for a descriptor of the grate. The event is missing if
    the caller's pointer is null. -/
def epollCtlIpc (w : World T R) (cage epfd : Nat) (op : Int) (fd : Nat)
    (event : Option EpollEvent) : Outcome (Reply T R) :=
  let targets := w.ipc.epollTargets (cage, epfd)
  if op = epollCtlAdd ∨ op = epollCtlMod then
    match event with
    | none => w.reply (-22)
    | some ev =>
      let map := targets.getD fun _ => none
      -- The map is created here if there is none, also if the call fails.
      let w := w.withIpc (·.setTargets cage epfd map)
      if op = epollCtlAdd ∧ (map fd).isSome then w.reply (-17)
      else if op = epollCtlMod ∧ (map fd).isNone then w.reply (-2)
      else (w.withIpc (·.setTargets cage epfd (Function.update map fd (some ev)))).reply 0
  else if op = epollCtlDel then
    match targets with
    | some map =>
      if (map fd).isSome then
        (w.withIpc (·.setTargets cage epfd (Function.update map fd none))).reply 0
      else w.reply (-2)
    | none => w.reply (-2)
  else w.reply (-22)

def epollCtl (w : World T R) (cage epfd : Nat) (op : Int) (fd : Nat)
    (event : Option EpollEvent) (answer : Int) : Outcome (Reply T R) :=
  if checkCageExists w.fds cage then
    if (translateVirtualFd w.fds cage epfd).any fun e => e.fdkind = ipcEpoll then
      let r := w.lookupIpcFd cage fd
      if r.1.isSome then r.2.epollCtlIpc cage epfd op fd event
      else
        let r := r.2.translateToUnderfd cage fd
        if r.1.isSome then r.2.reply answer else r.2.reply (-9)
    else w.reply (-9)
  else w.reply answer

variable [RingBuffer R]

/-- The events reported for a descriptor that was added with `ev`. -/
def reportedEvents (w : World T R) (e : FDTableEntry) (ev : EpollEvent) : BitVec 32 :=
  let requested := (if has ev.events epollIn then pollIn else 0#16) |||
    (if has ev.events epollOut then pollOut else 0#16)
  let revents := w.ipc.pipePollState e requested
  let out := (if asks revents pollIn then epollIn else 0#32) |||
    (if asks revents pollOut then epollOut else 0#32) |||
    (if asks revents pollErr then epollErr else 0#32) |||
    (if asks revents pollHup then epollHup else 0#32)
  out &&& (ev.events ||| epollErr ||| epollHup)

/-- The grate's part of `epoll_wait_handler`: what is reported for the
    descriptors in the map, in the order the map yields them. -/
def epollReady (w : World T R) (cage epfd : Nat) (maxevents : Nat) :
    List Nat → List EpollEvent × World T R
  | [] => ([], w)
  | fd :: fds =>
    match (w.ipc.epollTargets (cage, epfd)).bind fun map => map fd with
    | none => w.epollReady cage epfd maxevents fds
    | some ev =>
      if maxevents = 0 then ([], w)
      else
        let r := w.lookupIpcFd cage fd
        match r.1.map fun e => r.2.reportedEvents e ev with
        | none => r.2.epollReady cage epfd maxevents fds
        | some events =>
          if events = 0#32 then r.2.epollReady cage epfd maxevents fds
          else
            let rest := r.2.epollReady cage epfd (maxevents - 1) fds
            (⟨events, ev.data⟩ :: rest.1, rest.2)

end World

end LindGrates.Ipc
