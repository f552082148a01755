import LindGrates.Core.Copy
import LindGrates.Core.FdTables
import LindGrates.Core.Resource.Nanny

/-!
# The Handlers of the Resource Grate

A handler refuses its call, or forwards it to the kernel, goes on with the reply
and returns it. The handlers also charge the renewable resources of `Nanny`. That
delays a call and changes nothing else, so it is left out here.

## Main definitions

* `State`: The accounts, and for each descriptor whether it is a file or a socket, and
  for a socket whether it listens and whether it is a loopback one.
* `Call`: The calls.
* `Serving`: How a call is served.
-/

namespace LindGrates.Resource

open FdTables

inductive Counted
  | filesopened
  | insockets
  | outsockets
  | events
  deriving DecidableEq

inductive PortList
  | messport
  | connport
  deriving DecidableEq

/-- `NannyState` without the renewable resources, and the tables. -/
structure State (T : Type) where
  fungible : Counted → Option Fungible
  individual : PortList → Option (List Nat)
  fds : T

/-- A `sockaddr_in` as it lies in memory. -/
abbrev Sockaddr := Fin 16 → UInt8

def afInet : Nat := 2

def Sockaddr.family (a : Sockaddr) : Nat :=
  (a 0).toNat + 256 * (a 1).toNat

def Sockaddr.port (a : Sockaddr) : Nat :=
  256 * (a 2).toNat + (a 3).toNat

/-- The port of an address that is one of `AF_INET`. The address is copied over
    zeros. -/
def extractPort (addr : Option Sockaddr) : Option Nat :=
  (copyInto addr fun _ => 0).bind fun a => if a.family = afInet then some a.port else none

/-- Whether an address is `127.x.x.x`. -/
def isLoopbackAddr (addr : Option Sockaddr) : Bool :=
  (copyInto addr fun _ => 0).any fun a => decide (a.family = afInet ∧ a 4 = 127)

inductive Call
  | open (flags : Nat)
  | close (fd : Nat)
  | socket
  | bind (fd : Nat) (addr : Option Sockaddr)
  | listen (fd : Nat)
  | accept (fd : Nat)
  | connect (fd : Nat) (addr : Option Sockaddr)
  | sendto (fd : Nat) (dest : Option Sockaddr)
  | clone (thread : Bool)
  | exit

inductive Serving (T : Type)
  | refuse (errno : Int)
  | forward (finish : (ret : Int) → State T)

def eagain : Int := 11

def eacces : Int := 13

def emfile : Int := 24

def fdFile : Nat := 1

def fdSocket : Nat := 2

def sockLoopback : Nat := 1

def sockListening : Nat := 2

namespace State

variable {T : Type} (s : State T)

/-- `tattle_add_item`. What is not configured is not limited. -/
def tattleAddItem (name : Counted) : Option (State T) :=
  match s.fungible name with
  | none => some s
  | some r =>
    r.tattleAddItem.map fun r =>
      { s with fungible := Function.update s.fungible name (some r) }

def tattleRemoveItem (name : Counted) : State T :=
  match s.fungible name with
  | none => s
  | some r => { s with fungible := Function.update s.fungible name (some r.tattleRemoveItem) }

variable [FdTables T]

/-- `get_specific_virtual_fd`, whose failure is ignored. -/
def enter (cage fd : Nat) (e : FDTableEntry) : State T :=
  { s with fds := (getSpecificVirtualFd s.fds cage fd e).getD s.fds }

def reenter (cage fd : Nat) (flags : Nat → Nat) : State T :=
  match translateVirtualFd s.fds cage fd with
  | none => s
  | some e =>
    { s with fds := (closeVirtualfd s.fds cage fd).getD s.fds }.enter cage fd
      ⟨fdSocket, e.underfd, e.shouldCloexec, flags e.perfdinfo⟩

def fdKind (cage fd : Nat) : Nat :=
  ((translateVirtualFd s.fds cage fd).map FDTableEntry.fdkind).getD 0

def socketFlags (cage fd : Nat) : Nat :=
  match translateVirtualFd s.fds cage fd with
  | some e => if e.fdkind = fdSocket then e.perfdinfo else 0
  | none => 0

def acquiring (name : Counted) (errno : Int) (succeed : State T → Int → State T) :
    Serving T :=
  match s.tattleAddItem name with
  | none => .refuse errno
  | some s => .forward fun ret => if 0 ≤ ret then succeed s ret else s.tattleRemoveItem name

def handleOpen (cage flags : Nat) : Serving T :=
  s.acquiring .filesopened (-emfile) fun s ret =>
    s.enter cage ret.toNat ⟨fdFile, 0, false, flags⟩

def handleClose (cage fd : Nat) : Serving T :=
  let kind := s.fdKind cage fd
  let sflags := if kind = fdSocket then s.socketFlags cage fd else 0
  .forward fun ret =>
    if 0 ≤ ret then
      let s :=
        if kind = fdFile then s.tattleRemoveItem .filesopened
        else if kind = fdSocket then
          if sflags &&& sockListening ≠ 0 then s.tattleRemoveItem .insockets
          else s.tattleRemoveItem .outsockets
        else s
      { s with fds := (closeVirtualfd s.fds cage fd).getD s.fds }
    else s

def handleSocket (cage : Nat) : Serving T :=
  .forward fun ret =>
    if 0 ≤ ret then s.enter cage ret.toNat ⟨fdSocket, 0, false, 0⟩ else s

def allowsPort (port : Nat) : Bool :=
  isItemAllowed (s.individual .messport) port || isItemAllowed (s.individual .connport) port

def handleBind (cage fd : Nat) (addr : Option Sockaddr) : Serving T :=
  if (extractPort addr).all s.allowsPort then
    .forward fun _ =>
      if isLoopbackAddr addr then s.reenter cage fd (· ||| sockLoopback) else s
  else .refuse (-eacces)

def handleListen (cage fd : Nat) : Serving T :=
  s.acquiring .insockets (-emfile) fun s _ => s.reenter cage fd (· ||| sockListening)

def handleAccept (cage fd : Nat) : Serving T :=
  s.acquiring .outsockets (-emfile) fun s ret =>
    let loopback := s.socketFlags cage fd &&& sockLoopback ≠ 0
    s.enter cage ret.toNat ⟨fdSocket, 0, false, if loopback then sockLoopback else 0⟩

def handleConnect (cage fd : Nat) (addr : Option Sockaddr) : Serving T :=
  s.acquiring .outsockets (-emfile) fun s _ =>
    s.reenter cage fd fun flags =>
      if isLoopbackAddr addr then flags ||| sockLoopback
      else flags &&& (2 ^ 64 - 1 - sockLoopback)

/-- `sendto` only charges. -/
def handleSendto : Serving T :=
  .forward fun _ => s

def handleClone (cage : Nat) (thread : Bool) : Serving T :=
  if thread then s.acquiring .events (-eagain) fun s _ => s
  else
    .forward fun ret =>
      if 0 < ret then { s with fds := copyFdtableForCage s.fds cage ret.toNat } else s

def handleExit : Serving T :=
  .forward fun _ => s.tattleRemoveItem .events

def handle (cage : Nat) : Call → Serving T
  | .open flags => s.handleOpen cage flags
  | .close fd => s.handleClose cage fd
  | .socket => s.handleSocket cage
  | .bind fd addr => s.handleBind cage fd addr
  | .listen fd => s.handleListen cage fd
  | .accept fd => s.handleAccept cage fd
  | .connect fd addr => s.handleConnect cage fd addr
  | .sendto _ _ => s.handleSendto
  | .clone thread => s.handleClone cage thread
  | .exit => s.handleExit

end State

end LindGrates.Resource
