import LindGrates.Core.Imfs.Listing
import LindGrates.Core.Imfs.Names

/-!
# The Filesystem as a System

The calls the grate serves, as one transition system. A call names the cage it
came from, so a run is an interleaving of any number of cages, and the global
lock makes each call one step. A call that panics or hangs has no successor, because
it leaves the lock behind.

Calls that only look at the filesystem are left out. The vectored reads and
writes are sequences of the single ones.

## Main definitions

* `Call`: The calls.
* `step`: A call goes to the function that serves it.
* `Call.Valid`: The runtime's promise: the cage a `fork` creates is new.
* `Reachable`: The states of runs from `init` with no cage registered.
-/

namespace LindGrates.Imfs

open FdTables

inductive Call
  | openPath (cage : Nat) (path : Str) (flags mode : BitVec 32)
  | openat (cage : Nat) (dirfd : Int) (path : Str) (flags mode : BitVec 32)
  | close (cage fd : Nat)
  | dup (cage oldfd : Nat)
  | dup2 (cage oldfd newfd : Nat)
  | dup3 (cage oldfd newfd : Nat) (flags : BitVec 32)
  | fcntl (cage fd : Nat) (op arg : Int)
  | read (cage fd len : Nat)
  | pread (cage fd len : Nat) (offset : Int)
  | write (cage fd : Nat) (buf : Slice)
  | pwrite (cage fd : Nat) (buf : Slice) (offset : Int)
  | lseek (cage fd : Nat) (offset whence : Int)
  | getdents (cage fd len : Nat)
  | truncate (cage : Nat) (path : Str) (length : Int)
  | ftruncate (cage fd : Nat) (length : Int)
  | mkdir (cage : Nat) (path : Str) (mode : BitVec 32)
  | mknod (cage : Nat) (path : Str) (mode : BitVec 32)
  | link (cage : Nat) (oldpath newpath : Str)
  | linkat (cage : Nat) (olddirfd : Int) (oldpath : Str) (newdirfd : Int) (newpath : Str)
      (flags : BitVec 32)
  | symlink (cage : Nat) (target linkpath : Str)
  | symlinkat (cage : Nat) (target : Str) (newdirfd : Int) (linkpath : Str)
  | rmdir (cage : Nat) (path : Str)
  | unlink (cage : Nat) (path : Str)
  | unlinkat (cage : Nat) (dirfd : Int) (path : Str) (flags : BitVec 32)
  | rename (cage : Nat) (oldpath newpath : Str)
  | renameat (cage : Nat) (olddirfd : Int) (oldpath : Str) (newdirfd : Int) (newpath : Str)
  | chdir (cage : Nat) (path : Str)
  | fchdir (cage fd : Nat)
  | chmod (cage : Nat) (path : Str) (mode : BitVec 32)
  | chmodat (cage : Nat) (dirfd : Int) (path : Str) (mode : BitVec 32)
  | fchmod (cage fd : Nat) (mode : BitVec 32)
  | chown (cage : Nat) (path : Str) (owner group : Nat) (followFinal : Bool)
  | chownat (cage : Nat) (dirfd : Int) (path : Str) (owner group : Nat) (flags : BitVec 32)
  | utimensat (cage : Nat) (dirfd : Int) (path : Option Str)
  | fork (parent child : Nat) (isThread : Bool)
  | exec (cage : Nat) (ret : Int)
  | preexec (cage : Nat)
  | initUtilityCage

variable {T : Type} [FdTables T]

/-- `init_utility_cage`: the cage the grate itself works through. -/
def World.initUtilityCage (w : World T) : Outcome (Reply T) :=
  if checkCageExists w.fds 0 then w.fail 0
  else .ok (0, { w with fds := FdTables.initEmptyCage w.fds 0 })

def step (w : World T) : Call → Outcome (Reply T)
  | .openPath cage path flags mode => w.openPath cage path flags mode
  | .openat cage dirfd path flags mode => w.openat cage dirfd path flags mode
  | .close cage fd => w.close cage fd
  | .dup cage oldfd => w.dup cage oldfd
  | .dup2 cage oldfd newfd => w.dup2 cage oldfd newfd false
  | .dup3 cage oldfd newfd flags => w.dup3 cage oldfd newfd flags
  | .fcntl cage fd op arg => w.fcntl cage fd op arg
  | .read cage fd len => w.read cage fd len
  | .pread cage fd len offset => w.pread cage fd len offset
  | .write cage fd buf => w.write cage fd buf
  | .pwrite cage fd buf offset => w.pwrite cage fd buf offset
  | .lseek cage fd offset whence => w.lseek cage fd offset whence
  | .getdents cage fd len => w.getdents cage fd len
  | .truncate cage path length => w.truncate cage path length
  | .ftruncate cage fd length => w.ftruncate cage fd length
  | .mkdir cage path mode => w.mkdir cage path mode
  | .mknod cage path mode => w.mknod cage path mode
  | .link cage oldpath newpath => w.link cage oldpath newpath
  | .linkat cage olddirfd oldpath newdirfd newpath flags =>
    w.linkat cage olddirfd oldpath newdirfd newpath flags
  | .symlink cage target linkpath => w.symlink cage target linkpath
  | .symlinkat cage target newdirfd linkpath => w.symlinkat cage target newdirfd linkpath
  | .rmdir cage path => w.rmdir cage path
  | .unlink cage path => w.unlink cage path
  | .unlinkat cage dirfd path flags => w.unlinkat cage dirfd path flags
  | .rename cage oldpath newpath => w.rename cage oldpath newpath
  | .renameat cage olddirfd oldpath newdirfd newpath =>
    w.renameat cage olddirfd oldpath newdirfd newpath
  | .chdir cage path => w.chdir cage path
  | .fchdir cage fd => w.fchdir cage fd
  | .chmod cage path mode => w.chmod cage path mode
  | .chmodat cage dirfd path mode => w.chmodat cage dirfd path mode
  | .fchmod cage fd mode => w.fchmod cage fd mode
  | .chown cage path owner group followFinal => w.chown cage path owner group followFinal
  | .chownat cage dirfd path owner group flags => w.chownat cage dirfd path owner group flags
  | .utimensat cage dirfd path => w.utimensat cage dirfd path
  | .fork parent child isThread => w.forkHook parent child isThread
  | .exec cage ret => w.execHook cage ret
  | .preexec cage => w.preexec cage
  | .initUtilityCage => w.initUtilityCage

/-- The cage a call makes. A fork that starts a thread makes none. -/
def Call.newCage : Call → Option Nat
  | .fork _ child false => some child
  | _ => none

/-- What the runtime promises: a fork that makes a cage makes a new one. -/
def Call.Valid (w : World T) (call : Call) : Prop :=
  call.newCage.all (fun child => !checkCageExists w.fds child) = true

instance (w : World T) (call : Call) : Decidable (call.Valid w) :=
  inferInstanceAs (Decidable (_ = true))

/-- The grate after `init`, before any cage is registered. -/
structure Initial (w : World T) : Prop where
  fs_eq : init = .ok w.fs
  no_cage : ∀ cage, checkCageExists w.fds cage = false

inductive Reachable (cond : World T → Call → Prop) : World T → Prop
  | start (w : World T) (h : Initial w) : Reachable cond w
  | next (w : World T) (call : Call) (ret : Int) (w' : World T) (hw : Reachable cond w)
      (hcond : cond w call) (hvalid : call.Valid w) (hstep : step w call = .ok (ret, w')) :
      Reachable cond w'

/-- No condition on a step. -/
def Unrestricted (_ : World T) (_ : Call) : Prop := True

instance (w : World T) (call : Call) : Decidable (Unrestricted w call) :=
  .isTrue trivial

variable {cond : World T → Call → Prop}

theorem reachable_inv {I : World T → Prop} (hstart : ∀ w, Initial w → I w)
    (hnext : ∀ w call ret w', I w → cond w call → call.Valid w → step w call = .ok (ret, w') →
      I w') : ∀ w, Reachable cond w → I w := by
  intro w hw
  induction hw with
  | start w h => exact hstart w h
  | next w call ret w' _ hcond hvalid hstep ih => exact hnext w call ret w' ih hcond hvalid hstep

/-- The state after one call. A call that is not served leaves no state behind,
    so it is passed over. -/
def serve (w : World T) (call : Call) : World T :=
  if call.Valid w then
    match step w call with
    | .ok (_, w') => w'
    | .error _ => w
  else w

theorem reachable_serve {w : World T} {call : Call} (hw : Reachable cond w) (hcond : cond w call) :
    Reachable cond (serve w call) := by
  unfold serve
  split
  next hvalid =>
    cases hstep : step w call with
    | error e => exact hw
    | ok r => exact Reachable.next w call r.1 r.2 hw hcond hvalid hstep
  · exact hw

/-- Every call meets the condition when its turn comes. -/
def callsMeet (cond : World T → Call → Prop) [∀ w call, Decidable (cond w call)] :
    World T → List Call → Bool
  | _, [] => true
  | w, call :: calls => decide (cond w call) && callsMeet cond (serve w call) calls

theorem reachable_foldl_serve [∀ w call, Decidable (cond w call)] (calls : List Call) {w : World T}
    (hw : Reachable cond w) (hcond : callsMeet cond w calls = true) :
    Reachable cond (calls.foldl serve w) := by
  induction calls generalizing w with
  | nil => exact hw
  | cons call calls ih =>
    rw [callsMeet, Bool.and_eq_true, decide_eq_true_eq] at hcond
    exact ih (reachable_serve hw hcond.1) hcond.2

end LindGrates.Imfs
