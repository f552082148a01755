import LindGrates.Core.FsClamp.Lifecycle

/-!
# The Two Sides of the Clamp

The kernel and the clamped side as the clamp meets them: each hands out descriptors
under numbers of its own, and takes them back.

A call that makes a descriptor returns a number that is not in use on that side,
and any call may be refused. A `close` of a number that is in use succeeds. Apart
from that the replies are free, and a side need not know the number it is given.

## Main definitions

* `Sides`: The numbers in use, and a record of what was made and passed on.
* `Sides.serve`: A reply of a side.
* `Setting.step`: A call of the cage.
-/

namespace LindGrates.FsClamp

open FdTables ManagedTables Posix Dialogue

/-- Whether a path begins with a slash, for a kernel that reads bytes. -/
def absoluteAt (mem : Memory) (cage : Nat) (ptr : Word) : Bool :=
  (mem cage ptr).any fun bytes => bytes.head? = some 47

/-- The side a descriptor is on, as the table tells it. -/
def entrySide (entry : FDTableEntry) : Side :=
  if entry.perfdinfo ≠ 0 then .clamped else .kernel

namespace Forward

/-- The directory descriptor of a call, if it is looked at. -/
def dirfd (mem : Memory) (f : Forward) (i j : Fin 6) : List Nat :=
  if f.args i = atFdcwd ∨ absoluteAt mem (f.argcages j) (f.args j) = true then []
  else [(f.args i).toNat]

/-- The descriptor numbers in a call. -/
def named (mem : Memory) (f : Forward) : List Nat :=
  match f.nr.sys with
  | .getdents | .read | .write | .close | .pread | .pwrite | .preadv | .pwritev | .lseek | .fxstat
  | .fcntl | .ftruncate | .fchmod | .fchdir | .readv | .writev | .fsync | .fdatasync | .fstatfs
  | .syncFileRange | .dup => [(f.args 0).toNat]
  | .mmap => if f.args 3 &&& mapAnon ≠ 0 then [] else [(f.args 4).toNat]
  | .openat | .unlinkat | .readlinkat | .newfstatat | .statx | .faccessat | .fchmodat
  | .fchownat => f.dirfd mem 0 1
  | .symlinkat => f.dirfd mem 1 2
  | .linkat => f.dirfd mem 0 1 ++ f.dirfd mem 2 3
  | .utimensat =>
    if f.args 1 = 0 then if f.args 0 = atFdcwd then [] else [(f.args 0).toNat]
    else f.dirfd mem 0 1
  | _ => []

/-- Whether a call makes a descriptor. The command of `fcntl` is an `int`. -/
def makes (f : Forward) : Bool :=
  match f.nr.sys with
  | .open | .openat | .dup => true
  | .fcntl =>
    let cmd := (f.args 1).setWidth 32
    decide (cmd = fDupfd.setWidth 32 ∨ cmd = fDupfdCloexec.setWidth 32)
  | _ => false

end Forward

/-- Which numbers are in use on the two sides, what they will reply, the
    descriptors they have made, and the numbers they were given. -/
structure Sides where
  holds : Side → Nat → Bool
  replies : List Int
  made : List (Side × Nat)
  passed : List (Side × Nat × Bool)

namespace Sides

/-- A number is in use on a side from now on, or no longer. -/
def mark (x : Sides) (side : Side) (fd : Nat) (b : Bool) : Sides :=
  { x with holds := Function.update x.holds side (Function.update (x.holds side) fd b) }

def note (mem : Memory) (x : Sides) (f : Forward) : Sides :=
  { x with
    passed := x.passed ++ (f.named mem).map fun fd => (f.side, fd, x.holds f.side fd) }

def next (x : Sides) : Option (Sides × Int) :=
  match x.replies with
  | [] => none
  | ret :: replies => some ({ x with replies := replies }, ret)

def close (x : Sides) (side : Side) (fd : Nat) : Sides × Int :=
  if x.holds side fd then (x.mark side fd false, 0) else (x, -ebadf)

/-- A call that may make a descriptor. A number that is in use cannot be the
    reply. -/
def make (x : Sides) (side : Side) : Option (Sides × Int) :=
  x.next.bind fun r =>
    if r.2 < 0 then some r
    else if r.2 < 2 ^ 31 ∧ x.holds side r.2.toNat = false then
      some ({ r.1.mark side r.2.toNat true with made := x.made ++ [(side, r.2.toNat)] }, r.2)
    else none

def serve (mem : Memory) (x : Sides) : Ask → Option (Sides × Int)
  | .syscall f =>
    if f.nr.sys = .close then some ((x.note mem f).close f.side (f.args 0).toNat)
    else if f.makes then (x.note mem f).make f.side
    else (x.note mem f).next
  | _ => x.next

end Sides

structure Setting (T : Type) where
  state : State T
  holds : Side → Nat → Bool
  passed : List (Side × Nat × Bool)

structure SideCall where
  sys : Sys
  args : Fin 6 → Word
  mem : Memory
  replies : List Int

namespace Setting

variable {T : Type} [ManagedTables T]

/-- The two sides before a call. -/
def sides (w : Setting T) (replies : List Int) : Sides :=
  ⟨w.holds, replies, [], w.passed⟩

def step (cage : Nat) (w : Setting T) (a : SideCall) : Option (Setting T) :=
  (nsHandler w.state a.mem ⟨a.sys, a.args, fun _ => cage⟩).bind fun d =>
    (d.run (Sides.serve a.mem) (w.sides a.replies)).map fun r =>
      ⟨r.2.1, r.1.holds, r.1.passed⟩

/-- The cage has the three standard descriptors of the kernel, and any routes. -/
structure Start (cage : Nat) (w : Setting T) : Prop where
  fds : ∃ t : T, checkCageExists t cage = false ∧
    w.state.fds = (List.range 3).foldl (enterStandard cage) (initEmptyCage t cage)
  kernel : ∀ fd, w.holds .kernel fd = decide (fd < 3)
  clamped : ∀ fd, w.holds .clamped fd = false
  passed : w.passed = []

end Setting

end LindGrates.FsClamp
