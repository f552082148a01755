import Mathlib.Algebra.Ring.Nat
import Mathlib.Logic.Function.Basic

/-!
# Descriptors under POSIX

What system calls do to the descriptors of a process. How new numbers are chosen is a
parameter.

Whether a call succeeds for reasons that lie behind the descriptors (a file that
is missing, a connection that is refused, a number that is out of range) and
which objects it opens is the answer of the system. The same answer can be given
to a process that makes the call itself and to one whose call is passed on under
other numbers, which is how the two are compared.

A `close` of an open descriptor succeeds. Descriptors inside messages
(`SCM_RIGHTS`) are not modelled.

## Main definitions

* `Descs`: A number leads to an open object and has a close-on-exec flag of its own.
* `Meaning`: What a call asks of the descriptors: which ones it uses, whether it makes,
  closes, copies or replaces one.
* `Meaning.run`: What the call does to them.
-/

namespace LindGrates.Posix

/-- An open descriptor: the object it leads to, and its close-on-exec flag. -/
structure Desc where
  object : Nat
  cloexec : Bool
  deriving DecidableEq, Repr

abbrev Descs := Nat → Option Desc

abbrev FdSet := Nat → Bool

structure PollFd where
  fd : BitVec 32
  events : Nat
  revents : Nat
  deriving DecidableEq, Repr

/-- What the system answers to a call: a result, the objects it opens, and which
    objects have something to report. -/
structure Answer where
  ret : Int
  object₁ : Nat
  object₂ : Nat
  events : Nat → Nat
  readable : Nat → Bool
  writable : Nat → Bool
  exceptional : Nat → Bool

/-- A `select` has sets, so a literal names one of them. -/
instance neZero_sets : NeZero 3 :=
  ⟨by decide⟩

def Answer.ready (ans : Answer) (i : Fin 3) : Nat → Bool :=
  if i = 0 then ans.readable else if i = 1 then ans.writable else ans.exceptional

def ebadf : Int :=
  9

def einval : Int :=
  22

def emfile : Int :=
  24

/-- What a call asks of the descriptors of its process. -/
inductive Meaning
  | use (fds : List Nat)
  | poll
  | select (fds : List Nat)
  | close (fd : Nat)
  | create (fds : List Nat) (cloexec : Bool)
  | dup (fd start : Nat) (cloexec : Bool)
  | replace (old new : Nat) (cloexec strict : Bool)
  | mark (fd : Nat) (cloexec : Bool)
  | pair (cloexec : Bool)
  deriving DecidableEq, Repr

/-- The descriptors a call names one by one. -/
def Meaning.named : Meaning → List Nat
  | .use fds => fds
  | .close fd => [fd]
  | .create fds _ => fds
  | .dup fd _ _ => [fd]
  | .replace old _ _ _ => [old]
  | .mark fd _ => [fd]
  | .poll | .select _ | .pair _ => []

/-- The descriptors that have to be open. -/
def Meaning.needed : Meaning → List Nat
  | .select fds => fds
  | m => m.named

/-- What a call comes to: its result, the descriptors after it, the ones it
    opened, and the pair it reports. -/
structure Result where
  ret : Int
  descs : Descs
  opened : List Nat
  pair : Option (Nat × Nat)

def Result.of (d : Descs) (ret : Int) : Result :=
  ⟨ret, d, [], none⟩

def put (d : Descs) (fd : Nat) (x : Desc) : Descs :=
  Function.update d fd (some x)

/-- How new numbers are chosen: a bound on all of them, and a free one from a
    given one on. -/
structure Numbers where
  limit : Nat
  pick : Descs → (start : Nat) → Option Nat

/-- What a call does once the descriptors it needs are open and the system lets
    it through. -/
def Meaning.perform (m : Meaning) (d : Descs) (ans : Answer) (numbers : Numbers) :
    Option Result :=
  match m with
  | .use _ | .poll | .select _ => some (.of d ans.ret)
  | .close fd => some ⟨0, Function.update d fd none, [], none⟩
  | .create _ cloexec =>
    (numbers.pick d 0).map fun (fd : Nat) => ⟨fd, put d fd ⟨ans.object₁, cloexec⟩, [fd], none⟩
  | .dup old start cloexec =>
    (d old).bind fun x => (numbers.pick d start).map fun (fd : Nat) =>
      ⟨fd, put d fd ⟨x.object, cloexec⟩, [fd], none⟩
  | .replace old new cloexec strict =>
    (d old).map fun x =>
      if numbers.limit ≤ new then .of d (-ebadf)
      else if old = new then .of d (if strict then -einval else new)
      else ⟨new, put d new ⟨x.object, cloexec⟩, [new], none⟩
  | .mark fd cloexec => (d fd).map fun x => ⟨ans.ret, put d fd ⟨x.object, cloexec⟩, [], none⟩
  | .pair cloexec =>
    (numbers.pick d 0).bind fun fd₁ =>
      let d₁ := put d fd₁ ⟨ans.object₁, cloexec⟩
      (numbers.pick d₁ 0).map fun fd₂ =>
        ⟨ans.ret, put d₁ fd₂ ⟨ans.object₂, cloexec⟩, [fd₁, fd₂], some (fd₁, fd₂)⟩

/-- Whether the system has a say in whether the call succeeds. -/
def Meaning.refusable : Meaning → Bool
  | .close _ => false
  | _ => true

/-- What a call does to the descriptors. There is no result if no number can be
    found for it. -/
def Meaning.run (m : Meaning) (d : Descs) (ans : Answer) (numbers : Numbers) : Option Result :=
  if m.needed.all fun fd => (d fd).isSome then
    if m.refusable ∧ ans.ret < 0 then some (.of d ans.ret)
    else m.perform d ans numbers
  else some (.of d (-ebadf))

/-- The lowest free number, below a limit. -/
def lowest (limit : Nat) : Numbers where
  limit := limit
  pick d start := (List.range limit).find? fun fd => decide (start ≤ fd) && (d fd).isNone

/-- One of two given numbers, whichever is the first to be free. Numbers are
    non-negative values of an `i32`. -/
def given (n₁ n₂ : Nat) : Numbers where
  limit := 2 ^ 31
  pick d start := [n₁, n₂].find? fun fd => decide (start ≤ fd ∧ fd < 2 ^ 31) && (d fd).isNone

/-- A call by a process of its own: it gets the lowest numbers, and `EMFILE` if
    none is left. -/
def Meaning.native (m : Meaning) (limit : Nat) (d : Descs) (ans : Answer) : Result :=
  (m.run d ans (lowest limit)).getD (.of d (-emfile))

def pollnval : Nat :=
  0x20

/-- What `poll` reports of one entry. -/
def PollFd.polled (d : Descs) (ans : Answer) (p : PollFd) : PollFd :=
  { p with
    revents :=
      if p.fd.msb then 0
      else ((d p.fd.toNat).map fun x => ans.events x.object).getD pollnval }

def fdSetsize : Nat :=
  1024

def fdIsset (fd : Nat) (set : FdSet) : Bool :=
  decide (fd < fdSetsize) && set fd

/-- What `select` leaves in a set: the descriptors below the bound whose object
    is ready. -/
def selected (d : Descs) (ready : Nat → Bool) (nfds : Nat) (set : FdSet) : FdSet :=
  fun fd => decide (fd < nfds) && fdIsset fd set && (d fd).any fun x => ready x.object

end LindGrates.Posix
