import LindGrates.Core.Copy
import LindGrates.Core.FdSupport.Specs
import LindGrates.Core.FdTables
import LindGrates.Core.Posix

/-!
# The Default Descriptor Handlers

`fd_translation_handler_impl`, the one function behind all default descriptor
handlers, cut where it passes the call on.

Buffers are behind pointers. The cage's own (an array of `pollfd`s, three sets)
come with the request; the grate's own have addresses of their own, and what is
in them is a field of the plan. A copy between the two can fail, and which of
them do is given from outside. A failed copy is not noticed: the handler goes on
with the zeros of a pair, the entries of a new array or the empty sets that it
started with. The array of a `poll` is copied into a vector, and a vector of more
than `isize::MAX` bytes panics.

`make_threei_call` has no error besides a negative result.

## Main definitions

* `prepare`: The loop over the table of the call, which replaces each descriptor by the
  number the kernel knows it under.
* `Plan.request`: The call that is made.
* `settle`: What the kernel opened is entered into the cage's table.
-/

namespace LindGrates.FdSupport

open FdTables Posix Function

/-- A system call argument. An `int` comes sign-extended. -/
abbrev Word := BitVec 64

def atFdcwd : Word :=
  -100

/-- `O_CLOEXEC`, which is also `SOCK_CLOEXEC` and `EPOLL_CLOEXEC`. -/
def oCloexec : Word :=
  0o2000000

def fDupfd : BitVec 32 :=
  0

def fDupfdCloexec : BitVec 32 :=
  1030

def fdkindKernel : Nat :=
  1

def argTranslateFlag : Nat :=
  2 ^ 63

def hasCloexec (arg : Word) : Bool :=
  decide (arg &&& oCloexec ≠ 0)

structure Request where
  sys : Sys
  args : Fin 6 → Word
  argcages : Fin 6 → Nat
  pollfds : Nat → PollFd
  sets : Fin 3 → FdSet

structure Reply where
  ret : Int
  pair : Nat × Nat
  pollfds : Nat → PollFd
  sets : Fin 3 → FdSet

inductive Buffer
  | sockets
  | pollfds
  | set (i : Fin 3)
  deriving DecidableEq, Repr

structure Grate where
  id : Nat
  buffer : Buffer → Word
  buffer_ne_zero : ∀ b, buffer b ≠ 0

/-- Which copies from the cage and to the cage succeed. -/
structure Copies where
  fromCage : Fin 3 → Bool
  toCage : Fin 3 → Bool

/-- What a copy from the cage brings, if it succeeds. -/
def Copies.read {α : Type} (copies : Copies) (i : Fin 3) (data : α) : Option α :=
  if copies.fromCage i then some data else none

@[simp] theorem Copies.getD_read {α : Type} (copies : Copies) (i : Fin 3) (data before : α) :
    (copies.read i data).getD before = if copies.fromCage i then data else before := by
  rw [read]
  split <;> rfl

inductive Stop
  | ret (code : Int)
  | panic
  deriving DecidableEq, Repr

/-- The position of a set among the arguments of `select`. -/
def setIndex (i : Fin 3) : Fin 6 :=
  i.succ.castLE (by decide)

def fdSetBit (fd : Nat) (set : FdSet) : FdSet :=
  if fd < fdSetsize then update set fd true else set

/-- The sets a `select` makes for the kernel, and the way back. -/
structure Selection where
  revMap : Nat → Option Nat := fun _ => none
  maxUnder : Nat := 0
  kernel : Fin 3 → FdSet := fun _ _ => false

structure Plan where
  args : Fin 6 → Word
  argcages : Fin 6 → Nat
  vfdClose : Word := 0
  shouldCreateVfd : Bool := false
  shouldCloexec : Bool := false
  shouldSocketpair : Bool := false
  shouldPoll : Bool := false
  shouldPipe : Bool := false
  shouldDup2 : Bool := false
  shouldSelect : Bool := false
  oldFdCageid : Nat := 0
  newFd : Word := 0
  originPipeCageid : Nat := 0
  pollfds : List PollFd := []
  pollfdOriginalFds : List (BitVec 32) := []
  selection : Selection := {}
  haveSet : Fin 3 → Bool := fun _ => false

section Prepare

variable {T : Type} [FdTables T]

def translateFdArg (t : T) (cageid : Nat) (arg : Word) (kind : FdArgKind) : Except Stop Nat :=
  if kind = .dirFd ∧ arg = atFdcwd then .ok arg.toNat
  else
    match translateVirtualFd t cageid arg.toNat with
    | some entry => .ok entry.underfd
    | none => .error (.ret (-ebadf))

def Plan.setArg (p : Plan) (i : Fin 6) (n : Nat) : Plan :=
  { p with args := update p.args i (BitVec.ofNat 64 n) }

def translatePollFd (t : T) (cageid : Nat) (pollfd : PollFd) : Except Stop PollFd :=
  if pollfd.fd.msb then .ok pollfd
  else do
    let underfd ← translateFdArg t cageid (pollfd.fd.signExtend 64) .fd
    return { pollfd with fd := BitVec.ofNat 32 underfd }

def selectTurn (t : T) (cageid : Nat) (want : Fin 3 → Nat → Bool) (s : Selection) (fd : Nat) :
    Selection :=
  if want 0 fd || want 1 fd || want 2 fd then
    match translateVirtualFd t cageid fd with
    | none => s
    | some entry =>
      let under := asUsize entry.underfd
      if under < fdSetsize then
        { revMap := update s.revMap under (some fd)
          maxUnder := max s.maxUnder under
          kernel := fun i => if want i fd then fdSetBit under (s.kernel i) else s.kernel i }
      else s
  else s

/-- Whether the cage asks about a descriptor in one of the sets of a `select`. A
    set that cannot be copied from the cage stays empty. -/
def Request.wants (call : Request) (copies : Copies) (i : Fin 3) (fd : Nat) : Bool :=
  decide (call.args (setIndex i) ≠ 0) && copies.fromCage i && fdIsset fd (call.sets i)

def selectLoop (t : T) (cageid : Nat) (call : Request) (copies : Copies) : Selection :=
  (List.range (asI32 (call.args 0).toNat).toNat).foldl
    (selectTurn t cageid (call.wants copies)) {}

/-- The sets of a `select` take the place of the cage's. -/
def planSelect (g : Grate) (call : Request) (p : Plan) (selection : Selection) : Plan :=
  let haveSet := fun s => decide (call.args (setIndex s) ≠ 0)
  let runtimeNfds :=
    if 0 < selection.maxUnder then BitVec.ofNat 64 (selection.maxUnder + 1) else call.args 0
  { p with
    shouldSelect := true
    selection := selection
    haveSet := haveSet
    args := fun j =>
      if j = 0 then runtimeNfds
      else if j = 1 then (if haveSet 0 then g.buffer (.set 0) else 0)
      else if j = 2 then (if haveSet 1 then g.buffer (.set 1) else 0)
      else if j = 3 then (if haveSet 2 then g.buffer (.set 2) else 0)
      else p.args j
    argcages := fun j =>
      if j = 1 ∧ haveSet 0 ∨ j = 2 ∧ haveSet 1 ∨ j = 3 ∧ haveSet 2 then
        g.id ||| argTranslateFlag
      else p.argcages j }

def planArg (g : Grate) (t : T) (call : Request) (copies : Copies) (p : Plan) (spec : FdArgSpec) :
    Except Stop Plan :=
  let i := spec.index
  match spec.kind with
  | .fd | .dirFd =>
    let p := { p with vfdClose := p.args i }
    if call.sys = .mmap ∧ p.vfdClose = BitVec.allOnes 64 then .ok p
    else do
      let underfd ← translateFdArg t (p.argcages i) p.vfdClose spec.kind
      return p.setArg i underfd
  | .newFd => .ok { p with shouldDup2 := true, newFd := p.args i }
  | .oldFd =>
    match translateVirtualFd t (p.argcages i) (p.args i).toNat with
    | some entry => .ok { p.setArg i entry.underfd with oldFdCageid := p.argcages i }
    | none => .error (.ret (-ebadf))
  | .fcntlFd => do
    let underfd ← translateFdArg t (p.argcages 0) (p.args 0) .fd
    let p := p.setArg 0 underfd
    let cmd := (p.args 1).setWidth 32
    if cmd = fDupfd ∨ cmd = fDupfdCloexec then
      return { p with
        shouldCreateVfd := true
        shouldCloexec := p.shouldCloexec || decide (cmd = fDupfdCloexec) }
    else return p
  | .pipeFd => .ok { p with shouldPipe := true, originPipeCageid := p.argcages i }
  | .sockPair =>
    .ok { p with
      shouldSocketpair := true
      args := update p.args i (g.buffer .sockets)
      argcages := update p.argcages i g.id }
  | .pollFd =>
    let p := { p with shouldPoll := true }
    let nfds := asUsize (p.args (i + 1)).toNat
    if nfds = 0 then .ok p
    else if 2 ^ 31 ≤ nfds * 8 then .error .panic
    else do
      let pollfds ← okOr .panic (copyInto (copies.read 0 ((List.range nfds).map call.pollfds))
        (List.replicate nfds ⟨-1, 0, 0⟩))
      let translated ← pollfds.mapM (translatePollFd t (p.argcages i))
      return { p with
        pollfds := translated
        pollfdOriginalFds := pollfds.map PollFd.fd
        args := update p.args i (g.buffer .pollfds)
        argcages := update p.argcages i (g.id ||| argTranslateFlag) }
  | .epFd => do
    let underfd ← translateFdArg t (p.argcages i) (p.args i) spec.kind
    return p.setArg i underfd
  | .selectFd => .ok (planSelect g call p (selectLoop t (p.argcages i) call copies))
  | .flag => .ok { p with shouldCloexec := p.shouldCloexec || hasCloexec (p.args i) }
  | .creat => .ok { p with shouldCreateVfd := true }

/-- The loop over the table of a call. -/
def prepare (g : Grate) (t : T) (call : Request) (copies : Copies) : Except Stop Plan :=
  call.sys.fdSpecs.foldlM (planArg g t call copies)
    { args := call.args, argcages := call.argcages }

end Prepare

/-- The call that is passed on. The grate's own buffers take the place of the
    cage's where a pointer to them does. -/
def Plan.request (p : Plan) (call : Request) : Request where
  sys := call.sys
  args := p.args
  argcages := p.argcages
  pollfds :=
    if p.pollfds = [] then call.pollfds else fun i => p.pollfds.getD i ⟨-1, 0, 0⟩
  sets := if p.shouldSelect then p.selection.kernel else call.sets

/-- What a handler has written to the cage. -/
structure Delivered where
  pair : Option (Nat × Nat) := none
  pollfds : Option (List PollFd) := none
  sets : Fin 3 → Option FdSet := fun _ => none

/-- How a handler ends: what it returns, if it does, with the tables it leaves
    and what it has written to the cage. -/
structure Final (T : Type) where
  ret : Outcome Int
  fds : T
  out : Delivered := {}

variable {T : Type} [FdTables T]

def kernelEntry (fd : Int) (cloexec : Bool) : FDTableEntry :=
  ⟨fdkindKernel, asU64 fd, cloexec, 0⟩

def enterOne (t : T) (cage : Nat) (ret : Int) (cloexec : Bool) : Final T :=
  match getUnusedVirtualFd t cage (kernelEntry ret cloexec) with
  | some (vfd, t) => ⟨.ok (asI32 vfd), t, {}⟩
  | none => ⟨.ok (-emfile), t, {}⟩

def enterAt (t : T) (cage new : Nat) (ret : Int) (cloexec : Bool) : Final T :=
  match getSpecificVirtualFd t cage new (kernelEntry ret cloexec) with
  | some t => ⟨.ok (asI32 new), t, {}⟩
  | none => ⟨.ok (-emfile), t, {}⟩

/-- Both descriptors of a pair get a number, and the numbers are written to the
    cage, or the handler panics, possibly after the first of them has got one. -/
def enterPair (t : T) (cage : Nat) (pair : Nat × Nat) (cloexec : Bool) (copied : Bool) (ret : Int) :
    Final T :=
  match getUnusedVirtualFd t cage (kernelEntry pair.1 cloexec) with
  | none => ⟨.error .panic, t, {}⟩
  | some (vsv₁, t₁) =>
    match getUnusedVirtualFd t₁ cage (kernelEntry pair.2 cloexec) with
    | none => ⟨.error .panic, t₁, {}⟩
    | some (vsv₂, t₂) =>
      match copyOut copied (vsv₁, vsv₂) with
      | some pair => ⟨.ok ret, t₂, { pair := pair }⟩
      | none => ⟨.error .panic, t₂, {}⟩

def selectOut (s : Selection) (set : FdSet) : FdSet :=
  (List.range (s.maxUnder + 1)).foldl
    (fun out under =>
      match s.revMap under with
      | some fd => if fdIsset under set then fdSetBit fd out else out
      | none => out)
    fun _ => false

def finishSelect (t : T) (p : Plan) (reply : Reply) (copies : Copies) : Final T :=
  let out := fun i =>
    if p.haveSet i then copyOut (copies.toCage i) (selectOut p.selection (reply.sets i))
    else some none
  if ∀ i, (out i).isSome then ⟨.ok reply.ret, t, { sets := fun i => (out i).join }⟩
  else ⟨.error .panic, t, {}⟩

def finishPoll (t : T) (p : Plan) (reply : Reply) (copies : Copies) : Final T :=
  if p.pollfds = [] then ⟨.ok reply.ret, t, {}⟩
  else
    let pollfds := ((List.range p.pollfds.length).map reply.pollfds).zipWith
      (fun pollfd fd => { pollfd with fd := fd }) p.pollfdOriginalFds
    match copyOut (copies.toCage 0) pollfds with
    | some pollfds => ⟨.ok reply.ret, t, { pollfds := pollfds }⟩
    | none => ⟨.error .panic, t, {}⟩

def settle (t : T) (call : Request) (p : Plan) (reply : Reply) (copies : Copies) : Final T :=
  if reply.ret < 0 then ⟨.ok reply.ret, t, {}⟩
  else
    let t :=
      if call.sys = .close then
        (closeVirtualfd t (call.argcages 0) p.vfdClose.toNat).getD t
      else t
    if p.shouldDup2 then enterAt t p.oldFdCageid p.newFd.toNat reply.ret p.shouldCloexec
    else if p.shouldCreateVfd then enterOne t (call.argcages 0) reply.ret p.shouldCloexec
    -- no table asks for two of what follows, so the order between them is not visible
    else if p.shouldPipe then
      match copyInto (copies.read 0 reply.pair) (0, 0) with
      | some pair =>
        enterPair t p.originPipeCageid pair p.shouldCloexec (copies.toCage 0) reply.ret
      | none => ⟨.error .panic, t, {}⟩
    else if p.shouldSocketpair then
      enterPair t (call.argcages 0) reply.pair p.shouldCloexec (copies.toCage 0) reply.ret
    else if p.shouldPoll then finishPoll t p reply copies
    else if p.shouldSelect then finishSelect t p reply copies
    else ⟨.ok reply.ret, t, {}⟩

end LindGrates.FdSupport
