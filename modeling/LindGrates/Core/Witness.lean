import Mathlib.Algebra.Ring.Nat
import Mathlib.Logic.Function.Basic

/-!
# Signed Records of Calls

`witness-grate` signs a record of every call it intercepts, appends the record
to a log and forwards the call. `signed_forward` is three steps for the other
threads: under the lock of the cage's context a number is taken and the record
signed, under the lock of the log the line is written, and then the call is
forwarded without a lock. Contexts and their counters live as long as the process.

## Main definitions

* `Ed25519`: Keys and signatures.
* `Grate`: The process. A call goes through `entered`, `signed` and `logged`, so any number
  of threads may be between two steps.
* `Grate.step`: One step of a call, or of the process.
-/

namespace LindGrates.Witness

structure Call where
  syscallno : Nat
  cageid : Nat
  args : Vector Nat 6
  argCages : Vector Nat 6
  deriving DecidableEq, Repr

structure Record where
  seqno : Nat
  call : Call
  deriving DecidableEq, Repr

abbrev Seed := List UInt8

/-- Keys are made from seeds, and a signature is valid exactly for the record
    that was signed, under the public key of the seed it was signed with. -/
class Ed25519 (Pub Sig : Type) where
  publicKey : Seed → Pub
  sign : Seed → Record → Sig
  verify : Pub → Record → Sig → Bool
  verify_sign : ∀ key seed r r',
    verify key r' (sign seed r) = true ↔ r' = r ∧ publicKey seed = key

/-- The files a seed is read from: one for each cage, and one for the others. -/
structure SeedFiles where
  ofCage : Nat → Option (List UInt8)
  shared : Option (List UInt8)

/-- `load_seed_file_exact`, which gives up on a file that is missing or short. -/
def loadSeedFileExact (file : Option (List UInt8)) : Option Seed :=
  file.bind fun bytes => if 32 ≤ bytes.length then some (bytes.take 32) else none

def loadSeedForCage (files : SeedFiles) (cageid : Nat) : Option Seed :=
  if (files.ofCage cageid).isSome then loadSeedFileExact (files.ofCage cageid)
  else loadSeedFileExact files.shared

/-- `witness_ctx_t`. The keys follow from the seed. -/
structure Ctx where
  seed : Seed
  seqno : Nat
  deriving DecidableEq, Repr

inductive Line (Pub Sig : Type)
  | start
  | pubkey (cageid : Nat) (key : Pub)
  | signed (r : Record) (sig : Sig)

/-- The process: the contexts of the cages and how many there are, the calls on
    their way, and the lines it has written after those of earlier processes. -/
structure Grate (Pub Sig : Type) where
  ctxs : Nat → Option Ctx := fun _ => none
  used : Nat := 0
  entered : List Call := []
  signed : List (Record × Sig) := []
  logged : List Call := []
  forwarded : List Call := []
  log : List (Line Pub Sig) := [.start]
  past : List (Line Pub Sig) := []
  aborted : Bool := false

def maxWitnessCages : Nat := 128

/-- A step of a call, named by what it moves on, or a new process. -/
inductive Action (Sig : Type)
  | enter (call : Call)
  | sign (call : Call)
  | write (x : Record × Sig)
  | forward (call : Call)
  | restart
  deriving DecidableEq

variable {Pub Sig : Type} [Ed25519 Pub Sig]

def Grate.getOrCreate (g : Grate Pub Sig) (files : SeedFiles) (cageid : Nat) : Grate Pub Sig :=
  if (g.ctxs cageid).isSome then g
  else if g.used < maxWitnessCages then
    match loadSeedForCage files cageid with
    | none => { g with aborted := true }
    | some seed =>
      { g with
        ctxs := Function.update g.ctxs cageid (some ⟨seed, 0⟩)
        used := g.used + 1
        log := g.log ++ [.pubkey cageid (Ed25519.publicKey Sig seed)] }
  else { g with aborted := true }

/-- One step of `signed_forward`, or of the process. -/
def Grate.step [DecidableEq Sig] (files : SeedFiles) (g : Grate Pub Sig) :
    Action Sig → Option (Grate Pub Sig)
  | .restart => some { past := g.past ++ g.log }
  | .enter call =>
    if g.aborted then none
    else some (Grate.getOrCreate { g with entered := call :: g.entered } files call.cageid)
  | .sign call =>
    if g.aborted ∨ call ∉ g.entered then none
    else (g.ctxs call.cageid).map fun ctx =>
      let r : Record := ⟨ctx.seqno, call⟩
      let next := { ctx with seqno := (ctx.seqno + 1) % 2 ^ 64 }
      { g with
        ctxs := Function.update g.ctxs call.cageid (some next)
        entered := g.entered.erase call
        signed := (r, Ed25519.sign Pub ctx.seed r) :: g.signed }
  | .write x =>
    if g.aborted ∨ x ∉ g.signed then none
    else some { g with
      signed := g.signed.erase x
      logged := x.1.call :: g.logged
      log := g.log ++ [.signed x.1 x.2] }
  | .forward call =>
    if g.aborted ∨ call ∉ g.logged then none
    else some { g with
      logged := g.logged.erase call
      forwarded := g.forwarded ++ [call] }

end LindGrates.Witness
