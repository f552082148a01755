import LindGrates.Core.FsClamp.Lifecycle

/-!
# The Cages behind the Routing Clamp

All cages the clamp has to do with, from the first one on: they fork, run
programs, register handlers and end, and those that are targets or descend from
one make file system calls. What the system replies comes with each action. The
system gives new cages ids that no cage has, and reports failure by a negative
number.

## Main definitions

* `World`: The cages, those with handlers, and the clamp.
* `World.step`: What an action does.
-/

namespace LindGrates.FsClamp

open FdTables ManagedTables Dialogue Function

/-- What the system still replies, and the visible handlers it has put in place. -/
structure Script where
  replies : List Int
  registered : List (Nat × Sys)

/-- The next reply. A registration that succeeds is recorded. -/
def Script.serve (x : Script) (q : Ask) : Option (Script × Int) :=
  match x.replies with
  | [] => none
  | ret :: replies =>
    match q with
    | .registerNs targetCage sys =>
      some (⟨replies, if ret = 0 then x.registered ++ [(targetCage, sys)] else x.registered⟩, ret)
    | _ => some (⟨replies, x.registered⟩, ret)

/-- The cages behind the clamp: which there are, which of them have the visible
    handlers, and the record. -/
structure World (T : Type) where
  state : State T
  live : Nat → Bool
  handled : Nat → Bool
  execs : List (Nat × Str)
  registered : List (Nat × Sys)

inductive Action
  | call (cage : Nat) (sys : Sys) (args : Fin 6 → Word) (mem : Memory) (replies : List Int)
  | fork (cage : Nat) (args : Fin 6 → Word) (isThread : Bool) (reply : Int)
  | exit (cage : Nat) (args : Fin 6 → Word) (reply : Int)
  | exec (cage : Nat) (args : Fin 6 → Word) (mem : Memory) (replies : List Int)
  | register (request : Interposition) (reply : Int)

namespace World

variable {T : Type} [ManagedTables T]

@[reducible]
def ownCall (cage : Nat) (sys : Sys) (args : Fin 6 → Word) : Request :=
  ⟨sys, args, fun _ => cage⟩

def ForkReply (w : World T) (reply : Int) : Prop :=
  (-2 ^ 31 ≤ reply ∧ reply < 0) ∨ (0 < reply ∧ reply < 2 ^ 31 ∧ w.live reply.toNat = false)

instance (w : World T) (reply : Int) : Decidable (w.ForkReply reply) :=
  inferInstanceAs (Decidable (_ ∨ _))

def addCage (w : World T) (cage child : Nat) : World T :=
  { w with
    live := update w.live child true
    handled := update w.handled child (w.handled cage) }

def afterCall (w : World T) (d : Asking (State T × Int)) (replies : List Int) : Option (World T) :=
  (d.run Script.serve ⟨replies, w.registered⟩).map fun r =>
    { w with state := r.2.1, registered := r.1.registered }

/-- The same for a handler that can panic, after which there is no world left. -/
def afterRun (w : World T) (d : Asking (Outcome (State T × Int))) (replies : List Int) :
    Option (World T) :=
  (d.run Script.serve ⟨replies, w.registered⟩).bind fun r =>
    r.2.toOption.map fun final => { w with state := final.1, registered := r.1.registered }

def step (w : World T) : Action → Option (World T)
  | .call cage sys args mem replies =>
    if w.live cage ∧ w.handled cage then
      (nsHandler w.state mem (ownCall cage sys args)).bind fun d => w.afterCall d replies
    else none
  | .fork cage args isThread reply =>
    if w.live cage ∧ (isThread = true ∨ w.ForkReply reply) then
      (w.afterRun (forkHandler w.state isThread (ownCall cage .clone args)) [reply]).map fun w' =>
        if isThread = false ∧ 0 < reply then w'.addCage cage reply.toNat else w'
    else none
  | .exit cage args reply =>
    if w.live cage then
      (w.afterCall (exitHandler w.state (ownCall cage .exitGroup args)) [reply]).map fun w' =>
        { w' with
          live := update w.live cage false
          handled := update w.handled cage false }
    else none
  | .exec cage args mem replies =>
    if w.live cage then
      (readPathFromCage mem (args 0) cage).bind fun path =>
        (w.afterRun (execHandler w.state mem (ownCall cage .exec args)) replies).map fun w' =>
          { w' with
            execs := w.execs ++ [(cage, path)]
            handled :=
              if path = closeMarker ∧ w.state.clampDepth ≤ 1 then
                update w.handled cage true
              else w.handled }
    else none
  | .register request reply => w.afterCall (registerHandlerHandler w.state request) [reply]

structure Start (w : World T) : Prop where
  state : ∃ nsCageId pre t child, child < 2 ^ 31 ∧ (∀ c, checkCageExists t c = false) ∧
    w.state = initState nsCageId pre t child ∧ w.live = fun c => decide (c = child)
  handled : ∀ c, w.handled c = false
  execs : w.execs = []
  registered : w.registered = []

end World

end LindGrates.FsClamp
