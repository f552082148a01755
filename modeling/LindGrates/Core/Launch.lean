import LindGrates.Base.Run
import LindGrates.Core.Rust

/-!
# Launching a Cage

`GrateBuilder::run` of `grate-rs/src/lib.rs`. The grate forks the cage it is to
serve, registers its handlers for it and lets it execute its program. The two
run side by side: a shared semaphore holds the cage back, and a shared
`LaunchState` tells the grate that the cage never came to its program.

`sem_wait` succeeds only on a semaphore that was posted, and `waitpid` only for a
cage that has ended.

## Main definitions

* `GrateBuilder`: What is to be launched.
* `Parent`, `Child`: The points the two programs can be at, one for each external call.
* `Action`: The return of a pending call, with any result the system may give, the
  takeover of the cage by its program, or the end of the cage, which a signal can
  bring about at any time.
-/

namespace LindGrates.Launch

/-- What an external call returns, and the `errno` it leaves. -/
structure Answer where
  ret : Int
  errno : Int := 0

/-- The errors `run` reports. -/
inductive GrateError
  | coordinationError (text : String)
  | handlerRegistrationError (ret : Int)
  deriving DecidableEq

inductive FdTranslatePolicy
  | disabled
  | enabledExcept (exceptions : Option (List Nat))

/-- A builder with handlers of type `H`. Of the two callbacks it only matters
    here whether they are set. -/
structure GrateBuilder (H : Type) where
  handlers : List (Nat × H)
  fdTranslatePolicy : FdTranslatePolicy
  teardown : Bool
  preexec : Bool

/-- What is registered for the cage, in this order: the default handlers for
    descriptors that are not excepted, and the handlers of the builder. -/
def GrateBuilder.registrations {H : Type} (fdHandlerTable : List (Nat × H)) (b : GrateBuilder H) :
    List (Nat × H) :=
  let defaults := match b.fdTranslatePolicy with
    | .disabled => []
    | .enabledExcept exceptions =>
      fdHandlerTable.filter fun r => !exceptions.any fun s => s.contains r.1
  defaults ++ b.handlers

/-- The points of the grate's program. -/
inductive Parent (H : Type)
  | mmapSem
  | semInit
  | mmapState
  | fork
  | register (r : Nat × H) (rest : List (Nat × H))
  | preexec
  | semPost
  | waitpid
  | semDestroy (status : Int)
  | munmapSem (status : Int)
  | munmapState (result : Except GrateError Int)
  | teardown (result : Except GrateError Int)
  | exited (code : Int)
  | panicked

/-- The points of the cage's program. -/
inductive Child
  | absent
  | semWait
  | execv
  | replaced
  | setErrno (a : Answer)
  | setFailed (ret : Int)
  | exit (code : Int)
  | exited (status : Int)

/-- The two programs, what they share, and what the system has seen of them. -/
structure World (H : Type) where
  parent : Parent H
  child : Child := .absent
  sem : Nat := 0
  launchFailed : Int := 0
  errno : Int := 0
  /-- The registrations that were accepted. -/
  registered : List (Nat × H) := []
  /-- The pre-exec hook has run. -/
  hooked : Bool := false
  posted : Bool := false
  /-- `execv` has been called and has returned or taken over. -/
  executed : Bool := false
  /-- The results the teardown callback was called with. -/
  teardowns : List (Except GrateError Int) := []

variable {H : Type}

def start (argv : List Str) : World H :=
  { parent :=
      if argv = [] then .teardown (.error (.coordinationError "No cage binary provided."))
      -- `CString::new(..).unwrap()`
      else if argv.any (·.contains '\x00') then .panicked
      else .mmapSem }

/-- The exit code of `run_teardown`: `WEXITSTATUS`, or 1 after an error. -/
def exitCode : Except GrateError Int → Int
  | .ok status => status / 256 % 256
  | .error _ => 1

/-- `call_sys!`: go on, or run the teardown. -/
def callSys (name : String) (a : Answer) (next : Parent H) : Parent H :=
  if a.ret < 0 then
    .teardown (.error (.coordinationError (name ++ " failed: " ++ toString a.errno)))
  else next

/-- Where the grate is when these registrations are left. -/
def registering (b : GrateBuilder H) : List (Nat × H) → Parent H
  | [] => if b.preexec then .preexec else .semPost
  | r :: rest => .register r rest

/-- What the grate reports once the cage has ended. -/
def World.result (w : World H) (status : Int) : Except GrateError Int :=
  if w.launchFailed ≠ 0 then
    .error (.coordinationError ("Failed to launch grate with OS Error " ++ toString w.errno))
  else .ok status

/-- The grate's call returns. -/
def World.stepParent (table : List (Nat × H)) (b : GrateBuilder H) (w : World H) (a : Answer) :
    Option (World H) :=
  match w.parent with
  -- `mmap_shared` exits without the teardown.
  | .mmapSem => some { w with parent := if a.ret = -1 then .exited 0 else .semInit }
  | .semInit => some { w with parent := callSys "sem_init" a .mmapState }
  | .mmapState => some { w with parent := if a.ret = -1 then .exited 0 else .fork }
  | .fork =>
    if a.ret < 0 then some { w with parent := callSys "fork" a .fork }
    else if a.ret = 0 then none
    else some { w with parent := registering b (b.registrations table), child := .semWait }
  | .register r rest =>
    if a.ret = 0 then
      some { w with parent := registering b rest, registered := w.registered ++ [r] }
    else some { w with parent := .teardown (.error (.handlerRegistrationError a.ret)) }
  | .preexec => some { w with parent := .semPost, hooked := true }
  | .semPost =>
    if a.ret < 0 then some { w with parent := callSys "sem_post" a .semPost }
    else some { w with parent := .waitpid, sem := w.sem + 1, posted := true }
  | .waitpid =>
    if a.ret < 0 then some { w with parent := callSys "waitpid" a .waitpid }
    else match w.child with
      | .exited status => some { w with parent := .semDestroy status }
      | _ => none
  | .semDestroy status => some { w with parent := callSys "sem_destroy" a (.munmapSem status) }
  | .munmapSem status =>
    some { w with parent := callSys "munmap" a (.munmapState (w.result status)) }
  | .munmapState result => some { w with parent := callSys "munmap" a (.teardown result) }
  | .teardown result =>
    some { w with
      parent := .exited (exitCode result)
      teardowns := if b.teardown then w.teardowns ++ [result] else w.teardowns }
  | .exited _ | .panicked => none

/-- The cage's call returns. A call that fails is told to the grate, first the
    `errno` and then that there was one. -/
def World.stepChild (w : World H) (a : Answer) : Option (World H) :=
  match w.child with
  | .semWait =>
    if a.ret < 0 then some { w with child := .setErrno a }
    else if w.sem = 0 then none
    else some { w with child := .execv, sem := w.sem - 1 }
  | .execv =>
    some { w with child := if a.ret < 0 then .setErrno a else .exit (-1), executed := true }
  | .setErrno a => some { w with child := .setFailed a.ret, errno := a.errno }
  | .setFailed ret => some { w with child := .exit (-ret), launchFailed := 1 }
  | .exit code => some { w with child := .exited (code % 256 * 256) }
  | .absent | .replaced | .exited _ => none

inductive Action
  | parent (a : Answer)
  | child (a : Answer)
  | replace
  | dies (status : Int)

def step (table : List (Nat × H)) (b : GrateBuilder H) (w : World H) : Action → Option (World H)
  | .parent a => w.stepParent table b a
  | .child a => w.stepChild a
  | .replace =>
    match w.child with
    | .execv => some { w with child := .replaced, executed := true }
    | _ => none
  | .dies status =>
    match w.child with
    | .absent | .exited _ => none
    | _ => some { w with child := .exited status }

/-- The worlds any interleaving leads to. -/
def Reachable (table : List (Nat × H)) (b : GrateBuilder H) (argv : List Str) : World H → Prop :=
  Runs (· = start argv) (step table b) fun _ _ => True

end LindGrates.Launch
