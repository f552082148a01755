import LindGrates.Core.Chroot.Handlers

/-!
# Forking under the Chroot Grate

The chroot grate as several cages see it while some of them fork. The kernel
starts the child before `fork_handler` is told about it, so the child can make
calls while its parent is still in the handler; only when the handler goes on
does the child get the working directory of its parent.

## Main definitions

* `Family`: The tables, the forks under way, and the working directory each cage should
  have: the one of its parent at the fork followed by its own successful changes.
* `Family.step`: What an action does.
-/

namespace LindGrates.Chroot

def Call.actor : Call → Nat
  | .stat path | .access path | .statfs path | .mkdir path | .rmdir path | .unlink path
  | .chmod path | .chown path | .lchown path | .truncate path | .setxattr path
  | .listxattr path | .rename path _ | .link path _ | .openPath path _ | .openat _ path _
  | .readlink path _ | .readlinkat _ path _ | .unlinkat _ path _ | .symlink _ path
  | .symlinkat _ _ path | .faccessat _ path | .fchmodat _ path | .fchownat _ path
  | .fstatat _ path | .statx _ path | .utimensat _ path | .renameat _ path _ _
  | .renameat2 _ path _ _ | .execve path | .chdir path => path.cage
  | .close cage _ | .dup cage _ | .dup2 cage _ _ | .dup3 cage _ _ _ | .fcntl cage _ _ _
  | .fork cage _ | .fchdir cage _ | .getcwd cage _ | .bind cage _ | .connect cage _
  | .sendto cage _ => cage
  | .chroot => 0

/-- The working directory a successful change leads to, from the one the cage
    should have. -/
def Call.changed (s : State) (due : Str) : Call → Str
  | .chdir ptr => normalizePath (ptr.readPath.getD []) due
  | .fchdir cage fd => (s.fdDirPath cage fd).getD due
  | _ => due

structure Sight where
  cage : Nat
  found : Str
  due : Str
  deriving DecidableEq

/-- The tables, the forks whose handler is not done yet as pairs of parent and
    child, the working directories the cages should have, and the calls made. -/
structure Family where
  grate : State
  pending : List (Nat × Nat)
  due : Nat → Option Str
  seen : List Sight

inductive FamilyAction
  | clone (parent child : Nat)
  | register (parent child : Nat)
  | call (call : Call) (host : Host)
  | settle (after : After) (answer : Answer) (host : Host)

/-- Whether a call changes the working directory: `chdir` and `fchdir` do when
    they return 0. -/
def Call.succeeds (host : Host) (s : State) (call : Call) : Bool :=
  match call with
  | .chdir _ | .fchdir _ _ => (handle host s call).2 = .done 0 []
  | _ => false

/-- What an action does. A second half that registers a child is a `register`
    and no `settle`. -/
def Family.step (f : Family) : FamilyAction → Option Family
  | .clone parent child =>
    match f.due parent with
    | none => none
    | some cwd =>
      if 0 < child ∧ f.due child = none ∧ ∀ fork ∈ f.pending, fork.1 ≠ parent then
        some { f with
          pending := (parent, child) :: f.pending
          due := Function.update f.due child (some cwd) }
      else none
  | .register parent child =>
    if (parent, child) ∈ f.pending then
      some { f with
        grate := (finish ⟨fun _ => none⟩ ⟨child, []⟩ f.grate (.child parent)).1
        pending := f.pending.erase (parent, child) }
    else none
  | .call call host =>
    match f.due call.actor with
    | none => none
    | some cwd =>
      if ∀ fork ∈ f.pending, fork.1 ≠ call.actor then
        some
          { grate := (handle host f.grate call).1
            pending := f.pending
            due :=
              if call.succeeds host f.grate then
                Function.update f.due call.actor (some (call.changed f.grate cwd))
              else f.due
            seen := ⟨call.actor, f.grate.getCageCwd call.actor, cwd⟩ :: f.seen }
      else none
  | .settle after answer host =>
    match after with
    | .child _ => none
    | _ => some { f with grate := (finish host answer f.grate after).1 }

/-- The beginning: the grate has started one program, nothing is under way. -/
structure Family.Start (f : Family) : Prop where
  grate : ∃ host chrootDir hostCwd grate cage, '\x00' ∉ hostCwd ∧
    State.initState host chrootDir hostCwd grate cage = some f.grate
  pending : f.pending = []
  due : ∀ cage cwd, f.due cage = some cwd → f.grate.getCageCwd cage = cwd
  fresh : ∀ cage, f.due cage = none → f.grate.getCageCwd cage = f.grate.fallback
  seen : f.seen = []

end LindGrates.Chroot
