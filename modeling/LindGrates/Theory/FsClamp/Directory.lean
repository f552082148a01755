import LindGrates.Theory.FsClamp.Spaces

/-!
# The Working Directory behind the Clamp

A relative path is routed by the directory that is recorded for the cage. `chdir`
stores the path it has resolved when the system says that the cage has moved.
`fchdir` moves the cage and leaves the record.

## Main definitions

* `Tracked`: The grate, and the directory a cage is really in.
* `Tracked.Stays`: An `fchdir` leads to where the cage is.

## Theorems

* `tracked_cwd`: The record is right in every run without such an `fchdir`.
* `cwd_untracked`: An `fchdir` that leads elsewhere makes it wrong.
-/

namespace LindGrates.FsClamp

open FdTables Dialogue Lexical

variable {T : Type}

/-- The grate, the directory a cage is in, and those its descriptors were opened for. -/
structure Tracked (T : Type) where
  state : State T
  here : Str
  dirs : Nat → Str

def Tracked.leads (x : Tracked T) (path : Str) : Str :=
  render (resolve (resolve [] x.here) path)

/-- The directories after a call that ends in a state with a result. -/
def Tracked.moved (cage : Nat) (x : Tracked T) (a : SideCall) (s : State T) (ret : Int) :
    Tracked T :=
  match a.sys, readPathFromCage a.mem (a.args 0) cage with
  | .chdir, some path => ⟨s, if ret = 0 then x.leads path else x.here, x.dirs⟩
  | .fchdir, _ => ⟨s, if ret = 0 then x.dirs (a.args 0).toNat else x.here, x.dirs⟩
  | .open, some path =>
    ⟨s, x.here, if 0 ≤ ret then Function.update x.dirs ret.toNat (x.leads path) else x.dirs⟩
  | _, _ => { x with state := s }

def Tracked.step [FdTables T] (cage : Nat) (x : Tracked T) (a : SideCall) : Option (Tracked T) :=
  if a.sys = .chdir ∨ a.sys = .fchdir ∨ a.sys = .open then
    (nsHandler x.state a.mem (a.request cage)).bind fun d =>
      (d.run Script.serve ⟨a.replies, []⟩).map fun r => x.moved cage a r.2.1 r.2.2
  else none

/-- The recorded directory is the one the cage is in, in its normal form. -/
def Tracked.Right (cage : Nat) (x : Tracked T) : Prop :=
  x.state.getCageCwd cage = x.here ∧ normalizePath x.here = x.here

/-- An `fchdir` that is let through leads to where the cage is. -/
def Tracked.Stays (x : Tracked T) (a : SideCall) : Prop :=
  a.sys = .fchdir → a.replies.head? = some 0 → x.dirs (a.args 0).toNat = x.here

/-- A handler leaves the record right. -/
def Tracked.Leaves (cage : Nat) (x : Tracked T) (a : SideCall) (d : Asking (State T × Int)) :
    Prop :=
  Ensures Script.serve d ⟨a.replies, []⟩ fun _ r => (x.moved cage a r.1 r.2).Right cage

/-- `getcwd` as it is specified, in a directory. -/
def getcwdMeant (s : State T) (cwd : Str) (c : Request) : Asking (State T × Int) :=
  if cwd.bytes.length + 1 ≤ (c.args 1).toNat then do
    let ret ← request (.copyOut (c.argcages 0) (c.args 0) (cwd.bytes ++ [0]))
    return (s, if ret = 0 then cwd.bytes.length + 1 else -efault)
  else return (s, -34)

/-- What a handler asks for and comes to if everything it asks for succeeds. -/
def granted : Asking (State T × Int) → List Ask × State T × Int
  | .done r => ([], r)
  | .ask q k => (q :: (granted (k 0)).1, (granted (k 0)).2)

theorem getcwd_iff {s : State T} {c : Request} {cwd : Str}
    (hcwd : s.getCageCwd (c.argcages 1) = cwd) :
    granted (nsGetcwdHandler s c) = granted (getcwdMeant s cwd c) ↔
      cwd.bytes.length + 1 ≤ (c.args 1).toNat ∧ cwd.bytes.length + 1 ≤ maxPathLen ∧
        asI32 (c.argcages 0) = cwd.bytes.length + 1 := by
  have hlen : (cwd.bytes ++ [0]).length = cwd.bytes.length + 1 := List.length_append
  have hgiven : granted (nsGetcwdHandler s c) =
      ([.copyOut (c.argcages 0) (c.args 0) ((cwd.bytes ++ [0]).take maxPathLen)], s,
        asI32 (c.argcages 0)) := by
    simp only [nsGetcwdHandler, hcwd, copyDataBetweenCages_eq, if_true]
    rfl
  rw [hgiven, getcwdMeant]
  split
  next hfits =>
    change _ = ([Ask.copyOut (c.argcages 0) (c.args 0) (cwd.bytes ++ [0])], s,
      (cwd.bytes.length + 1 : Int)) ↔ _
    simp only [Prod.mk.injEq, List.cons.injEq, Ask.copyOut.injEq, List.take_eq_self_iff, hlen,
      hfits, true_and, and_true]
  next hfits =>
    refine iff_of_false (fun h => ?_) fun h => hfits h.1
    cases (Prod.mk.inj h).1

variable {cage : Nat} {x : Tracked T} {a : SideCall}

theorem resolvePathForCage_leads (h : x.Right cage) (path : Str) :
    x.state.resolvePathForCage cage path = x.leads path := by
  rw [resolvePathForCage_eq, h.1]
  rfl

theorem normalizePath_leads (x : Tracked T) (path : Str) :
    normalizePath (x.leads path) = x.leads path := by
  rw [normalizePath_eq, Tracked.leads, resolve_render (isName_resolve (isName_root x.here) path)]

theorem right_chdir (h : x.Right cage) (hsys : a.sys = .chdir) :
    x.Leaves cage a (nsChdirHandler x.state a.mem (a.request cage)) := by
  unfold Tracked.Leaves nsChdirHandler
  simp only [Tracked.moved, hsys]
  rcases readPathFromCage a.mem (a.args 0) cage with _ | path
  · exact ensures_done h
  refine ensures_request fun _ ret _ => ensures_done ?_
  simp only [resolvePathForCage_leads h]
  split
  · refine ⟨?_, normalizePath_leads x path⟩
    simp only [State.getCageCwd, State.setCageCwd, Function.update_self, Option.getD_some,
      normalizePath_leads]
  · exact h

variable [FdTables T]

theorem right_open (h : x.Right cage) (hsys : a.sys = .open) :
    x.Leaves cage a (nsOpenHandler x.state a.mem (a.request cage)) := by
  -- an `open` writes no directory, whether it gets a number or not
  have hmoved : ∀ s ret, s.cwdByCage = x.state.cwdByCage → (x.moved cage a s ret).Right cage := by
    intro s ret hs
    have hcwd : s.getCageCwd cage = x.here := by
      rw [State.getCageCwd, hs]
      exact h.1
    simp only [Tracked.moved, hsys]
    cases readPathFromCage a.mem (a.args 0) cage with
    | none | some => exact ⟨hcwd, h.2⟩
  refine ensures_request fun _ ret _ => ?_
  split
  · unfold installUnused
    split
    · exact ensures_done (hmoved _ _ rfl)
    · exact ensures_request fun _ _ _ => ensures_done (hmoved _ _ rfl)
  · exact ensures_done (hmoved _ _ rfl)

theorem right_fchdir (h : x.Right cage) (hsys : a.sys = .fchdir) (hstays : x.Stays a) :
    x.Leaves cage a (nsFchdirHandler x.state (a.request cage)) := by
  unfold Tracked.Leaves nsFchdirHandler fdRouteHandler
  simp only [Tracked.moved, hsys]
  split
  · exact ensures_done h
  -- the call is passed on to one side or the other, and nothing is recorded
  have hdone : ∀ f : Forward, Ensures Script.serve (request (.syscall f) >>= fun ret =>
      .done (x.state, ret)) ⟨a.replies, []⟩ fun _ r => Tracked.Right cage
        ⟨r.1, if r.2 = 0 then x.dirs (a.args 0).toNat else x.here, x.dirs⟩ := by
    intro f
    refine ensures_request fun _ ret hserve => ensures_done ?_
    split
    next hret =>
      rw [hstays hsys (hret ▸ head_of_serve hserve)]
      exact h
    · exact h
  split
  · rcases x.state.callClamped_eq cage .fchdir _ fun _ => cage with ⟨f, hf, _⟩
    rw [hf]
    exact hdone f
  · exact hdone _

/-- In every run in which no `fchdir` leads elsewhere, the recorded directory is the one the
    cage is in, a relative path is taken for the absolute one, and `getcwd` does as it should
    with a buffer that can be written exactly if the path fits and its length happens to be the
    cage's number. -/
theorem tracked_cwd (h : Runs (Tracked.Right cage) (Tracked.step cage) Tracked.Stays x) :
    x.state.getCageCwd cage = x.here ∧
      (∀ path, x.state.resolvePathForCage cage path = x.leads path ∧
        x.state.resolvePathForCage cage (x.leads path) = x.leads path) ∧
      ∀ args, granted (nsGetcwdHandler x.state ⟨.getcwd, args, fun _ => cage⟩) =
          granted (getcwdMeant x.state x.here ⟨.getcwd, args, fun _ => cage⟩) ↔
        x.here.bytes.length + 1 ≤ (args 1).toNat ∧ x.here.bytes.length + 1 ≤ maxPathLen ∧
          asI32 cage = x.here.bytes.length + 1 := by
  -- the record is right along the run
  have hright : x.Right cage := by
    refine runs_inv (fun _ => id) (fun x a x' hx hstays hstep => ?_) x h
    unfold Tracked.step at hstep
    split at hstep
    next hsys =>
      rcases Option.bind_eq_some_iff.mp hstep with ⟨d, hd, hmap⟩
      rcases Option.map_eq_some_iff.mp hmap with ⟨r, hrun, rfl⟩
      rcases hsys with hsys | hsys | hsys
      all_goals simp only [nsHandler, hsys, Option.some.injEq] at hd
      all_goals subst hd
      · exact right_chdir hx hsys r.1 r.2 hrun
      · exact right_fchdir hx hsys hstays r.1 r.2 hrun
      · exact right_open hx hsys r.1 r.2 hrun
    · cases hstep
  refine ⟨hright.1, fun path => ⟨resolvePathForCage_leads hright path, ?_⟩, fun args => ?_⟩
  · rw [resolvePathForCage_eq, Tracked.leads,
      resolve_render (isName_resolve (isName_root x.here) path)]
  · exact getcwd_iff hright.1

/-- The first cage of a clamp, in the root directory. -/
def trackedStart : Tracked (MapTables 16) :=
  ⟨loneWorld.state, ['/'], fun _ => []⟩

/-- The cage goes to `/d` by `chdir`. -/
theorem tracked_cwd_chdir : ∃ x : Tracked (MapTables 16),
    Runs (Tracked.Right 2) (Tracked.step 2) Tracked.Stays x ∧
      x.state.getCageCwd 2 = ['/', 'd'] := by
  have hstart : Runs (Tracked.Right 2) (Tracked.step 2) Tracked.Stays trackedStart :=
    .start _ ⟨by decide +kernel, by decide +kernel⟩
  have hstep : ∃ x, trackedStart.step 2 (sideCall .chdir "d" 0 0 [0]) = some x ∧
      x.here = ['/', 'd'] := by decide +kernel
  rcases hstep with ⟨x, hx, hhere⟩
  have hrun := Runs.next _ (sideCall .chdir "d" 0 0 [0]) _ hstart nofun hx
  exact ⟨x, hrun, (tracked_cwd hrun).1.trans hhere⟩

/-- The cage goes to `/d` by `fchdir`: its record still says `/`, and `getcwd` writes two bytes
    where there is room for one. -/
theorem cwd_untracked : ∃ x : Tracked (MapTables 16),
    [sideCall .open "/d" 0 0 [3], sideCall .fchdir "" 3 0 [0]].foldlM (Tracked.step 2)
      trackedStart = some x ∧ x.here = ['/', 'd'] ∧ x.state.getCageCwd 2 = ['/'] ∧
    granted (nsGetcwdHandler x.state ⟨.getcwd, fun _ => 1, fun _ => 2⟩) ≠
      granted (getcwdMeant x.state ['/'] ⟨.getcwd, fun _ => 1, fun _ => 2⟩) := by
  have hrun : ∃ x, [sideCall .open "/d" 0 0 [3], sideCall .fchdir "" 3 0 [0]].foldlM
      (Tracked.step 2) trackedStart = some x ∧ x.here = ['/', 'd'] ∧
      x.state.getCageCwd 2 = ['/'] := by decide +kernel
  rcases hrun with ⟨x, hx, hhere, hcwd⟩
  refine ⟨x, hx, hhere, hcwd, fun h => ?_⟩
  rw [getcwdMeant, if_neg (by decide)] at h
  cases (Prod.mk.inj h).1

end LindGrates.FsClamp
