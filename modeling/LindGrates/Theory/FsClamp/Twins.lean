import LindGrates.Theory.FsClamp.Frame

/-!
# Cages with the Same Policy

Two cages for which the clamp keeps the same are treated alike: whatever call the
one makes, the same call of the other is passed on to the same side, under the
same numbers, as long as the replies are the same.

## Main definitions

* `Twin`: The clamp keeps the same for two cages.
* `RoutedAlike`: Two handlers pass on the same calls, each for its cage.

## Theorems

* `alike_nsHandler`: The calls of twins are passed on alike.
-/

namespace LindGrates.FsClamp

open FdTables Posix Dialogue World LawfulFdTables Option

variable {T : Type}

/-- The same question on behalf of another cage. -/
def AskedFor (c : Nat) : Ask → Ask → Prop
  | .syscall f, q => q = .syscall { f with cage := c, argcages := fun _ => c }
  | .copyOut _ ptr bytes, q => q = .copyOut c ptr bytes
  | _, _ => False

/-- Two handlers pass on the same calls, the second for another cage. -/
def RoutedAlike (c : Nat) (d d' : Asking (State T × Int)) : Prop :=
  Abreast (AskedFor c) (fun _ _ => True) d d'

theorem alike_done {c : Nat} {x y : State T × Int} : RoutedAlike c (.done x) (.done y) :=
  trivial

/-- For the cage in the first state and the cage in the second the clamp keeps the
    same. -/
structure Twin [FdTables T] (p : Nat) (s : State T) (c : Nat) (s' : State T) : Prop where
  pre : s'.routingPrefix = s.routingPrefix
  routes : s'.routes c = s.routes p
  cwd : s'.getCageCwd c = s.getCageCwd p
  fds : translateVirtualFd s'.fds c = translateVirtualFd s.fds p
  mmaps : s'.clampedMmaps c = s.clampedMmaps p
  exist : checkCageExists s.fds p = true ∧ checkCageExists s'.fds c = true

variable [FdTables T] {p c : Nat} {s s' : State T} {mem mem' : Memory}

/-! ## What is decided alike -/

theorem Twin.routeIf (h : Twin p s c s') (sys : Sys) (clamp : Bool) :
    s'.routeIf c sys clamp = s.routeIf p sys clamp := by
  unfold State.routeIf State.getRoute
  rw [h.routes]

theorem Twin.resolve (h : Twin p s c s') (path : Str) :
    s'.resolvePathForCage c path = s.resolvePathForCage p path := by
  unfold State.resolvePathForCage
  rw [h.cwd]

theorem Twin.pathMatchesPrefix (h : Twin p s c s') (path : Str) :
    s'.pathMatchesPrefix path = s.pathMatchesPrefix path := by
  unfold State.pathMatchesPrefix
  rw [h.pre]

omit [FdTables T] in
theorem readPath_congr (hmem : mem' c = mem p) (ptr : Word) :
    readPathFromCage mem' ptr c = readPathFromCage mem ptr p := by
  rw [readPathFromCage, readPathFromCage, hmem]

section

variable (h : Twin p s c s')

include h

theorem Twin.translateDirfd (path : Str) (args : Fin 6 → Word) :
    translateDirfd s' c path args = translateDirfd s p path args := by
  unfold FsClamp.translateDirfd
  rw [h.fds]

theorem Twin.isClampedMmap (addr len : Nat) :
    s'.isClampedMmap c addr len = s.isClampedMmap p addr len := by
  unfold State.isClampedMmap
  rw [h.mmaps]

variable (hmem : mem' c = mem p)

include hmem

theorem Twin.matchesAt (ptr : Word) :
    s'.matchesAt mem' c ptr c = s.matchesAt mem p ptr p := by
  unfold State.matchesAt State.resolvePathFromCage
  rw [readPath_congr hmem, funext h.resolve, funext h.pathMatchesPrefix]

theorem Twin.prepare (dirfd ptr : Word) (args : Fin 6 → Word) (i : Fin 6) :
    prepareAtPathRoute s' mem' c dirfd ptr c args i =
      prepareAtPathRoute s mem p dirfd ptr p args i := by
  unfold prepareAtPathRoute
  simp only [readPath_congr hmem, h.pathMatchesPrefix, h.resolve, h.fds]

theorem Twin.fstatatClamps (sys : Sys) (args : Fin 6 → Word) (path : Str) (clamped : Bool) :
    fstatatClamps s' mem' (ownCall c sys args) path clamped =
      fstatatClamps s mem (ownCall p sys args) path clamped := by
  simp only [FsClamp.fstatatClamps, h.pathMatchesPrefix, h.matchesAt hmem]

theorem Twin.openatClamps (sys : Sys) (args : Fin 6 → Word) (path : Str) (clamped : Bool) :
    openatClamps s' mem' (ownCall c sys args) path clamped =
      openatClamps s mem (ownCall p sys args) path clamped := by
  simp only [FsClamp.openatClamps, h.matchesAt hmem]

end

/-! ## What is passed on alike -/

omit [FdTables T] in
theorem alike_doSyscall {A : Type} {post : A → A → Prop} {nr nr' : Nr} {args args' : Fin 6 → Word}
    {k k' : Int → Asking A} (hnr : nr' = nr) (hargs : args' = args)
    (h : ∀ ret, Abreast (AskedFor c) post (k ret) (k' ret)) :
    Abreast (AskedFor c) post (doSyscall p nr args (fun _ => p) >>= k)
      (doSyscall c nr' args' (fun _ => c) >>= k') := by
  rw [hnr, hargs]
  exact abreast_request rfl h

theorem alike_callClamped (h : Twin p s c s') (sys : Sys) (args : Fin 6 → Word) :
    Abreast (AskedFor c) Eq (s.callClamped p sys args fun _ => p)
      (s'.callClamped c sys args fun _ => c) := by
  unfold State.callClamped State.getRoute
  rw [h.routes]
  split
  · exact ⟨rfl, fun _ => rfl⟩
  · exact ⟨rfl, fun _ => rfl⟩

theorem alike_dupUnder (h : Twin p s c s') (entry : FDTableEntry) :
    Abreast (AskedFor c) Eq (dupUnder s p entry) (dupUnder s' c entry) := by
  unfold dupUnder
  split
  · exact alike_callClamped h _ _
  · exact ⟨rfl, fun _ => rfl⟩

omit [FdTables T] in
theorem routedAlike_bind {d d' : Asking Int} {k k' : Int → Asking (State T × Int)}
    (hd : Abreast (AskedFor c) Eq d d') (h : ∀ ret, RoutedAlike c (k ret) (k' ret)) :
    RoutedAlike c (d >>= k) (d' >>= k') := by
  refine abreast_bind hd fun ret ret' hret => ?_
  rw [← hret]
  exact h ret

section Lawful

variable [LawfulFdTables T]

section

variable (h : Twin p s c s')

include h

theorem Twin.getUnused (e : FDTableEntry) :
    (getUnusedVirtualFd s'.fds c e).isSome = (getUnusedVirtualFd s.fds p e).isSome := by
  rcases hp : getUnusedVirtualFd s.fds p e with _ | r
  · have hfull := getUnused_none _ _ _ h.exist.1 hp
    rcases hc : getUnusedVirtualFd s'.fds c e with _ | r
    · rfl
    have hlaw := getUnused_some _ _ _ _ _ hc
    rw [h.fds] at hlaw
    exact absurd hlaw.2.2.1 (hfull r.1 hlaw.2.1)
  have hlaw := getUnused_some _ _ _ _ _ hp
  cases hc : getUnusedVirtualFd s'.fds c e with
  | none =>
    have hfull := getUnused_none _ _ _ h.exist.2 hc
    rw [h.fds] at hfull
    exact absurd hlaw.2.2.1 (hfull r.1 hlaw.2.1)
  | some => rfl

theorem alike_installUnused (ret : Int) (perfdinfo : Nat) :
    RoutedAlike c (installUnused s p ret perfdinfo) (installUnused s' c ret perfdinfo) := by
  have hsome := h.getUnused (underEntry ret false perfdinfo)
  unfold installUnused
  rcases hp : getUnusedVirtualFd s.fds p (underEntry ret false perfdinfo) with _ | _
  · rw [hp, isSome_none, isSome_eq_false_iff, isNone_iff_eq_none] at hsome
    rw [hsome]
    exact ⟨rfl, fun _ => trivial⟩
  rw [hp, isSome_some] at hsome
  rcases isSome_iff_exists.mp hsome with ⟨r', hc⟩
  rw [hc]
  exact alike_done

theorem Twin.getSpecific (fd : Nat) (e : FDTableEntry) :
    (getSpecificVirtualFd s'.fds c fd e).isSome = (getSpecificVirtualFd s.fds p fd e).isSome := by
  rcases hp : getSpecificVirtualFd s.fds p fd e with _ | _
  · have hlimit := getSpecific_none _ _ _ _ h.exist.1 hp
    rcases hc : getSpecificVirtualFd s'.fds c fd e with _ | _
    · rfl
    have hlaw := getSpecific_some _ _ _ _ _ hc
    exact absurd hlaw.2.1 (Nat.not_lt.mpr hlimit)
  have hlaw := getSpecific_some _ _ _ _ _ hp
  cases hc : getSpecificVirtualFd s'.fds c fd e with
  | none =>
    have hlimit := getSpecific_none _ _ _ _ h.exist.2 hc
    exact absurd hlaw.2.1 (Nat.not_lt.mpr hlimit)
  | some => rfl

theorem alike_installAt (newfd : Word) (ret : Int) (cloexec : Bool)
    (perfdinfo : Nat) : RoutedAlike c (installAt s p newfd ret cloexec perfdinfo)
      (installAt s' c newfd ret cloexec perfdinfo) := by
  have hsome := h.getSpecific newfd.toNat (underEntry ret cloexec perfdinfo)
  unfold installAt
  rcases hp : getSpecificVirtualFd s.fds p newfd.toNat (underEntry ret cloexec perfdinfo) with _ | _
  · rw [hp, isSome_none, isSome_eq_false_iff, isNone_iff_eq_none] at hsome
    rw [hsome]
    exact ⟨rfl, fun _ => trivial⟩
  rw [hp, isSome_some] at hsome
  rcases isSome_iff_exists.mp hsome with ⟨t', hc⟩
  rw [hc]
  exact alike_done

theorem Twin.close {fd : Nat} {e : FDTableEntry} (he : translateVirtualFd s.fds p fd = some e) :
    Twin p { s with fds := (closeVirtualfd s.fds p fd).getD s.fds } c
      { s' with fds := (closeVirtualfd s'.fds c fd).getD s'.fds } := by
  rcases hp : closeVirtualfd s.fds p fd with _ | _
  · rw [close_none _ _ _ hp] at he
    cases he
  rcases hc : closeVirtualfd s'.fds c fd with _ | _
  · rw [← h.fds, close_none _ _ _ hc] at he
    cases he
  have hlaw := close_some _ _ _ _ hp
  have hlaw' := close_some _ _ _ _ hc
  refine ⟨h.pre, h.routes, h.cwd, ?_, h.mmaps, ?_⟩
  · funext x
    simp only [getD_some, hlaw.2.1, hlaw'.2.1, lookupUpdate, true_and, h.fds]
  · simp only [getD_some, hlaw.2.2, hlaw'.2.2]
    exact h.exist

theorem alike_closeTarget (newfd : Word) :
    Abreast (AskedFor c) (fun s1 s₁' => Twin p s1 c s₁') (closeTarget s p newfd)
      (closeTarget s' c newfd) := by
  unfold closeTarget
  rw [h.fds]
  cases he : translateVirtualFd s.fds p newfd.toNat with
  | none => exact abreast_done h
  | some => exact alike_doSyscall rfl rfl fun _ => abreast_done (h.close he)

end

end Lawful

/-! ## The handlers -/

/-- Two handlers pass on the same calls when a cage and its twin make one. -/
def Passes (p c : Nat) (sys : Sys) (args : Fin 6 → Word)
    (d d' : Request → Asking (State T × Int)) : Prop :=
  RoutedAlike c (d (ownCall p sys args)) (d' (ownCall c sys args))

variable (sys0 : Sys) (args : Fin 6 → Word)

section

variable (h : Twin p s c s')

include h

theorem alike_fdRouteHandler (sys : Sys) :
    Passes p c sys0 args (fdRouteHandler sys s) (fdRouteHandler sys s') := by
  simp only [Passes, fdRouteHandler, h.fds]
  split
  · exact alike_done
  split
  · exact routedAlike_bind (alike_callClamped h _ _) fun _ => alike_done
  · exact alike_doSyscall rfl rfl fun _ => alike_done

section

variable (hmem : mem' c = mem p)

include hmem

theorem alike_pathHandler (sys : Sys) :
    Passes p c sys0 args (pathHandler sys s mem) (pathHandler sys s' mem') := by
  refine alike_doSyscall ((h.routeIf _ _).trans ?_) rfl fun _ => alike_done
  exact congrArg _ (h.matchesAt hmem _)

theorem alike_atHandler (sys : Sys) (i j : Fin 6) :
    Passes p c sys0 args (atHandler sys i j s mem) (atHandler sys i j s' mem') := by
  simp only [Passes, atHandler, h.prepare hmem]
  split
  · exact alike_done
  · exact alike_doSyscall (h.routeIf _ _) rfl fun _ => alike_done

theorem alike_fstatat :
    Passes p c sys0 args (nsFstatatHandler s mem) (nsFstatatHandler s' mem') := by
  unfold Passes nsFstatatHandler
  simp only [h.fstatatClamps hmem]
  simp only [readPath_congr hmem, h.translateDirfd]
  split
  · exact alike_done
  split
  · exact routedAlike_bind (alike_callClamped h _ _) fun _ => alike_done
  · exact alike_doSyscall rfl rfl fun _ => alike_done

theorem alike_symlink :
    Passes p c sys0 args (nsSymlinkHandler s mem) (nsSymlinkHandler s' mem') := by
  refine alike_doSyscall ((h.routeIf _ _).trans ?_) rfl fun _ => alike_done
  exact congrArg _ (h.matchesAt hmem _)

theorem alike_chdir : Passes p c sys0 args (nsChdirHandler s mem) (nsChdirHandler s' mem') := by
  simp only [Passes, nsChdirHandler, readPath_congr hmem, h.resolve, h.pathMatchesPrefix]
  split
  · exact alike_done
  · exact alike_doSyscall (h.routeIf _ _) rfl fun _ => alike_done

theorem alike_utimensat :
    Passes p c sys0 args (nsUtimensatHandler s mem) (nsUtimensatHandler s' mem') := by
  simp only [Passes, nsUtimensatHandler, h.fds]
  by_cases hnull : args 1 = 0
  · rw [if_pos hnull, if_pos hnull]
    by_cases hcwd : args 0 = atFdcwd
    · rw [if_pos hcwd, if_pos hcwd]
      exact alike_doSyscall (h.routeIf _ _) rfl fun _ => alike_done
    rw [if_neg hcwd, if_neg hcwd]
    split
    · exact alike_done
    · exact alike_doSyscall (h.routeIf _ _) rfl fun _ => alike_done
  · rw [if_neg hnull, if_neg hnull]
    exact alike_atHandler sys0 args h hmem _ _ _

theorem alike_linkat : Passes p c sys0 args (nsLinkatHandler s mem) (nsLinkatHandler s' mem') := by
  simp only [Passes, nsLinkatHandler, h.prepare hmem]
  split
  · exact alike_done
  split
  · exact alike_done
  · exact alike_doSyscall (h.routeIf _ _) rfl fun _ => alike_done

end

theorem alike_close : Passes p c sys0 args (nsCloseHandler s) (nsCloseHandler s') := by
  simp only [Passes, nsCloseHandler, h.fds]
  split
  · exact alike_done
  refine alike_doSyscall (h.routeIf _ _) rfl fun ret => ?_
  split
  · exact alike_done
  · exact alike_done

theorem alike_mmap : Passes p c sys0 args (nsMmapHandler s) (nsMmapHandler s') := by
  simp only [Passes, nsMmapHandler, h.fds]
  by_cases hanon : args 3 &&& mapAnon ≠ 0
  · rw [if_pos hanon, if_pos hanon]
    exact alike_doSyscall rfl rfl fun _ => alike_done
  rw [if_neg hanon, if_neg hanon]
  split
  · exact alike_done
  split
  · exact routedAlike_bind (alike_callClamped h _ _) fun _ => alike_done
  · exact alike_doSyscall rfl rfl fun _ => alike_done

theorem alike_munmap : Passes p c sys0 args (nsMunmapHandler s) (nsMunmapHandler s') := by
  simp only [Passes, nsMunmapHandler, State.getRoute, h.routes, h.isClampedMmap]
  split
  · exact alike_doSyscall rfl rfl fun _ => alike_done
  split
  · exact abreast_request rfl fun _ => alike_done
  · exact alike_doSyscall rfl rfl fun _ => alike_done

theorem alike_fcntl : Passes p c sys0 args (nsFcntlHandler s) (nsFcntlHandler s') := by
  simp only [Passes, nsFcntlHandler, h.fds]
  split
  · exact alike_done
  refine alike_doSyscall (h.routeIf _ _) rfl fun ret => ?_
  split
  · -- nothing is asked any more
    cases getUnusedVirtualFdFromStartfd s.fds p _ _ with
    | none | some =>
      cases getUnusedVirtualFdFromStartfd s'.fds c _ _ with
      | none | some => exact alike_done
  · exact alike_done

end

variable [LawfulFdTables T] (h : Twin p s c s')

include h

theorem alike_installIf (ret : Int) (perfdinfo : Nat) :
    RoutedAlike c (if 0 ≤ ret then installUnused s p ret perfdinfo else .done (s, ret))
      (if 0 ≤ ret then installUnused s' c ret perfdinfo else .done (s', ret)) := by
  split
  · exact alike_installUnused h ret perfdinfo
  · exact alike_done

theorem alike_open (hmem : mem' c = mem p) :
    Passes p c sys0 args (nsOpenHandler s mem) (nsOpenHandler s' mem') := by
  simp only [Passes, nsOpenHandler, h.matchesAt hmem]
  exact alike_doSyscall (h.routeIf _ _) rfl fun ret => alike_installIf h ret _

theorem alike_openat (hmem : mem' c = mem p) :
    Passes p c sys0 args (nsOpenatHandler s mem) (nsOpenatHandler s' mem') := by
  unfold Passes nsOpenatHandler
  simp only [h.openatClamps hmem]
  simp only [readPath_congr hmem, h.translateDirfd]
  split
  · exact alike_done
  split
  · exact routedAlike_bind (alike_callClamped h _ _) fun ret => alike_installIf h ret _
  · exact alike_doSyscall rfl rfl fun ret => alike_installIf h ret _

theorem alike_dup : Passes p c sys0 args (nsDupHandler s) (nsDupHandler s') := by
  simp only [Passes, nsDupHandler, h.fds]
  split
  · exact alike_done
  refine routedAlike_bind (alike_dupUnder h _) fun ret => ?_
  split
  · exact alike_done
  · exact alike_installUnused h ret _

theorem alike_dup2 : Passes p c sys0 args (nsDup2Handler s) (nsDup2Handler s') := by
  simp only [Passes, nsDup2Handler, h.fds]
  split
  · exact alike_done
  split
  · exact alike_done
  refine abreast_bind (alike_closeTarget h _) fun s1 s₁' h1 => ?_
  refine routedAlike_bind (alike_dupUnder h1 _) fun ret => ?_
  split
  · exact alike_done
  · exact alike_installAt h1 _ _ _ _

theorem alike_dup3 : Passes p c sys0 args (nsDup3Handler s) (nsDup3Handler s') := by
  simp only [Passes, nsDup3Handler, h.fds]
  split
  · exact alike_done
  split
  · exact alike_done
  refine abreast_bind (alike_closeTarget h _) fun s1 s₁' h1 => ?_
  refine routedAlike_bind (alike_dupUnder h1 _) fun ret => ?_
  split
  · exact alike_done
  split
  · refine alike_doSyscall rfl rfl fun fcntlRet => ?_
    split
    · exact alike_doSyscall rfl rfl fun _ => alike_done
    · exact alike_installAt h1 _ _ _ _
  · exact alike_installAt h1 _ _ _ _

theorem alike_nsHandler (hmem : mem' c = mem p) (sys : Sys) :
    Option.Rel (RoutedAlike c) (nsHandler s mem (ownCall p sys args))
      (nsHandler s' mem' (ownCall c sys args)) := by
  cases sys with
  | «open» => exact .some (alike_open _ args h hmem)
  | openat => exact .some (alike_openat _ args h hmem)
  | getcwd =>
    refine .some (abreast_request ?_ fun _ => alike_done)
    exact congrArg (fun cwd : Str => Ask.copyOut c _ ((cwd.bytes ++ [0]).take maxPathLen)) h.cwd
  | linkat => exact .some (alike_linkat _ args h hmem)
  | chdir => exact .some (alike_chdir _ args h hmem)
  | symlink => exact .some (alike_symlink _ args h hmem)
  | close => exact .some (alike_close _ args h)
  | newfstatat => exact .some (alike_fstatat _ args h hmem)
  | fcntl => exact .some (alike_fcntl _ args h)
  | utimensat => exact .some (alike_utimensat _ args h hmem)
  | mmap => exact .some (alike_mmap _ args h)
  | munmap => exact .some (alike_munmap _ args h)
  | dup => exact .some (alike_dup _ args h)
  | dup2 => exact .some (alike_dup2 _ args h)
  | dup3 => exact .some (alike_dup3 _ args h)
  | clone | exec | exitGroup | registerHandler | other => exact .none
  | _ =>
    first
      | exact .some (alike_pathHandler _ args h hmem _)
      | exact .some (alike_fdRouteHandler _ args h _)
      | exact .some (alike_atHandler _ args h hmem _ _ _)

end LindGrates.FsClamp
