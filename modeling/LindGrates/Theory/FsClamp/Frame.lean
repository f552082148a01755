import LindGrates.Core.FsClamp.Tree

/-!
# What a Call of a Cage Touches

A file system call changes what the clamp keeps for the cage that makes it and
for no other cage. It changes no routes and registers nothing.

## Main definitions

* `Touches`: Two states differ for one cage only, and in its tables only.
* `Tame`: A handler registers nothing and touches one cage only.

## Theorems

* `touches_nsHandler`: Every handler is tame.
-/

namespace LindGrates.FsClamp

open FdTables Posix Dialogue Function LawfulFdTables

variable {T : Type} {t : T} {ret : Int} {args : Fin 6 → Word} {argcages : Fin 6 → Nat}

/-- A question that is no registration. -/
def Ask.Plain : Ask → Prop
  | .syscall _ | .copyOut _ _ _ => True
  | _ => False

/-- The second state differs from the first at most in the working directory, the
    mapped ranges and the descriptors of one cage. -/
structure Touches [FdTables T] (cage : Nat) (s s' : State T) : Prop where
  entry : s'.clampEntryCage = s.clampEntryCage
  depth : s'.clampDepth = s.clampDepth
  routes : s'.routes = s.routes
  clampedCages : s'.clampedCages = s.clampedCages
  cwd : ∀ c, c ≠ cage → s'.cwdByCage c = s.cwdByCage c
  cwd_own : s'.cwdByCage cage = s.cwdByCage cage ∨
    ∃ path, s'.cwdByCage cage = some (normalizePath path)
  mmaps : ∀ c, c ≠ cage → s'.clampedMmaps c = s.clampedMmaps c
  fds : ∀ c, c ≠ cage → ∀ fd, translateVirtualFd s'.fds c fd = translateVirtualFd s.fds c fd
  exist : checkCageExists s'.fds = checkCageExists s.fds

section Touches

variable [FdTables T] {cage : Nat} {s s' : State T}

theorem Touches.refl (cage : Nat) (s : State T) : Touches cage s s :=
  ⟨rfl, rfl, rfl, rfl, fun _ _ => rfl, .inl rfl, fun _ _ => rfl, fun _ _ _ => rfl, rfl⟩

theorem Touches.trans {s'' : State T} (h : Touches cage s s') (h' : Touches cage s' s'') :
    Touches cage s s'' where
  entry := h'.entry.trans h.entry
  depth := h'.depth.trans h.depth
  routes := h'.routes.trans h.routes
  clampedCages := h'.clampedCages.trans h.clampedCages
  cwd c hc := (h'.cwd c hc).trans (h.cwd c hc)
  cwd_own := by
    rcases h'.cwd_own with h1 | h1
    · rw [h1]
      exact h.cwd_own
    · exact .inr h1
  mmaps c hc := (h'.mmaps c hc).trans (h.mmaps c hc)
  fds c hc fd := (h'.fds c hc fd).trans (h.fds c hc fd)
  exist := h'.exist.trans h.exist

theorem touches_fds
    (hfds : ∀ c, c ≠ cage → ∀ fd, translateVirtualFd t c fd = translateVirtualFd s.fds c fd)
    (hexist : checkCageExists t = checkCageExists s.fds) : Touches cage s { s with fds := t } :=
  { Touches.refl cage s with fds := hfds, exist := hexist }

theorem touches_update {fd : Nat} {e : Option FDTableEntry}
    (h : translateVirtualFd t = lookupUpdate (translateVirtualFd s.fds) cage fd e)
    (hexist : checkCageExists t = checkCageExists s.fds) : Touches cage s { s with fds := t } := by
  refine touches_fds (fun c hc x => ?_) hexist
  rw [h, lookupUpdate, if_neg fun hk => hc hk.1]

theorem touches_setCageCwd (s : State T) (cage : Nat) (cwd : Str) :
    Touches cage s (s.setCageCwd cage cwd) :=
  { Touches.refl cage s with
    cwd := fun _ hc => update_of_ne hc _ _
    cwd_own := .inr ⟨cwd, update_self ..⟩ }

theorem touches_recordClampedMmap (s : State T) (cage addr len : Nat) :
    Touches cage s (s.recordClampedMmap cage addr len) := by
  unfold State.recordClampedMmap
  split
  · exact .refl cage s
  split
  · exact .refl cage s
  · exact { Touches.refl cage s with mmaps := fun _ hc => update_of_ne hc _ _ }

theorem touches_removeClampedMmap (s : State T) (cage addr len : Nat) :
    Touches cage s (s.removeClampedMmap cage addr len) := by
  unfold State.removeClampedMmap
  split
  · exact .refl cage s
  split
  · exact .refl cage s
  split
  · exact .refl cage s
  · exact { Touches.refl cage s with mmaps := fun _ hc => update_of_ne hc _ _ }

end Touches

variable [FdTables T]

/-- A handler asks for nothing but calls and copies, and touches one cage only. -/
def Tame (cage : Nat) (s : State T) (d : Asking (State T × Int)) : Prop :=
  d.Always Ask.Plain fun r => Touches cage s r.1

variable {cage c : Nat} {s s0 : State T} {k : Int → Asking (State T × Int)}

theorem tame_done {s' : State T} (h : Touches cage s s') :
    Tame cage s (.done (s', ret)) :=
  h

theorem tame_stop : Tame cage s (.done (s, ret)) :=
  .refl cage s

theorem tame_ask {f : Forward} (h : ∀ ret, Tame cage s (k ret)) :
    Tame cage s (.ask (.syscall f) k) :=
  ⟨trivial, h⟩

theorem tame_doSyscall {nr : Nr}
    (h : ∀ ret, Tame cage s (k ret)) : Tame cage s (doSyscall c nr args argcages >>= k) :=
  tame_ask h

theorem tame_callClamped {sys : Sys}
    (h : ∀ ret, Tame cage s (k ret)) : Tame cage s (s0.callClamped c sys args argcages >>= k) := by
  unfold State.callClamped
  split
  · exact tame_ask h
  · exact tame_ask h

theorem tame_dupUnder {entry : FDTableEntry} (h : ∀ ret, Tame cage s (k ret)) :
    Tame cage s (dupUnder s0 c entry >>= k) := by
  unfold dupUnder
  split
  · exact tame_callClamped h
  · exact tame_ask h

section Install

variable [LawfulFdTables T]

theorem tame_installUnused (h : Touches cage s0 s) (ret : Int) (perfdinfo : Nat) :
    Tame cage s0 (installUnused s cage ret perfdinfo) := by
  unfold installUnused
  split
  next vfd t hget =>
    have hlaw := getUnused_some _ _ _ _ _ hget
    exact tame_done (h.trans (touches_update hlaw.2.2.2.2.1 hlaw.2.2.2.2.2))
  · exact tame_ask fun _ => tame_done h

theorem tame_installAt (h : Touches cage s0 s) (newfd : Word) (ret : Int) (cloexec : Bool)
    (perfdinfo : Nat) : Tame cage s0 (installAt s cage newfd ret cloexec perfdinfo) := by
  unfold installAt
  split
  next t hget =>
    have hlaw := getSpecific_some _ _ _ _ _ hget
    exact tame_done (h.trans (touches_update hlaw.2.2.1 hlaw.2.2.2))
  · exact tame_ask fun _ => tame_done h

theorem touches_close (s : State T) (cage fd : Nat) :
    Touches cage s { s with fds := (closeVirtualfd s.fds cage fd).getD s.fds } := by
  rcases hclose : closeVirtualfd s.fds cage fd with _ | _
  · exact .refl cage s
  have hlaw := close_some _ _ _ _ hclose
  exact touches_update hlaw.2.1 hlaw.2.2

theorem tame_closeTarget {newfd : Word} {k : State T → Asking (State T × Int)}
    (h : ∀ s', Touches cage s s' → Tame cage s (k s')) :
    Tame cage s (closeTarget s cage newfd >>= k) := by
  unfold closeTarget
  split
  · exact h s (.refl cage s)
  · exact tame_ask fun _ => h _ (touches_close s cage newfd.toNat)

end Install

/-! ## The handlers -/

variable (s : State T) (mem : Memory) (c : Request)

theorem tame_pathHandler (sys : Sys) : Tame (c.argcages 0) s (pathHandler sys s mem c) :=
  tame_doSyscall fun _ => tame_stop

theorem tame_atHandler (sys : Sys) (i j : Fin 6) :
    Tame (c.argcages 0) s (atHandler sys i j s mem c) := by
  unfold atHandler
  simp only []
  split
  · exact tame_stop
  · exact tame_doSyscall fun _ => tame_stop

theorem tame_fdRouteHandler (sys : Sys) : Tame (c.argcages 0) s (fdRouteHandler sys s c) := by
  unfold fdRouteHandler
  simp only []
  split
  · exact tame_stop
  split
  · exact tame_callClamped fun _ => tame_stop
  · exact tame_doSyscall fun _ => tame_stop

theorem tame_chdir : Tame (c.argcages 0) s (nsChdirHandler s mem c) := by
  unfold nsChdirHandler
  simp only []
  split
  · exact tame_stop
  refine tame_doSyscall fun ret => tame_done ?_
  split
  · exact touches_setCageCwd s _ _
  · exact .refl _ s

theorem tame_utimensat : Tame (c.argcages 0) s (nsUtimensatHandler s mem c) := by
  unfold nsUtimensatHandler
  simp only []
  split
  · split
    · exact tame_doSyscall fun _ => tame_stop
    split
    · exact tame_stop
    · exact tame_doSyscall fun _ => tame_stop
  · exact tame_atHandler s mem c _ _ _

theorem tame_linkat : Tame (c.argcages 0) s (nsLinkatHandler s mem c) := by
  unfold nsLinkatHandler
  simp only []
  split
  · exact tame_stop
  split
  · exact tame_stop
  · exact tame_doSyscall fun _ => tame_stop

theorem tame_mmap : Tame (c.argcages 0) s (nsMmapHandler s c) := by
  unfold nsMmapHandler
  simp only []
  split
  · exact tame_doSyscall fun _ => tame_stop
  split
  · exact tame_stop
  split
  · refine tame_callClamped fun ret => tame_done ?_
    split
    · exact touches_recordClampedMmap s _ _ _
    · exact .refl _ s
  · exact tame_doSyscall fun _ => tame_stop

theorem touches_unmap (cage addr len : Nat) (ret : Int) :
    Touches cage s (if ret = 0 then s.removeClampedMmap cage addr len else s) := by
  split
  · exact touches_removeClampedMmap s _ _ _
  · exact .refl _ s

theorem tame_munmap : Tame (c.argcages 0) s (nsMunmapHandler s c) := by
  unfold nsMunmapHandler
  simp only []
  split
  · exact tame_doSyscall fun ret => tame_done (touches_unmap s _ _ _ ret)
  split
  · exact tame_ask fun ret => tame_done (touches_unmap s _ _ _ ret)
  · exact tame_doSyscall fun _ => tame_stop

theorem tame_fstatat : Tame (c.argcages 0) s (nsFstatatHandler s mem c) := by
  unfold nsFstatatHandler
  simp only []
  split
  · exact tame_stop
  split
  · exact tame_callClamped fun _ => tame_stop
  · exact tame_doSyscall fun _ => tame_stop

variable [LawfulFdTables T]

theorem tame_open : Tame (c.argcages 0) s (nsOpenHandler s mem c) := by
  refine tame_doSyscall fun ret => ?_
  split
  · exact tame_installUnused (.refl _ s) ret _
  · exact tame_stop

theorem tame_close : Tame (c.argcages 0) s (nsCloseHandler s c) := by
  unfold nsCloseHandler
  simp only []
  split
  · exact tame_stop
  refine tame_doSyscall fun ret => ?_
  split
  · exact tame_done (touches_close s _ _)
  · exact tame_stop

theorem tame_fcntl : Tame (c.argcages 0) s (nsFcntlHandler s c) := by
  unfold nsFcntlHandler
  simp only []
  split
  · exact tame_stop
  refine tame_doSyscall fun ret => ?_
  split
  · split
    next vfd t hget =>
      have hlaw := getUnusedFrom_some _ _ _ _ _ _ hget
      exact tame_done (touches_update hlaw.2.2.2.2.2.1 hlaw.2.2.2.2.2.2)
    · exact tame_stop
  · exact tame_stop

theorem tame_openat : Tame (c.argcages 0) s (nsOpenatHandler s mem c) := by
  have hrest : ∀ (perfdinfo : Nat) (ret : Int), Tame (c.argcages 0) s
      (if 0 ≤ ret then installUnused s (c.argcages 0) ret perfdinfo else .done (s, ret)) := by
    intro perfdinfo ret
    split
    · exact tame_installUnused (.refl _ s) ret _
    · exact tame_stop
  unfold nsOpenatHandler
  simp only []
  split
  · exact tame_stop
  split
  · exact tame_callClamped (hrest _)
  · exact tame_doSyscall (hrest _)

theorem tame_dup : Tame (c.argcages 0) s (nsDupHandler s c) := by
  unfold nsDupHandler
  simp only []
  split
  · exact tame_stop
  refine tame_dupUnder fun ret => ?_
  split
  · exact tame_stop
  · exact tame_installUnused (.refl _ s) ret _

theorem tame_dup2 : Tame (c.argcages 0) s (nsDup2Handler s c) := by
  unfold nsDup2Handler
  simp only []
  split
  · exact tame_stop
  split
  · exact tame_stop
  refine tame_closeTarget fun s' hs' => tame_dupUnder fun ret => ?_
  split
  · exact tame_done hs'
  · exact tame_installAt hs' _ _ _ _

theorem tame_dup3 : Tame (c.argcages 0) s (nsDup3Handler s c) := by
  unfold nsDup3Handler
  simp only []
  split
  · exact tame_stop
  split
  · exact tame_stop
  refine tame_closeTarget fun s' hs' => tame_dupUnder fun ret => ?_
  split
  · exact tame_done hs'
  split
  · refine tame_doSyscall fun fcntlRet => ?_
    split
    · exact tame_doSyscall fun _ => tame_done hs'
    · exact tame_installAt hs' _ _ _ _
  · exact tame_installAt hs' _ _ _ _

theorem touches_nsHandler {s : State T} {mem : Memory} {c : Request} {d : Asking (State T × Int)}
    (h : nsHandler s mem c = some d) : Tame (c.argcages 0) s d := by
  unfold nsHandler at h
  split at h
  all_goals cases h
  all_goals first
    | exact tame_pathHandler s mem c _
    | exact tame_fdRouteHandler s c _
    | exact tame_atHandler s mem c _ _ _
    | skip
  case h_1 => exact tame_open s mem c
  case h_2 => exact tame_openat s mem c
  case h_5 => exact ⟨trivial, fun _ => Touches.refl _ s⟩
  case h_9 => exact tame_linkat s mem c
  case h_17 => exact tame_chdir s mem c
  case h_19 => exact tame_ask fun _ => tame_stop
  case h_28 => exact tame_close s c
  case h_37 => exact tame_fstatat s mem c
  case h_40 => exact tame_fcntl s c
  case h_46 => exact tame_utimensat s mem c
  case h_51 => exact tame_mmap s c
  case h_52 => exact tame_munmap s c
  case h_53 => exact tame_dup s c
  case h_54 => exact tame_dup2 s c
  case h_55 => exact tame_dup3 s c

end LindGrates.FsClamp
