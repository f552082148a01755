import LindGrates.Base.Run
import LindGrates.Theory.FsClamp.Paths
import LindGrates.Theory.FsClamp.Sides
import LindGrates.Theory.FsClamp.Steps
import LindGrates.Theory.Utf8

/-!
# Two Spaces of Numbers

The kernel and the clamped side hand out descriptor numbers independently, and the
clamp is to pass each number to its own side only. It does so for calls that read or
write a descriptor. It does not in these places: an `open` inside the prefix without
a route makes a kernel descriptor that is kept as a clamped one; without a route
`close`, `fcntl` and `utimensat` take a clamped descriptor to the kernel; what is
replaced or taken back is always closed at the kernel; `dup3` marks its duplicate at
the kernel; and a clamped directory descriptor is passed on under the cage's number.

## Main definitions

* `Keeps`: The condition on a call that avoids these places.
* `Sound`: The entries' numbers are in use on their sides, and no two share one.

## Theorems

* `fine_nsHandler`: Every handler keeps the numbers sound under the condition.
* `spaces_apart`: So does every run.
* `spaces_mixed`: Runs without it in which a number reaches the wrong side.
-/

namespace LindGrates.FsClamp

open FdTables ManagedTables Posix Dialogue Function LawfulFdTables List Forward Sides Option

variable {T : Type} {mem : Memory} {f : Forward} {side : Side} {n fd : Nat} {ret : Int} {t : T}
  {ptr placed newfd : Word} {w : Setting T} {a : SideCall} {j : Fin 6} {clamped : Bool}

/-- A directory descriptor beside a relative path that is clamped, or goes to the
    clamped side, has a number that is in use on the side the call goes to. -/
def DirfdKnown [FdTables T] (cage : Nat) (w : Setting T) (a : SideCall) (side : Side)
    (i j : Fin 6) : Prop :=
  a.args i ≠ atFdcwd → absoluteAt a.mem cage (a.args j) = false →
    ∀ entry, translateVirtualFd w.state.fds cage (a.args i).toNat = some entry →
      (entry.perfdinfo ≠ 0 → w.holds side (a.args i).toNat = true) ∧
        (entry.perfdinfo = 0 → side = .clamped → w.holds side entry.underfd = true)

/-- Whether a name of a call of the `*at` family is clamped. -/
def nameClamped [FdTables T] (cage : Nat) (w : Setting T) (a : SideCall) (i j : Fin 6) : Bool :=
  match prepareAtPathRoute w.state a.mem cage (a.args i) (a.args j) cage a.args i with
  | .ok (clamped, _) => clamped
  | .error _ => false

/-- The condition on a call: no number is taken to the wrong side. -/
def Keeps [FdTables T] (cage : Nat) (w : Setting T) (a : SideCall) : Prop :=
  let s := w.state
  let args := a.args
  let ret := a.replies[0]?.getD 0
  match a.sys with
  | .open =>
    s.matchesAt a.mem cage (args 0) cage = true →
      ret < 0 ∨ ((s.getRoute cage .open).isSome = true ∧ Room s cage)
  | .openat =>
    DirfdKnown cage w a .clamped 0 1 ∧
      (ret < 0 ∨ Room s cage ∨ ∀ clamped passed,
        translateDirfd s cage ((readPathFromCage a.mem (args 1) cage).getD []) args =
          .ok (clamped, passed) →
        openatClamps s a.mem ⟨a.sys, args, fun _ => cage⟩
          ((readPathFromCage a.mem (args 1) cage).getD []) clamped = false)
  | .newfstatat => DirfdKnown cage w a .clamped 0 1
  | .unlinkat | .readlinkat | .statx | .faccessat | .fchmodat | .fchownat =>
    DirfdKnown cage w a (s.routeSide cage a.sys (nameClamped cage w a 0 1)) 0 1
  | .symlinkat => DirfdKnown cage w a (s.routeSide cage a.sys (nameClamped cage w a 1 2)) 1 2
  | .linkat =>
    let side := s.routeSide cage a.sys (nameClamped cage w a 0 1 || nameClamped cage w a 2 3)
    DirfdKnown cage w a side 0 1 ∧ DirfdKnown cage w a side 2 3
  | .utimensat =>
    if args 1 = 0 then
      args 0 ≠ atFdcwd → ∀ entry, translateVirtualFd s.fds cage (args 0).toNat = some entry →
        entry.perfdinfo = 0 ∨ (s.getRoute cage a.sys).isSome = true
    else DirfdKnown cage w a (s.routeSide cage a.sys (nameClamped cage w a 0 1)) 0 1
  | .close | .fcntl =>
    ∀ entry, translateVirtualFd s.fds cage (args 0).toNat = some entry →
      entry.perfdinfo = 0 ∨ (s.getRoute cage a.sys).isSome = true
  | .dup =>
    ∀ entry, translateVirtualFd s.fds cage (args 0).toNat = some entry →
      entry.perfdinfo = 0 ∨ ret < 0 ∨ Room s cage
  | .dup2 =>
    ∀ entry, translateVirtualFd s.fds cage (args 0).toNat = some entry → args 0 ≠ args 1 →
      (∀ target, translateVirtualFd s.fds cage (args 1).toNat = some target →
        target.perfdinfo = 0) ∧
      (entry.perfdinfo = 0 ∨ ret < 0 ∨ (args 1).toNat < fdLimit T)
  | .dup3 =>
    ∀ entry, translateVirtualFd s.fds cage (args 0).toNat = some entry →
      ¬(args 0 = args 1 ∨ args 2 &&& ~~~oCloexec ≠ 0) →
      (∀ target, translateVirtualFd s.fds cage (args 1).toNat = some target →
        target.perfdinfo = 0) ∧
      (entry.perfdinfo = 0 ∨ ret < 0 ∨
        (args 2 &&& oCloexec = 0 ∧ (args 1).toNat < fdLimit T))
  | _ => True

/-! ## The invariant -/

/-- The numbers of a cage's entries are in use on their sides, no two entries share
    one, and every number that was passed to a side was in use there. -/
structure Sound [FdTables T] (cage : Nat) (s : State T) (x : Sides) : Prop where
  exist : checkCageExists s.fds cage = true
  held : ∀ fd e, translateVirtualFd s.fds cage fd = some e →
    e.underfd < 2 ^ 31 ∧ x.holds (entrySide e) e.underfd = true
  distinct : ∀ fd fd' e e', translateVirtualFd s.fds cage fd = some e →
    translateVirtualFd s.fds cage fd' = some e' → entrySide e = entrySide e' →
    e.underfd = e'.underfd → fd = fd'
  passed : ∀ p ∈ x.passed, p.2.2 = true

def Known (mem : Memory) (x : Sides) (f : Forward) : Prop :=
  ∀ fd ∈ f.named mem, x.holds f.side fd = true

/-- A program leaves the numbers where they belong. -/
@[reducible]
def Leaves [FdTables T] (cage : Nat) (mem : Memory) (x : Sides) (d : Asking (State T × Int)) :
    Prop :=
  Ensures (serve mem) d x fun x' r => Sound cage r.1 x'

/-- A descriptor that a side has made and no entry has yet. -/
structure New [FdTables T] (cage : Nat) (s : State T) (x : Sides) (side : Side) (ret : Int) :
    Prop where
  sound : Sound cage s x
  nonneg : 0 ≤ ret ∧ ret < 2 ^ 31
  held : x.holds side ret.toNat = true
  unused : ∀ fd e, translateVirtualFd s.fds cage fd = some e → entrySide e = side →
    e.underfd ≠ ret.toNat

theorem passed_note {x : Sides} (hx : ∀ p ∈ x.passed, p.2.2 = true) (hknown : Known mem x f) :
    ∀ p ∈ (x.note mem f).passed, p.2.2 = true := by
  intro p hp
  rcases mem_append.mp hp with hp | hp
  · exact hx p hp
  rcases mem_map.mp hp with ⟨fd, hfd, hp⟩
  rw [← hp]
  exact hknown fd hfd

section Sound

variable [FdTables T] {cage : Nat} {s s' : State T} {x x' : Sides} {mem : Memory} {f : Forward}
  {k : Int → Asking (State T × Int)}

theorem Sound.congr (h : Sound cage s x) (hholds : x'.holds = x.holds)
    (hpassed : ∀ p ∈ x'.passed, p.2.2 = true) : Sound cage s x' :=
  ⟨h.exist, by rw [hholds]; exact h.held, h.distinct, hpassed⟩

theorem Sound.of_fds (h : Sound cage s x) (hfds : s'.fds = s.fds) : Sound cage s' x := by
  refine ⟨?_, ?_, ?_, h.passed⟩
  · rw [hfds]
    exact h.exist
  · rw [hfds]
    exact h.held
  · rw [hfds]
    exact h.distinct

theorem Sound.mark (h : Sound cage s x) {b : Bool}
    (hunused : ∀ fd e, translateVirtualFd s.fds cage fd = some e → entrySide e = side →
      e.underfd ≠ n)
    (hholds : x'.holds = (x.mark side n b).holds) (hpassed : ∀ p ∈ x'.passed, p.2.2 = true) :
    Sound cage s x' := by
  refine ⟨h.exist, fun fd e he => ⟨(h.held fd e he).1, ?_⟩, h.distinct, hpassed⟩
  rw [hholds, mark_of_ne x b]
  · exact (h.held fd e he).2
  · by_cases hside : entrySide e = side
    · exact .inr (hunused fd e he hside)
    · exact .inl hside

variable {fd : Nat} {e : FDTableEntry}

theorem Sound.toNat_underfd (h : Sound cage s x) (he : translateVirtualFd s.fds cage fd = some e) :
    (BitVec.ofNat 64 e.underfd).toNat = e.underfd := by
  have hlt := (h.held fd e he).1
  rw [BitVec.toNat_ofNat]
  omega

theorem sound_other (hclose : f.nr.sys ≠ .close) (hmakes : f.makes = false)
    (h : Sound cage s x) (hknown : Known mem x f)
    (hk : ∀ x' ret, Sound cage s x' → x'.holds = x.holds → Leaves cage mem x' (k ret)) :
    Leaves cage mem x (request (.syscall f) >>= k) := by
  refine ensures_request fun x' ret hserve => ?_
  rcases serve_other hclose hmakes hserve with ⟨_, _, hpassed, hholds⟩
  refine hk x' ret (h.congr hholds ?_) hholds
  rw [hpassed]
  exact passed_note h.passed hknown

theorem sound_make (hclose : f.nr.sys ≠ .close) (hmakes : f.makes = true)
    (h : Sound cage s x) (hknown : Known mem x f)
    (hneg : ∀ x' ret, ret < 0 → Sound cage s x' → Leaves cage mem x' (k ret))
    (hnew : ∀ x' ret, x.replies = ret :: x'.replies → New cage s x' f.side ret →
      Leaves cage mem x' (k ret)) : Leaves cage mem x (request (.syscall f) >>= k) := by
  refine ensures_request fun x' ret hserve => ?_
  rcases serve_makes hclose hmakes hserve with ⟨hreplies, hpassed, hmake⟩
  have hall : ∀ p ∈ x'.passed, p.2.2 = true := by
    rw [hpassed]
    exact passed_note h.passed hknown
  cases hmake with
  | refused hlt hholds => exact hneg x' ret hlt (h.congr hholds hall)
  | given hpos hfree hholds =>
    -- a number that was free belongs to no entry
    have hunused : ∀ fd e, translateVirtualFd s.fds cage fd = some e → entrySide e = f.side →
        e.underfd ≠ ret.toNat := by
      intro fd e he hside hfd
      have hheld := (h.held fd e he).2
      rw [hside, hfd, hfree] at hheld
      cases hheld
    refine hnew x' ret hreplies ⟨h.mark hunused hholds hall, hpos, ?_, hunused⟩
    rw [hholds]
    exact mark_self ..

theorem sound_close (hclose : f.nr.sys = .close) (hall : ∀ p ∈ x.passed, p.2.2 = true)
    (hn : (f.args 0).toNat = n) (hheld : x.holds f.side n = true)
    (hk : ∀ x', x'.replies = x.replies → x'.holds = (x.mark f.side n false).holds →
      (∀ p ∈ x'.passed, p.2.2 = true) → Leaves cage mem x' (k 0)) :
    Leaves cage mem x (request (.syscall f) >>= k) := by
  refine ensures_request fun x' ret hserve => ?_
  rcases serve_close hclose hserve with ⟨hreplies, _, hpassed, hholds, hret⟩
  rw [hn] at hholds hret
  rw [hret hheld]
  refine hk x' hreplies hholds ?_
  rw [hpassed]
  refine passed_note hall fun fd hfd => ?_
  simp only [named, hclose, mem_singleton] at hfd
  rw [hfd, hn]
  exact hheld

/-- A new descriptor that is not entered is closed again, which is right for one of
    the kernel. -/
theorem sound_takeBack {code : Int} (h : New cage s x .kernel ret) :
    Leaves cage mem x (closeUnder cage (wordOf ret) >>= fun _ => .done (s, code)) := by
  refine sound_close rfl h.sound.passed (toNat_wordOf h.nonneg) h.held fun x' _ hholds hall => ?_
  exact ensures_done (h.sound.mark h.unused hholds hall)

theorem New.enter (h : New cage s x side ret)
    (he : e.underfd = ret.toNat) (hside : entrySide e = side)
    (ht : translateVirtualFd t = lookupUpdate (translateVirtualFd s.fds) cage fd (some e))
    (hexist : checkCageExists t = checkCageExists s.fds) : Sound cage { s with fds := t } x := by
  have hlook : ∀ fd' e', translateVirtualFd t cage fd' = some e' →
      (fd' = fd ∧ some e = some e') ∨ fd' ≠ fd ∧ translateVirtualFd s.fds cage fd' = some e' :=
    fun fd' e' h' => lookupUpdate_cases (ht ▸ h')
  refine ⟨?_, ?_, ?_, h.sound.passed⟩
  · simp only [hexist]
    exact h.sound.exist
  · intro fd' e' h'
    rcases hlook fd' e' h' with ⟨_, heq⟩ | ⟨_, hold⟩
    · cases heq
      rw [he, hside]
      have := h.nonneg
      exact ⟨by omega, h.held⟩
    · exact h.sound.held fd' e' hold
  · intro fd1 fd2 e1 e2 h1 h2 hsides hunder
    rcases hlook fd1 e1 h1 with ⟨hfd1, heq1⟩ | ⟨_, hold1⟩
    · rcases hlook fd2 e2 h2 with ⟨hfd2, _⟩ | ⟨_, hold2⟩
      · rw [hfd1, hfd2]
      · cases heq1
        exact absurd (hunder.symm.trans he) (h.unused fd2 e2 hold2 (hsides.symm.trans hside))
    rcases hlook fd2 e2 h2 with ⟨_, heq2⟩ | ⟨_, hold2⟩
    · cases heq2
      exact absurd (hunder.trans he) (h.unused fd1 e1 hold1 (hsides.trans hside))
    · exact h.sound.distinct fd1 fd2 e1 e2 hold1 hold2 hsides hunder

theorem Sound.drop (h : Sound cage s x) (he : translateVirtualFd s.fds cage fd = some e)
    (ht : translateVirtualFd t = lookupUpdate (translateVirtualFd s.fds) cage fd none)
    (hexist : checkCageExists t = checkCageExists s.fds)
    (hholds : x'.holds = (x.mark (entrySide e) e.underfd false).holds)
    (hpassed : ∀ p ∈ x'.passed, p.2.2 = true) : Sound cage { s with fds := t } x' := by
  have hlook : ∀ fd' e', translateVirtualFd t cage fd' = some e' →
      fd' ≠ fd ∧ translateVirtualFd s.fds cage fd' = some e' := by
    intro fd' e' h'
    rcases lookupUpdate_cases (ht ▸ h') with ⟨_, hnone⟩ | hold
    · cases hnone
    · exact hold
  have hless : Sound cage { s with fds := t } x := by
    refine ⟨?_, fun fd' e' h' => h.held fd' e' (hlook fd' e' h').2,
      fun fd1 fd2 e1 e2 h1 h2 => h.distinct fd1 fd2 e1 e2 (hlook fd1 e1 h1).2 (hlook fd2 e2 h2).2,
      h.passed⟩
    simp only [hexist]
    exact h.exist
  refine hless.mark (fun fd' e' h' hside hunder => ?_) hholds hpassed
  rcases hlook fd' e' h' with ⟨hne, hold⟩
  exact hne (h.distinct fd' fd e' e hold he hside hunder)

end Sound

/-! ## Directory descriptors -/

/-- What becomes of a directory descriptor: it is not looked at, it is clamped and
    left as it is, or it is the kernel's and translated. -/
inductive Placed [FdTables T] (cage : Nat) (s : State T) (mem : Memory) (dirfd ptr placed : Word) :
    Bool → Prop
  | unused (clamp : Bool) (hplaced : placed = dirfd)
      (h : dirfd = atFdcwd ∨ absoluteAt mem cage ptr = true) :
      Placed cage s mem dirfd ptr placed clamp
  | clamped (hplaced : placed = dirfd) (e : FDTableEntry)
      (he : translateVirtualFd s.fds cage dirfd.toNat = some e) (hne : e.perfdinfo ≠ 0) :
      Placed cage s mem dirfd ptr placed true
  | kernel (e : FDTableEntry) (hplaced : placed = BitVec.ofNat 64 e.underfd)
      (he : translateVirtualFd s.fds cage dirfd.toNat = some e) (hz : e.perfdinfo = 0) :
      Placed cage s mem dirfd ptr placed false

theorem absoluteAt_of_isAbsolute {cage : Nat}
    (h : Str.isAbsolute ((readPathFromCage mem ptr cage).getD []) = true) :
    absoluteAt mem cage ptr = true := by
  rcases hread : readPathFromCage mem ptr cage with _ | path
  · rw [hread] at h
    cases h
  rw [hread, getD_some, isAbsolute_eq_true_iff] at h
  rcases bind_eq_some_iff.mp hread with ⟨bytes, hbytes, htext⟩
  have hpath := fromUtf8_eq_some_iff.mp htext
  rcases path with _ | _
  · cases h
  cases h
  rcases bytes with _ | _
  · cases hpath
  -- what is not there reads as the empty text, which does not begin with anything
  rcases hmem : mem cage ptr with _ | bytes
  · rw [hmem, copyInto_eq] at hbytes
    cases hbytes
  rw [hmem, copyInto_eq] at hbytes
  cases hbytes
  rw [absoluteAt, hmem]
  rw [maxPathLen, take_succ_cons, takeWhile_cons] at hpath
  split at hpath
  · have hhead := (List.cons.inj hpath).1
    rw [any_some, ← hhead]
    rfl
  · cases hpath

section Placed

variable [FdTables T] {cage : Nat} {s : State T} {mem : Memory} {args args' : Fin 6 → Word}
  {i : Fin 6} {clamp : Bool}

theorem placed_prepare {dirfd : Word} (hdirfd : args i = dirfd)
    (h : prepareAtPathRoute s mem cage dirfd ptr cage args i = .ok (clamp, args')) :
    Placed cage s mem dirfd ptr (args' i) clamp ∧ ∀ k, k ≠ i → args' k = args k := by
  unfold prepareAtPathRoute at h
  simp only [] at h
  split at h
  next habs =>
    cases h
    exact ⟨.unused _ hdirfd (.inr (absoluteAt_of_isAbsolute habs)), fun _ _ => rfl⟩
  split at h
  next hcwd =>
    cases h
    exact ⟨.unused _ hdirfd (.inl hcwd), fun _ _ => rfl⟩
  split at h
  · cases h
  rename_i e he
  split at h
  next hne =>
    cases h
    exact ⟨.clamped hdirfd e he hne, fun _ _ => rfl⟩
  rename_i hz
  cases h
  exact ⟨.kernel e (update_self ..) he (not_not.mp hz), fun k hk => update_of_ne hk _ _⟩

theorem prepare_fst (s : State T) (mem : Memory) (cage : Nat) (dirfd ptr : Word)
    (args args' : Fin 6 → Word) (i : Fin 6) :
    (prepareAtPathRoute s mem cage dirfd ptr cage args i).map Prod.fst =
      (prepareAtPathRoute s mem cage dirfd ptr cage args' i).map Prod.fst := by
  unfold prepareAtPathRoute
  simp only []
  split
  · rfl
  split
  · rfl
  split
  · rfl
  split
  · rfl
  · rfl

theorem nameClamped_eq
    (h : prepareAtPathRoute w.state a.mem cage (a.args i) (a.args j) cage args i =
      .ok (clamp, args')) : nameClamped cage w a i j = clamp := by
  have hfst := prepare_fst w.state a.mem cage (a.args i) (a.args j) a.args args i
  unfold nameClamped
  rw [h] at hfst
  split
  next clamp' args'' hown =>
    rw [hown] at hfst
    cases hfst
    rfl
  rename_i e hown
  rw [hown] at hfst
  cases hfst

theorem placed_translate (h : translateDirfd s cage ((readPathFromCage mem ptr cage).getD []) args =
      .ok (clamped, args')) :
    Placed cage s mem (args 0) ptr (args' 0) clamped ∧ ∀ k, k ≠ 0 → args' k = args k := by
  unfold translateDirfd at h
  split at h
  next hor =>
    cases h
    exact ⟨.unused _ rfl (hor.imp_right absoluteAt_of_isAbsolute), fun _ _ => rfl⟩
  split at h
  · cases h
  rename_i e he
  split at h
  next hne =>
    cases h
    exact ⟨.clamped rfl e he hne, fun _ _ => rfl⟩
  rename_i hz
  cases h
  exact ⟨.kernel e (update_self ..) he (not_not.mp hz), fun k hk => update_of_ne hk _ _⟩

theorem known_dirfd [LawfulFdTables T] (h : Sound cage w.state (w.sides a.replies))
    (hplaced : Placed cage w.state a.mem (a.args i) (a.args j) placed clamp)
    (hdirfd : f.args i = placed) (hptr : f.args j = a.args j) (hcage : f.argcages j = cage)
    (hknown : DirfdKnown cage w a side i j) : ∀ fd ∈ f.dirfd a.mem i j, w.holds side fd = true := by
  intro fd hfd
  unfold dirfd at hfd
  rw [hdirfd, hptr, hcage] at hfd
  split at hfd
  · cases hfd
  rename_i hused
  rw [mem_singleton.mp hfd]
  have habs : absoluteAt a.mem cage (a.args j) = false :=
    Bool.eq_false_iff.mpr fun habs => hused (.inr habs)
  cases hplaced with
  | unused _ heq hun =>
    rw [heq] at hused
    exact absurd hun hused
  | clamped heq e he hne =>
    rw [heq] at hused ⊢
    exact (hknown (fun hcwd => hused (.inl hcwd)) habs e he).1 hne
  | kernel e heq he hz =>
    rw [heq, h.toNat_underfd he]
    cases side with
    | kernel =>
      have hheld := (h.held _ e he).2
      rw [entrySide_eq_kernel_iff.mpr hz] at hheld
      exact hheld
    | clamped =>
      have hcwd : a.args i ≠ atFdcwd := by
        intro hcwd
        rw [hcwd] at he
        have hlt := lt_limit _ _ _ _ he
        have hle := limit_le (T := T)
        have hbig : atFdcwd.toNat = 2 ^ 64 - 100 := by decide
        omega
      exact (hknown hcwd habs e he).2 hz rfl

end Placed

/-! ## The handlers -/

/-- A handler leaves the numbers where they belong. -/
def Fine [FdTables T] (cage : Nat) (w : Setting T) (a : SideCall) (d : Asking (State T × Int)) :
    Prop :=
  Leaves cage a.mem (w.sides a.replies) d

@[reducible]
def SideCall.request (a : SideCall) (cage : Nat) : Request :=
  ⟨a.sys, a.args, fun _ => cage⟩

section Handlers

variable {cage : Nat} {w : Setting T} {a : SideCall} {e : FDTableEntry} {i j : Fin 6} {x : Sides}
  {mem : Memory} {s : State T} {sys : Sys}

theorem known_of_named_nil (h : f.named mem = []) : Known mem x f := by
  intro fd hfd
  rw [h] at hfd
  cases hfd

theorem side_routed (args : Fin 6 → Word) (cages : Fin 6 → Nat)
    (h : e.perfdinfo = 0 ∨ (s.getRoute cage sys).isSome = true) :
    Forward.side ⟨s.routeIf cage sys (decide (e.perfdinfo ≠ 0)), false, cage, args, cages⟩ =
      entrySide e := by
  rw [s.side_routeIf]
  unfold State.routeSide entrySide
  by_cases hne : e.perfdinfo ≠ 0
  · rw [if_pos ⟨decide_eq_true hne, h.resolve_left hne⟩, if_pos hne]
  · rw [if_neg fun hc => hne (of_decide_eq_true hc.1), if_neg hne]

theorem fds_removeClampedMmap (s : State T) (c addr len : Nat) (ret : Int) :
    (if ret = 0 then s.removeClampedMmap c addr len else s).fds = s.fds := by
  split
  · unfold State.removeClampedMmap
    split
    · rfl
    split
    · rfl
    split
    · rfl
    · rfl
  · rfl

variable [FdTables T]

def Sys.quiet : Sys → Bool
  | .open | .openat | .dup | .fcntl | .close => false
  | _ => true

theorem quiet_forward (hsys : f.nr.sys = sys) (hquiet : sys.quiet = true) :
    f.nr.sys ≠ .close ∧ f.makes = false := by
  unfold makes
  rw [hsys]
  cases sys <;> first | exact ⟨Sys.noConfusion, rfl⟩ | cases hquiet

section Quiet

variable (h : Sound cage w.state (w.sides a.replies))

include h

theorem known_entry (he : translateVirtualFd w.state.fds cage fd = some e)
    (hnamed : ∀ n ∈ f.named a.mem, n = (f.args i).toNat)
    (harg : f.args i = BitVec.ofNat 64 e.underfd) (hside : f.side = entrySide e) :
    Known a.mem (w.sides a.replies) f := by
  intro n hn
  rw [hnamed n hn, harg, h.toNat_underfd he, hside]
  exact (h.held fd e he).2

theorem fine_call (hsys : f.nr.sys = sys) (hquiet : sys.quiet = true)
    (hknown : Known a.mem (w.sides a.replies) f) (k : Int → State T)
    (hk : ∀ ret, (k ret).fds = w.state.fds) :
    Fine cage w a (request (.syscall f) >>= fun ret => .done (k ret, ret)) := by
  rcases quiet_forward hsys hquiet with ⟨hclose, hmakes⟩
  exact sound_other hclose hmakes h hknown fun x' ret hx' _ => ensures_done (hx'.of_fds (hk ret))

theorem fine_path (hnamed : ∀ f : Forward, f.nr.sys = sys → f.named a.mem = [])
    (hquiet : sys.quiet = true) (clamp : Bool) (k : Int → State T)
    (hk : ∀ ret, (k ret).fds = w.state.fds) :
    Fine cage w a (doSyscall cage (w.state.routeIf cage sys clamp) a.args (fun _ => cage) >>=
      fun ret => .done (k ret, ret)) := by
  have hsys := w.state.sys_routeIf cage sys clamp
  exact fine_call h hsys hquiet (known_of_named_nil (hnamed _ hsys)) k hk

theorem fine_at [LawfulFdTables T] (hij : j ≠ i)
    (hnamed : ∀ f : Forward, f.nr.sys = sys → f.args j = a.args j →
      f.named a.mem = f.dirfd a.mem i j) (hquiet : sys.quiet = true)
    (hknown : DirfdKnown cage w a (w.state.routeSide cage sys (nameClamped cage w a i j)) i j) :
    Fine cage w a (atHandler sys i j w.state a.mem (a.request cage)) := by
  unfold atHandler
  simp only []
  split
  · exact ensures_done h
  rename_i clamp args' hprep
  rcases placed_prepare rfl hprep with ⟨hplaced, hrest⟩
  have hsys := w.state.sys_routeIf cage sys clamp
  rw [nameClamped_eq hprep] at hknown
  refine fine_call h hsys hquiet (fun fd hfd => ?_) (fun _ => w.state) fun _ => rfl
  rw [hnamed _ hsys (hrest j hij)] at hfd
  rw [w.state.side_routeIf]
  exact known_dirfd h hplaced rfl (hrest j hij) rfl hknown fd hfd

theorem fine_entry (he : translateVirtualFd w.state.fds cage fd = some e)
    (hquiet : sys.quiet = true) (hnamed : ∀ f : Forward, f.nr.sys = sys →
      f.args = update a.args i (BitVec.ofNat 64 e.underfd) →
      ∀ n ∈ f.named a.mem, n = (f.args i).toNat)
    (k : Int → State T) (hk : ∀ ret, (k ret).fds = w.state.fds) :
    Fine cage w a
      (if e.perfdinfo ≠ 0 then
        w.state.callClamped cage sys (update a.args i (BitVec.ofNat 64 e.underfd))
          (fun _ => cage) >>= fun ret => .done (k ret, ret)
      else
        doSyscall cage (.plain sys) (update a.args i (BitVec.ofNat 64 e.underfd))
          (fun _ => cage) >>= fun ret => .done (w.state, ret)) := by
  split
  next hne =>
    rcases w.state.callClamped_eq cage sys (update a.args i (BitVec.ofNat 64 e.underfd))
      (fun _ => cage) with ⟨f, hf, hsys, hargs, _, hside⟩
    rw [hf]
    refine fine_call h hsys hquiet ?_ k hk
    refine known_entry h he (hnamed f hsys hargs) (by rw [hargs, update_self]) ?_
    rw [hside, entrySide, if_pos hne]
  rename_i hz
  have hsys : (Nr.plain sys).sys = sys := rfl
  refine fine_call h hsys hquiet ?_ (fun _ => w.state) fun _ => rfl
  refine known_entry h he (hnamed _ rfl rfl) (update_self ..) ?_
  rw [entrySide, if_neg hz]
  rfl

theorem fine_fd (hnamed : ∀ f : Forward, f.nr.sys = sys → f.named a.mem = [(f.args 0).toNat])
    (hquiet : sys.quiet = true) : Fine cage w a (fdRouteHandler sys w.state (a.request cage)) := by
  unfold fdRouteHandler
  simp only []
  split
  · exact ensures_done h
  rename_i e he
  refine fine_entry h he hquiet (fun f hsys _ n hn => ?_) (fun _ => w.state) fun _ => rfl
  rw [hnamed f hsys] at hn
  exact mem_singleton.mp hn

theorem fine_mmap : Fine cage w a (nsMmapHandler w.state (a.request cage)) := by
  unfold nsMmapHandler
  by_cases hanon : a.args 3 &&& mapAnon ≠ 0
  · rw [if_pos hanon]
    refine fine_call h rfl rfl (known_of_named_nil ?_) (fun _ => w.state) fun _ => rfl
    exact if_pos hanon
  rw [if_neg hanon]
  split
  · exact ensures_done h
  rename_i e he
  refine fine_entry h he rfl (fun f hsys hargs n hn => ?_) _ fun ret => ?_
  · have hthird : f.args 3 = a.args 3 := by
      rw [hargs]
      exact update_of_ne (by decide) _ _
    simp only [named, hsys, hthird, if_neg hanon, mem_singleton] at hn
    exact hn
  · split
    · unfold State.recordClampedMmap
      split
      · rfl
      split
      · rfl
      · rfl
    · rfl

theorem fine_munmap : Fine cage w a (nsMunmapHandler w.state (a.request cage)) := by
  have hcall := fun (f : Forward) (hf : f.nr.sys = .munmap) =>
    fine_call h hf rfl (known_of_named_nil (by rw [named, hf]))
  unfold nsMunmapHandler
  simp only []
  split
  · exact hcall _ rfl _ fun ret => fds_removeClampedMmap ..
  split
  · exact hcall _ rfl _ fun ret => fds_removeClampedMmap ..
  · exact hcall _ rfl (fun _ => w.state) fun _ => rfl

theorem fine_chdir : Fine cage w a (nsChdirHandler w.state a.mem (a.request cage)) := by
  unfold nsChdirHandler
  simp only []
  split
  · exact ensures_done h
  refine fine_path h (fun f hf => by rw [named, hf]) rfl _ _ fun ret => ?_
  split
  · rfl
  · rfl

theorem fine_getcwd : Fine cage w a (nsGetcwdHandler w.state (a.request cage)) := by
  refine ensures_request fun x' ret hserve => ensures_done ?_
  rcases next_eq_some hserve with ⟨_, _, hpassed, hholds⟩
  refine h.congr hholds ?_
  rw [hpassed]
  exact h.passed

end Quiet

theorem dirfdKnown_kernel (hplaced : Placed cage w.state a.mem (a.args i) (a.args j) placed false) :
    DirfdKnown cage w a .kernel i j := by
  intro hcwd habs entry hentry
  refine ⟨fun hne => ?_, fun _ hside => Side.noConfusion hside⟩
  cases hplaced with
  | unused _ _ hun =>
    rcases hun with hun | hun
    · exact absurd hun hcwd
    · rw [habs] at hun
      cases hun
  | kernel e _ he hz =>
    rw [he] at hentry
    cases hentry
    exact absurd hz hne

theorem not_refused (hreplies : a.replies = ret :: x.replies)
    (hnew : New cage s x side ret) : ¬a.replies[0]?.getD 0 < 0 := by
  rw [hreplies]
  exact Int.not_lt.mpr hnew.nonneg.1

theorem sound_dupUnder {k : Int → Asking (State T × Int)} (h : Sound cage s x)
    (he : e.underfd < 2 ^ 31 ∧ x.holds (entrySide e) e.underfd = true)
    (hnew : ∀ x' ret, x.replies = ret :: x'.replies → New cage s x' (entrySide e) ret →
      Leaves cage mem x' (k ret)) :
    Leaves cage mem x
      (dupUnder s cage e >>= fun ret => if ret < 0 then .done (s, ret) else k ret) := by
  rcases dupUnder_eq s cage e with ⟨f, hf, hsys, hargs, hside⟩
  rw [hf]
  refine sound_make (by rw [hsys]; exact Sys.noConfusion) (by rw [makes, hsys]) h ?_ ?_ ?_
  · intro fd hfd
    simp only [named, hsys, mem_singleton] at hfd
    have hnum : (BitVec.ofNat 64 e.underfd).toNat = e.underfd := by
      rw [BitVec.toNat_ofNat]
      omega
    rw [hfd, hargs, hside]
    change x.holds (entrySide e) (BitVec.ofNat 64 e.underfd).toNat = true
    rw [hnum]
    exact he.2
  · intro x' ret hneg hx'
    rw [if_pos hneg]
    exact ensures_done hx'
  · intro x' ret hreplies hmade
    rw [if_neg (Int.not_lt.mpr hmade.nonneg.1)]
    exact hnew x' ret hreplies (hside ▸ hmade)

variable [LawfulFdTables T]

theorem fine_installUnused {perfdinfo : Nat} (h : New cage s x side ret)
    (hside : entrySide (underEntry ret false perfdinfo) = side)
    (hroom : side = .kernel ∨ Room s cage) :
    Leaves cage mem x (installUnused s cage ret perfdinfo) := by
  unfold installUnused
  split
  next vfd t hget =>
    have hlaw := getUnused_some _ _ _ _ _ hget
    exact ensures_done (h.enter (toNat_wordOf h.nonneg) hside hlaw.2.2.2.2.1 hlaw.2.2.2.2.2)
  rename_i hget
  have hfull := getUnused_none _ _ _ h.sound.exist hget
  have hkernel : side = .kernel := by
    rcases hroom with hkernel | ⟨fd, hlt, hfree⟩
    · exact hkernel
    · exact absurd hfree (hfull fd hlt)
  rw [hkernel] at h
  exact sound_takeBack h

theorem fine_installAt (cloexec : Bool)
    (h : New cage s x (entrySide e) ret) (hroom : e.perfdinfo = 0 ∨ newfd.toNat < fdLimit T) :
    Leaves cage mem x (installAt s cage newfd ret cloexec e.perfdinfo) := by
  unfold installAt
  split
  next t hget =>
    have hlaw := getSpecific_some _ _ _ _ _ hget
    have hkind : entrySide (underEntry ret cloexec e.perfdinfo) = entrySide e := rfl
    exact ensures_done (h.enter (toNat_wordOf h.nonneg) hkind hlaw.2.2.1 hlaw.2.2.2)
  rename_i hget
  have hlimit := getSpecific_none _ _ _ _ h.sound.exist hget
  have hz := hroom.resolve_right (Nat.not_lt.mpr hlimit)
  rw [entrySide_eq_kernel_iff.mpr hz] at h
  exact sound_takeBack h

theorem sound_closeTarget {k : State T → Asking (State T × Int)} (h : Sound cage s x)
    (he : translateVirtualFd s.fds cage fd = some e) (hne : fd ≠ newfd.toNat)
    (htarget : ∀ target, translateVirtualFd s.fds cage newfd.toNat = some target →
      target.perfdinfo = 0) (hk : ∀ s' x', Sound cage s' x' → x'.replies = x.replies →
      e.underfd < 2 ^ 31 ∧ x'.holds (entrySide e) e.underfd = true →
      Leaves cage mem x' (k s')) : Leaves cage mem x (closeTarget s cage newfd >>= k) := by
  unfold closeTarget
  split
  · exact hk s x h rfl (h.held fd e he)
  rename_i target ht
  have hheld := (h.held _ target ht).2
  have hside := entrySide_eq_kernel_iff.mpr (htarget target ht)
  rw [hside] at hheld
  refine sound_close rfl h.passed (h.toNat_underfd ht) hheld fun x' hreplies hholds hall => ?_
  rcases hclose : closeVirtualfd s.fds cage newfd.toNat with _ | _
  · rw [close_none _ _ _ hclose] at ht
    cases ht
  have hlaw := close_some _ _ _ _ hclose
  have hsound := h.drop ht hlaw.2.1 hlaw.2.2 (hside ▸ hholds) hall
  refine hk _ x' hsound hreplies (hsound.held fd e ?_)
  simp only [hlaw.2.1, lookupUpdate, if_neg fun hc : True ∧ fd = newfd.toNat => hne hc.2]
  exact he

section Kept

variable (h : Sound cage w.state (w.sides a.replies)) (hkeeps : Keeps cage w a)

include h

theorem fine_replace {k : State T → Int → Asking (State T × Int)}
    (he : translateVirtualFd w.state.fds cage (a.args 0).toNat = some e)
    (hdiff : a.args 0 ≠ a.args 1)
    (htarget : ∀ target, translateVirtualFd w.state.fds cage (a.args 1).toNat = some target →
      target.perfdinfo = 0)
    (hk : ∀ s x ret, ¬a.replies[0]?.getD 0 < 0 → New cage s x (entrySide e) ret →
      Leaves cage a.mem x (k s ret)) :
    Fine cage w a (closeTarget w.state cage (a.args 1) >>= fun s =>
      dupUnder s cage e >>= fun ret => if ret < 0 then .done (s, ret) else k s ret) := by
  refine sound_closeTarget h he (fun heq => hdiff (BitVec.eq_of_toNat_eq heq)) htarget
    fun s1 x1 h1 hreplies1 he1 => sound_dupUnder h1 he1 fun x' ret hreplies hnew => ?_
  exact hk s1 x' ret (not_refused (hreplies1.symm.trans hreplies) hnew) hnew

theorem known_placed {args' : Fin 6 → Word}
    (hplaced : Placed cage w.state a.mem (a.args 0) (a.args 1) (args' 0) clamped ∧
      ∀ k, k ≠ 0 → args' k = a.args k)
    (hnamed : f.named a.mem = f.dirfd a.mem 0 1) (hargs : f.args = args')
    (hcages : f.argcages = fun _ => cage) (hknown : DirfdKnown cage w a f.side 0 1) :
    Known a.mem (w.sides a.replies) f := by
  intro fd hfd
  rw [hnamed] at hfd
  refine known_dirfd h hplaced.1 (by rw [hargs]) ?_ (by rw [hcages]) hknown fd hfd
  rw [hargs]
  exact hplaced.2 1 (by decide)

theorem fine_make {perfdinfo : Nat} (hsys : f.nr.sys = .open ∨ f.nr.sys = .openat)
    (hknown : Known a.mem (w.sides a.replies) f)
    (hplace : ¬a.replies[0]?.getD 0 < 0 →
      (∀ ret, entrySide (underEntry ret false perfdinfo) = f.side) ∧
        (f.side = .kernel ∨ Room w.state cage)) :
    Fine cage w a (request (.syscall f) >>= fun ret =>
      if 0 ≤ ret then installUnused w.state cage ret perfdinfo else .done (w.state, ret)) := by
  have hkind : f.nr.sys ≠ .close ∧ f.makes = true := by
    unfold makes
    rcases hsys with hsys | hsys <;> rw [hsys] <;> exact ⟨Sys.noConfusion, rfl⟩
  refine sound_make hkind.1 hkind.2 h hknown ?_ ?_
  · intro x' ret hneg hx'
    rw [if_neg (Int.not_le.mpr hneg)]
    exact ensures_done hx'
  · intro x' ret hreplies hnew
    rw [if_pos hnew.nonneg.1]
    rcases hplace (not_refused hreplies hnew) with ⟨hside, hroom⟩
    exact fine_installUnused hnew (hside ret) hroom

include hkeeps

theorem fine_utimensat (hsys : a.sys = .utimensat) :
    Fine cage w a (nsUtimensatHandler w.state a.mem (a.request cage)) := by
  simp only [Keeps, hsys] at hkeeps
  unfold nsUtimensatHandler
  by_cases hnull : a.args 1 = 0
  · rw [if_pos hnull] at hkeeps ⊢
    by_cases hcwd : a.args 0 = atFdcwd
    · rw [if_pos hcwd]
      have hnr := w.state.sys_routeIf cage .utimensat false
      refine fine_call h hnr rfl (known_of_named_nil ?_) (fun _ => w.state) fun _ => rfl
      simp only [named, hnr, if_pos hnull, if_pos hcwd]
    rw [if_neg hcwd]
    split
    · exact ensures_done h
    rename_i e he
    have hnr := w.state.sys_routeIf cage .utimensat (decide (e.perfdinfo ≠ 0))
    have hsecond : update a.args 0 (BitVec.ofNat 64 e.underfd) 1 = 0 :=
      (update_of_ne (by decide) _ _).trans hnull
    refine fine_call h hnr rfl ?_ (fun _ => w.state) fun _ => rfl
    refine known_entry (i := 0) h he (fun n hn => ?_) (update_self 0 _ a.args) ?_
    · simp only [named, hnr, if_pos hsecond] at hn
      split at hn
      · cases hn
      · exact mem_singleton.mp hn
    · exact side_routed _ _ (hkeeps hcwd e he)
  · rw [if_neg hnull] at hkeeps ⊢
    refine fine_at h (by decide) (fun f hf hptr => ?_) rfl hkeeps
    simp only [named, hf, hptr, if_neg hnull]

theorem fine_linkat (hsys : a.sys = .linkat) :
    Fine cage w a (nsLinkatHandler w.state a.mem (a.request cage)) := by
  simp only [Keeps, hsys] at hkeeps
  unfold nsLinkatHandler
  simp only []
  split
  · exact ensures_done h
  rename_i old args1 hprep1
  rcases placed_prepare rfl hprep1 with ⟨hplaced1, hrest1⟩
  split
  · exact ensures_done h
  rename_i new args2 hprep2
  rcases placed_prepare (hrest1 2 (by decide)) hprep2 with ⟨hplaced2, hrest2⟩
  rw [nameClamped_eq hprep1, nameClamped_eq hprep2] at hkeeps
  have hnr := w.state.sys_routeIf cage .linkat (old || new)
  refine fine_call h hnr rfl (fun fd hfd => ?_) (fun _ => w.state) fun _ => rfl
  simp only [named, hnr] at hfd
  rw [w.state.side_routeIf]
  -- the second directory is put in without touching the first
  rcases mem_append.mp hfd with hfd | hfd
  · exact known_dirfd h hplaced1 (hrest2 0 (by decide))
      ((hrest2 1 (by decide)).trans (hrest1 1 (by decide))) rfl hkeeps.1 fd hfd
  · exact known_dirfd h hplaced2 rfl ((hrest2 3 (by decide)).trans (hrest1 3 (by decide))) rfl
      hkeeps.2 fd hfd

theorem fine_fstatat (hsys : a.sys = .newfstatat) :
    Fine cage w a (nsFstatatHandler w.state a.mem (a.request cage)) := by
  simp only [Keeps, hsys] at hkeeps
  unfold nsFstatatHandler
  simp only []
  split
  · exact ensures_done h
  rename_i clamped args' hdir
  have hplaced := placed_translate hdir
  split
  · rcases w.state.callClamped_eq cage .newfstatat args' (fun _ => cage) with
      ⟨f, hf, hfsys, hargs, hcages, hside⟩
    rw [hf]
    refine fine_call h hfsys rfl ?_ (fun _ => w.state) fun _ => rfl
    exact known_placed h hplaced (by rw [named, hfsys]) hargs hcages (hside ▸ hkeeps)
  rename_i hclamp
  refine fine_call h rfl rfl ?_ (fun _ => w.state) fun _ => rfl
  refine known_placed h hplaced rfl rfl rfl ?_
  -- a call that goes to the kernel has no clamped directory, or does not look at it
  rcases clamped with _ | _
  · exact dirfdKnown_kernel hplaced.1
  intro hcwd habs
  refine absurd ?_ hclamp
  unfold fstatatClamps
  split
  · rfl
  split
  next hpath =>
    rw [absoluteAt_of_isAbsolute hpath] at habs
    cases habs
  · rfl

theorem fine_close (hsys : a.sys = .close) :
    Fine cage w a (nsCloseHandler w.state (a.request cage)) := by
  simp only [Keeps, hsys] at hkeeps
  unfold nsCloseHandler
  simp only []
  split
  · exact ensures_done h
  rename_i e he
  have hfirst : (update a.args 0 (BitVec.ofNat 64 e.underfd) 0).toNat = e.underfd := by
    exact h.toNat_underfd he
  have hside := side_routed (update a.args 0 (BitVec.ofNat 64 e.underfd)) (fun _ => cage)
    (hkeeps e he)
  refine sound_close (w.state.sys_routeIf ..) h.passed hfirst ?_ fun x' _ hholds hall => ?_
  · rw [hside]
    exact (h.held _ e he).2
  refine ensures_done ?_
  rcases hclose : closeVirtualfd w.state.fds cage (a.args 0).toNat with _ | _
  · rw [close_none _ _ _ hclose] at he
    cases he
  have hlaw := close_some _ _ _ _ hclose
  exact h.drop he hlaw.2.1 hlaw.2.2 (hside ▸ hholds) hall

theorem fine_open (hsys : a.sys = .open) :
    Fine cage w a (nsOpenHandler w.state a.mem (a.request cage)) := by
  simp only [Keeps, hsys] at hkeeps
  have hnr := w.state.sys_routeIf cage .open
    (w.state.matchesAt a.mem cage (a.args 0) cage)
  refine fine_make h (.inl hnr) (known_of_named_nil (by rw [named, hnr])) fun hret => ?_
  rw [w.state.side_routeIf]
  cases hmatch : w.state.matchesAt a.mem cage (a.args 0) cage with
  | true =>
    rcases (hkeeps hmatch).resolve_left hret with ⟨hroute, hroom⟩
    have hside : w.state.routeSide cage .open true = .clamped := if_pos ⟨rfl, hroute⟩
    exact ⟨fun _ => hside.symm, .inr hroom⟩
  | false => exact ⟨fun _ => rfl, .inl rfl⟩

theorem fine_openat (hsys : a.sys = .openat) :
    Fine cage w a (nsOpenatHandler w.state a.mem (a.request cage)) := by
  simp only [Keeps, hsys] at hkeeps
  unfold nsOpenatHandler
  simp only []
  split
  · exact ensures_done h
  rename_i clamped args' hdir
  have hplaced := placed_translate hdir
  cases hclamp : openatClamps w.state a.mem (a.request cage)
      ((readPathFromCage a.mem (a.args 1) cage).getD []) clamped with
  | true =>
    rcases w.state.callClamped_eq cage .openat args' (fun _ => cage) with
      ⟨f, hf, hfsys, hargs, hcages, hside⟩
    rw [if_pos rfl, hf]
    have hknown := known_placed h hplaced (by rw [named, hfsys]) hargs hcages (hside ▸ hkeeps.1)
    refine fine_make h (.inr hfsys) hknown fun hret => ⟨fun _ => hside.symm, .inr ?_⟩
    rcases hkeeps.2.resolve_left hret with hroom | hnone
    · exact hroom
    have hfalse := hnone clamped args' hdir
    simp only [SideCall.request, hsys] at hclamp
    rw [hfalse] at hclamp
    cases hclamp
  | false =>
    have hnot : clamped = false := by
      exact (Bool.or_eq_false_iff.mp hclamp).1
    rw [hnot] at hplaced
    refine fine_make h (.inr rfl) ?_ fun _ => ⟨fun _ => rfl, .inl rfl⟩
    exact known_placed h hplaced rfl rfl rfl (dirfdKnown_kernel hplaced.1)

theorem fine_fcntl (hsys : a.sys = .fcntl) :
    Fine cage w a (nsFcntlHandler w.state (a.request cage)) := by
  simp only [Keeps, hsys] at hkeeps
  unfold nsFcntlHandler
  simp only []
  split
  · exact ensures_done h
  rename_i e he
  have hnr := w.state.sys_routeIf cage .fcntl (decide (e.perfdinfo ≠ 0))
  have hside := side_routed (update a.args 0 (BitVec.ofNat 64 e.underfd)) (fun _ => cage)
    (hkeeps e he)
  have hknown := known_entry (i := 0) h he (fun n hn => by
    simp only [named, hnr] at hn
    exact mem_singleton.mp hn) (update_self 0 _ a.args) hside
  have hsecond : update a.args 0 (BitVec.ofNat 64 e.underfd) 1 = a.args 1 :=
    update_of_ne (by decide) _ _
  cases hmakes : makes ⟨w.state.routeIf cage .fcntl (decide (e.perfdinfo ≠ 0)), false,
      cage, update a.args 0 (BitVec.ofNat 64 e.underfd), fun _ => cage⟩ with
  | false =>
    refine sound_other (by rw [hnr]; exact Sys.noConfusion) hmakes h hknown
      fun x' ret hx' _ => ?_
    rw [if_neg]
    · exact ensures_done hx'
    · rintro ⟨_, hcmd⟩
      simp only [makes, hnr, hsecond] at hmakes
      rcases hcmd with hcmd | hcmd
      · rw [hcmd] at hmakes
        cases hmakes
      · rw [hcmd] at hmakes
        cases hmakes
  | true =>
    refine sound_make (by rw [hnr]; exact Sys.noConfusion) hmakes h hknown ?_ ?_
    · intro x' ret hneg hx'
      rw [if_neg fun hc => absurd hc.1 (Int.not_le.mpr hneg)]
      exact ensures_done hx'
    · intro x' ret _ hnew
      rw [hside] at hnew
      split
      · split
        next vfd t hget =>
          have hlaw := getUnusedFrom_some _ _ _ _ _ _ hget
          have hkind : entrySide (underEntry ret (decide (a.args 1 = fDupfdCloexec))
              e.perfdinfo) = entrySide e := rfl
          exact ensures_done (hnew.enter (toNat_wordOf hnew.nonneg) hkind hlaw.2.2.2.2.2.1
            hlaw.2.2.2.2.2.2)
        · exact ensures_done hnew.sound
      · exact ensures_done hnew.sound

theorem fine_dup (hsys : a.sys = .dup) : Fine cage w a (nsDupHandler w.state (a.request cage)) := by
  simp only [Keeps, hsys] at hkeeps
  unfold nsDupHandler
  simp only []
  split
  · exact ensures_done h
  rename_i e he
  refine sound_dupUnder h (h.held _ e he) fun x' ret hreplies hnew => ?_
  refine fine_installUnused hnew rfl ?_
  rcases hkeeps e he with hz | hneg | hroom
  · exact .inl (entrySide_eq_kernel_iff.mpr hz)
  · exact absurd hneg (not_refused hreplies hnew)
  · exact .inr hroom

theorem fine_dup2 (hsys : a.sys = .dup2) :
    Fine cage w a (nsDup2Handler w.state (a.request cage)) := by
  simp only [Keeps, hsys] at hkeeps
  unfold nsDup2Handler
  simp only []
  split
  · exact ensures_done h
  rename_i e he
  split
  · exact ensures_done h
  rename_i hdiff
  rcases hkeeps e he hdiff with ⟨htarget, hroom⟩
  refine fine_replace h he hdiff htarget fun s x ret hret hnew => fine_installAt _ hnew ?_
  exact hroom.imp_right fun hor => hor.resolve_left hret

theorem fine_dup3 (hsys : a.sys = .dup3) :
    Fine cage w a (nsDup3Handler w.state (a.request cage)) := by
  simp only [Keeps, hsys] at hkeeps
  unfold nsDup3Handler
  simp only []
  split
  · exact ensures_done h
  rename_i e he
  split
  · exact ensures_done h
  rename_i hvalid
  rcases hkeeps e he hvalid with ⟨htarget, hroom⟩
  refine fine_replace h he (fun heq => hvalid (.inl heq)) htarget fun s x ret hret hnew => ?_
  -- the duplicate is the kernel's, or nothing more is asked
  have hcases := hroom.imp_right fun hor => hor.resolve_left hret
  split
  next hcloexec =>
    have hz := hcases.resolve_right fun hc => of_decide_eq_true hcloexec hc.1
    rw [entrySide_eq_kernel_iff.mpr hz] at hnew
    refine sound_other Sys.noConfusion rfl hnew.sound (fun n hn => ?_)
      fun x2 mret hsound hholds => ?_
    · rw [show named a.mem _ = [_] from rfl, mem_singleton] at hn
      rw [hn]
      change x.holds .kernel (wordOf ret).toNat = true
      rw [toNat_wordOf hnew.nonneg]
      exact hnew.held
    · have hnew2 : New cage s x2 .kernel ret :=
        ⟨hsound, hnew.nonneg, by rw [hholds]; exact hnew.held, hnew.unused⟩
      split
      · exact sound_takeBack hnew2
      · rw [← entrySide_eq_kernel_iff.mpr hz] at hnew2
        exact fine_installAt _ hnew2 (.inl hz)
  · exact fine_installAt _ hnew (hcases.imp_right And.right)

theorem fine_nsHandler {d : Asking (State T × Int)}
    (hd : nsHandler w.state a.mem (a.request cage) = some d) : Fine cage w a d := by
  have hall := hkeeps
  unfold nsHandler at hd
  split at hd
  all_goals rename_i hsys
  all_goals cases hd
  all_goals simp only [] at hsys
  all_goals simp only [Keeps, hsys] at hkeeps
  all_goals first
    | exact fine_path h (fun f hf => by rw [named, hf]) rfl _
        (fun _ => w.state) fun _ => rfl
    | exact fine_fd h (fun f hf => by rw [named, hf]) rfl
    | exact fine_at h (by decide) (fun f hf _ => by rw [named, hf]) rfl hkeeps
    | skip
  case h_1 => exact fine_open h hall hsys
  case h_2 => exact fine_openat h hall hsys
  case h_5 => exact fine_getcwd h
  case h_9 => exact fine_linkat h hall hsys
  case h_17 => exact fine_chdir h
  case h_28 => exact fine_close h hall hsys
  case h_37 => exact fine_fstatat h hall hsys
  case h_40 => exact fine_fcntl h hall hsys
  case h_46 => exact fine_utimensat h hall hsys
  case h_51 => exact fine_mmap h
  case h_52 => exact fine_munmap h
  case h_53 => exact fine_dup h hall hsys
  case h_54 => exact fine_dup2 h hall hsys
  case h_55 => exact fine_dup3 h hall hsys

end Kept

end Handlers

/-! ## Runs -/

section Runs

variable [ManagedTables T] [LawfulManagedTables T] {cage : Nat} {w w' : Setting T}

theorem translate_enterStandard (hexist : checkCageExists t cage = true) (hfd : fd ≤ 2) :
    translateVirtualFd (enterStandard cage t fd) =
        lookupUpdate (translateVirtualFd t) cage fd (some ⟨0, fd, false, 0⟩) ∧
      checkCageExists (enterStandard cage t fd) cage = true := by
  unfold enterStandard
  rcases hget : getSpecificVirtualFd t cage fd ⟨0, fd, false, 0⟩ with _ | _
  · have hlimit := getSpecific_none _ _ _ _ hexist hget
    have hgt := limit_gt (T := T)
    omega
  have hlaw := getSpecific_some _ _ _ _ _ hget
  exact ⟨hlaw.2.2.1, by rw [getD_some, hlaw.2.2.2]; exact hexist⟩

theorem translate_start (hnew : checkCageExists t cage = false) (fd : Nat) :
    translateVirtualFd ((List.range 3).foldl (enterStandard cage) (initEmptyCage t cage)) cage fd =
        (if fd < 3 then some ⟨0, fd, false, 0⟩ else none) ∧
      checkCageExists ((List.range 3).foldl (enterStandard cage) (initEmptyCage t cage)) cage =
        true := by
  have hexist : checkCageExists (initEmptyCage t cage) cage = true := by
    rw [exists_init _ _ _ hnew, decide_eq_true rfl, Bool.true_or]
  have hnone : translateVirtualFd (initEmptyCage t cage) cage fd = none := by
    rw [translate_init _ _ hnew]
    rcases he : translateVirtualFd t cage fd with _ | _
    · rfl
    rw [exists_of_translate _ _ _ _ he] at hnew
    cases hnew
  rcases translate_enterStandard hexist (show 0 ≤ 2 by omega) with ⟨h₀, he0⟩
  rcases translate_enterStandard he0 (show 1 ≤ 2 by omega) with ⟨h₁, he1⟩
  rcases translate_enterStandard he1 (show 2 ≤ 2 by omega) with ⟨h₂, he2⟩
  refine ⟨?_, he2⟩
  change translateVirtualFd (enterStandard cage (enterStandard cage
    (enterStandard cage (initEmptyCage t cage) 0) 1) 2) cage fd = _
  rw [h₂, h₁, h₀]
  simp only [lookupUpdate, true_and, hnone]
  by_cases h2 : fd = 2
  · rw [h2]
    rfl
  by_cases h1 : fd = 1
  · rw [h1]
    rfl
  by_cases h0 : fd = 0
  · rw [h0]
    rfl
  · rw [if_neg h2, if_neg h1, if_neg h0, if_neg (by omega)]

theorem sound_start (h : Setting.Start cage w) (replies : List Int) :
    Sound cage w.state (w.sides replies) := by
  rcases h.fds with ⟨t, hnew, hfds⟩
  have hlook : ∀ fd e, translateVirtualFd w.state.fds cage fd = some e →
      fd < 3 ∧ e = ⟨0, fd, false, 0⟩ := by
    intro fd e he
    rw [hfds, (translate_start hnew fd).1] at he
    split at he
    next hlt =>
      cases he
      exact ⟨hlt, rfl⟩
    · cases he
  refine ⟨?_, ?_, ?_, ?_⟩
  · rw [hfds]
    exact (translate_start hnew 0).2
  · intro fd e he
    rcases hlook fd e he with ⟨hlt, heq⟩
    rw [heq]
    refine ⟨by simp only []; omega, ?_⟩
    change w.holds .kernel fd = true
    rw [h.kernel]
    exact decide_eq_true hlt
  · intro fd fd' e e' he he' _ hunder
    rw [(hlook fd e he).2, (hlook fd' e' he').2] at hunder
    exact hunder
  · intro p hp
    change p ∈ w.passed at hp
    rw [h.passed] at hp
    cases hp

theorem sound_step (h : ∀ replies, Sound cage w.state (w.sides replies))
    (hkeeps : Keeps cage w a) (hstep : Setting.step cage w a = some w') (replies : List Int) :
    Sound cage w'.state (w'.sides replies) := by
  rcases bind_eq_some_iff.mp hstep with ⟨d, hd, hmap⟩
  rcases map_eq_some_iff.mp hmap with ⟨r, hrun, hw'⟩
  have hsound := fine_nsHandler (h a.replies) hkeeps hd r.1 r.2 hrun
  subst hw'
  exact ⟨hsound.exist, hsound.held, hsound.distinct, hsound.passed⟩

/-- In every run under the condition, every descriptor number the clamp has passed
    to a side was in use there, and every entry of the table has a number that is
    in use on the side the entry tells. -/
theorem spaces_apart (h : Runs (Setting.Start cage) (Setting.step cage) (Keeps cage) w) :
    (∀ p ∈ w.passed, p.2.2 = true) ∧
      ∀ fd e, translateVirtualFd w.state.fds cage fd = some e →
        w.holds (if e.perfdinfo ≠ 0 then .clamped else .kernel) e.underfd = true := by
  have hsound : ∀ replies, Sound cage w.state (w.sides replies) := by
    refine runs_inv (I := fun w => ∀ replies, Sound cage w.state (w.sides replies)) ?_ ?_ w h
    · intro w hstart
      exact sound_start hstart
    · intro w a w' hw hkeeps hstep
      exact sound_step hw hkeeps hstep
  exact ⟨(hsound []).passed, fun fd e he => ((hsound []).held fd e he).2⟩

end Runs

/-! ## Concrete runs -/

/-- The first cage of a clamp with the prefix `/tmp`, with routes for some calls. -/
def routedSetting (calls : List Sys) : Setting (MapTables 16) :=
  { state :=
      { loneWorld.state with
        routes := fun c sys => if c = 2 ∧ sys ∈ calls then some 3000 else none }
    holds := fun side fd => decide (side = .kernel) && decide (fd < 3)
    passed := [] }

theorem routedSetting_start (calls : List Sys) : Setting.Start 2 (routedSetting calls) where
  fds := ⟨MapTables.unregistered 16, rfl, rfl⟩
  kernel _ := rfl
  clamped _ := rfl
  passed := rfl

def sideCall (sys : Sys) (text : String) (a b : Word) (replies : List Int) : SideCall :=
  ⟨sys, fun i => if i = 0 then a else if i = 1 then b else 0, textMem text, replies⟩

/-- A file of each side under the same number; the clamped one is read and closed. -/
def apartRun : List SideCall :=
  [sideCall .open "/etc/a" 0 0 [3], sideCall .open "/tmp/b" 0 0 [3], sideCall .read "" 4 0 [1],
    sideCall .close "" 4 0 []]

def plainCall (w : Setting (MapTables 16)) (a : SideCall) : Bool :=
  match a.sys with
  | .open => (w.state.getRoute 2 .open).isSome && (translateVirtualFd w.state.fds 2 15).isNone
  | .close => (w.state.getRoute 2 .close).isSome
  | .read => true
  | _ => false

theorem keeps_of_plainCall {w : Setting (MapTables 16)}
    (h : plainCall w a = true) : Keeps 2 w a := by
  unfold plainCall at h
  unfold Keeps
  split at h
  next hsys =>
    rw [Bool.and_eq_true, isNone_iff_eq_none] at h
    simp only [hsys]
    exact fun _ => .inr ⟨h.1, 15, by decide, h.2⟩
  next hsys =>
    simp only [hsys]
    exact fun _ _ => .inr h
  next hsys => simp only [hsys]
  · cases h

theorem spaces_apart_apartRun :
    ∃ w : Setting (MapTables 16), Runs (Setting.Start 2) (Setting.step 2) (Keeps 2) w ∧
      w.passed = [(.clamped, 3, true), (.clamped, 3, true)] ∧ w.holds .clamped 3 = false ∧
      translateVirtualFd w.state.fds 2 3 = some ⟨0, 3, false, 0⟩ ∧ w.holds .kernel 3 = true := by
  have := lawful_managedMapTables 16 (by decide) (by decide)
  have hrun : ∃ w : Setting (MapTables 16),
      Runs (Setting.Start 2) (Setting.step 2) (fun w a => plainCall w a = true) w ∧
      w.passed = [(.clamped, 3, true), (.clamped, 3, true)] ∧ w.holds .clamped 3 = false ∧
      translateVirtualFd w.state.fds 2 3 = some ⟨0, 3, false, 0⟩ :=
    exists_runs_replay apartRun (routedSetting_start [.open, .close]) (by decide +kernel)
  rcases hrun with ⟨w, hplain, hpassed, hclosed, hentry⟩
  have hw := runs_mono (fun w a h => keeps_of_plainCall h) w hplain
  exact ⟨w, hw, hpassed, hclosed, hentry, (spaces_apart hw).2 3 _ hentry⟩

/-- Replacing the clamped descriptor closes the kernel's file of the same number,
    which another entry still has; and without a route for `close` the number of a
    clamped descriptor is passed to the kernel, which does not know it. -/
theorem spaces_mixed :
    (∃ w : Setting (MapTables 16), Runs (Setting.Start 2) (Setting.step 2) (fun _ _ => True) w ∧
      translateVirtualFd w.state.fds 2 3 = some ⟨0, 3, false, 0⟩ ∧ w.holds .kernel 3 = false ∧
      w.holds .clamped 3 = true) ∧
    ∃ w : Setting (MapTables 16), Runs (Setting.Start 2) (Setting.step 2) (fun _ _ => True) w ∧
      (.kernel, 5, false) ∈ w.passed := by
  constructor
  · exact exists_runs_replay
      [sideCall .open "/etc/a" 0 0 [3], sideCall .open "/tmp/b" 0 0 [3], sideCall .dup2 "" 0 4 [4]]
      (routedSetting_start [.open, .close]) (by decide +kernel)
  · exact exists_runs_replay [sideCall .open "/tmp/b" 0 0 [5], sideCall .close "" 3 0 []]
      (routedSetting_start [.open]) (by decide +kernel)

end LindGrates.FsClamp
