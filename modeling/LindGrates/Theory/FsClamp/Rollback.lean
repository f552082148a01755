import LindGrates.Theory.FsClamp.Sides
import LindGrates.Theory.FsClamp.Steps

/-!
# Descriptor Calls that Fail

When a call that makes a descriptor fails, the cage's table should be what it was
and whatever a side has made for it should be closed again.

A handler that has to take a descriptor back closes it at the kernel, so one of the
clamped side stays open. `fcntl` closes nothing at all. `dup2` and `dup3` give up
the old descriptor before they have a new one.

## Main definitions

* `Undone`: The table is as it was, and nothing that was made is left.
* `RollsBack`: When a call that fails undoes what it did.

## Theorems

* `rolls_back_iff`: A failed call is undone exactly under that condition.
* `leaves_descriptor`: Calls that fail and leave something behind.
-/

namespace LindGrates.FsClamp

open FdTables Posix Dialogue Function LawfulFdTables Sides

/-! ## Undoing a call -/

variable {T : Type} [FdTables T] {side : Side} {ret : Int} {fd : Nat}
  {k : Int → Asking (State T × Int)} {o : Option FDTableEntry} {P : FDTableEntry → Prop}

/-- The table of the cage is as it was, and nothing that was made is left. -/
structure Undone (cage : Nat) (s s' : State T) (x : Sides) : Prop where
  fds : ∀ fd, translateVirtualFd s'.fds cage fd = translateVirtualFd s.fds cage fd
  closed : ∀ p ∈ x.made, x.holds p.1 p.2 = false

def DescriptorCall (c : Request) : Prop :=
  c.sys = .open ∨ c.sys = .openat ∨ c.sys = .dup ∨ c.sys = .dup2 ∨ c.sys = .dup3 ∨
    (c.sys = .fcntl ∧ (c.args 1 = fDupfd ∨ c.args 1 = fDupfdCloexec))

/-- What `dup2` and `dup3` need once their arguments are checked, with the reply to
    the underlying `dup` and, if the new descriptor is to be marked, to that: the
    old descriptor is not given up for a refusal, and only a descriptor of the
    kernel is taken back. -/
def Replaces (s : State T) (cage : Nat) (entry : FDTableEntry) (newfd : Word) (ret : Int)
    (marked : Option Int) : Prop :=
  if ret < 0 then translateVirtualFd s.fds cage newfd.toNat = none
  else if marked.any (fun m => m < 0) then
    translateVirtualFd s.fds cage newfd.toNat = none ∧ entry.perfdinfo = 0
  else newfd.toNat < fdLimit T ∨ entry.perfdinfo = 0

/-- When a call that fails undoes what it did. -/
def RollsBack (s : State T) (mem : Memory) (c : Request) (replies : List Int) : Prop :=
  let cage := c.argcages 0
  let ret := replies[0]?.getD 0
  match c.sys with
  | .open =>
    ret < 0 ∨ Room s cage ∨
      s.routeSide cage .open (s.matchesAt mem (c.argcages 1) (c.args 0) cage) = .kernel
  | .openat =>
    let path := (readPathFromCage mem (c.args 1) (c.argcages 1)).getD []
    ∀ clamped args, translateDirfd s cage path c.args = .ok (clamped, args) →
      ret < 0 ∨ Room s cage ∨ openatClamps s mem c path clamped = false
  | .dup =>
    ∀ entry, translateVirtualFd s.fds cage (c.args 0).toNat = some entry →
      ret < 0 ∨ Room s cage ∨ entry.perfdinfo = 0
  | .fcntl =>
    ∀ entry, translateVirtualFd s.fds cage (c.args 0).toNat = some entry →
      ret < 0 ∨ ∃ fd, (c.args 2).toNat ≤ fd ∧ fd < fdLimit T ∧
        translateVirtualFd s.fds cage fd = none
  | .dup2 =>
    ∀ entry, translateVirtualFd s.fds cage (c.args 0).toNat = some entry →
      c.args 0 = c.args 1 ∨ Replaces s cage entry (c.args 1) ret none
  | .dup3 =>
    ∀ entry, translateVirtualFd s.fds cage (c.args 0).toNat = some entry →
      (c.args 0 = c.args 1 ∨ c.args 2 &&& ~~~oCloexec ≠ 0) ∨
        Replaces s cage entry (c.args 1) ret
          (if c.args 2 &&& oCloexec ≠ 0 then some (replies[1]?.getD 0) else none)
  | _ => True

/-- A failure that is undone exactly under a condition. -/
def UndoneIff (cage : Nat) (s : State T) (cond : Prop) (x : Sides) (r : State T × Int) : Prop :=
  (r.2 < 0 → Undone cage s r.1 x) ↔ cond

variable {cage : Nat} {s : State T} {cond : Prop} {x : Sides} {r : State T × Int}

theorem undoneIff_of_nonneg (h : 0 ≤ r.2) (hcond : cond) : UndoneIff cage s cond x r :=
  ⟨fun _ => hcond, fun _ hneg => absurd hneg (Int.not_lt.mpr h)⟩

theorem undoneIff_of_not (hneg : r.2 < 0) (h : ¬Undone cage s r.1 x) (hcond : ¬cond) :
    UndoneIff cage s cond x r :=
  ⟨fun hundone => absurd (hundone hneg) h, fun hc => absurd hc hcond⟩

theorem undoneIff_unmade (h : x.made = []) (hcond : cond) : UndoneIff cage s cond x (s, ret) := by
  refine ⟨fun _ => hcond, fun _ _ => ⟨fun _ => rfl, fun p hp => ?_⟩⟩
  rw [h] at hp
  cases hp

/-- What a side has made, on record and in use. -/
structure Fresh (x : Sides) (side : Side) (ret : Int) : Prop where
  nonneg : 0 ≤ ret ∧ ret < 2 ^ 31
  made : x.made = [(side, ret.toNat)]
  held : x.holds side ret.toNat = true

theorem neg_emfile : -emfile < 0 := by
  unfold emfile
  omega

theorem neg_ebadf : -ebadf < 0 := by
  unfold ebadf
  omega

/-- The descriptor is closed at the kernel, so it is gone if it was the kernel's. -/
theorem closed_iff {x' : Sides} (h : Fresh x side ret)
    (hmade : x'.made = x.made) (hholds : x'.holds = (x.mark .kernel ret.toNat false).holds) :
    (∀ p ∈ x'.made, x'.holds p.1 p.2 = false) ↔ side = .kernel := by
  rw [hmade, h.made, hholds]
  constructor
  · intro hclosed
    have hgone := hclosed _ (List.mem_singleton.mpr rfl)
    by_contra hside
    rw [mark_of_ne x false (.inl hside), h.held] at hgone
    cases hgone
  · rintro hside p hp
    rw [List.mem_singleton.mp hp, hside]
    exact mark_self ..

theorem ensures_takeBack {mem : Memory} {s' : State T} {code : Int}
    (h : Fresh x side ret) (hcode : code < 0)
    (hcond : ((∀ fd, translateVirtualFd s'.fds cage fd = translateVirtualFd s.fds cage fd) ∧
      side = .kernel) ↔ cond) :
    Ensures (serve mem) (closeUnder cage (wordOf ret) >>= fun _ => .done (s', code)) x
      (UndoneIff cage s cond) := by
  refine ensures_request fun x' code' hserve => ensures_done ?_
  rcases serve_close rfl hserve with ⟨_, hmade, _, hholds, _⟩
  have hfd : ((⟨.plain .close, false, cage, onlyArg (wordOf ret), fun _ => cage⟩ : Forward).args
      0).toNat = ret.toNat := toNat_wordOf h.nonneg
  rw [hfd] at hholds
  have hclosed := closed_iff h hmade hholds
  constructor
  · intro hundone
    have hu := hundone hcode
    exact hcond.mp ⟨hu.fds, hclosed.mp hu.closed⟩
  · intro hc _
    exact ⟨(hcond.mpr hc).1, hclosed.mpr (hcond.mpr hc).2⟩

section Lawful

variable {mem : Memory} {cage : Nat} {s s' : State T} {x : Sides} {ret : Int} {newfd : Word}
  {post : Sides → State T × Int → Prop} {entry : FDTableEntry} {c : Request}

omit [FdTables T] in
theorem ensures_make {f : Forward} (hclose : f.nr.sys ≠ .close)
    (hmakes : f.makes = true) (hx : x.made = [])
    (hneg : ∀ x' ret, x.replies = ret :: x'.replies → ret < 0 → x'.made = [] →
      Ensures (serve mem) (k ret) x' post)
    (hnew : ∀ x' ret, x.replies = ret :: x'.replies → Fresh x' f.side ret →
      Ensures (serve mem) (k ret) x' post) :
    Ensures (serve mem) (request (.syscall f) >>= k) x post := by
  refine ensures_request fun x' ret hserve => ?_
  rcases serve_makes hclose hmakes hserve with ⟨hreplies, _, hmake⟩
  cases hmake with
  | refused hlt _ hmade => exact hneg x' ret hreplies hlt (hmade.trans hx)
  | given hpos _ hholds hmade =>
    refine hnew x' ret hreplies ⟨hpos, ?_, ?_⟩
    · rw [hmade, hx, List.nil_append]
    · rw [hholds]
      exact mark_self ..

omit [FdTables T] in
theorem head_replies {replies rest : List Int} (h : replies = ret :: rest) :
    replies[0]?.getD 0 = ret := by
  rw [h]
  rfl

/-- A refusal leaves nothing to undo. -/
theorem ensures_made {f : Forward} (hclose : f.nr.sys ≠ .close) (hmakes : f.makes = true)
    (hx : x.made = []) (hneg : ∀ ret, ret < 0 → k ret = .done (s, ret))
    (hnew : ∀ x' ret, Fresh x' f.side ret →
      Ensures (serve mem) (k ret) x' (UndoneIff cage s cond)) :
    Ensures (serve mem) (request (.syscall f) >>= k) x
      (UndoneIff cage s (x.replies[0]?.getD 0 < 0 ∨ cond)) := by
  refine ensures_make hclose hmakes hx ?_ ?_
  · intro x' ret hreplies hlt hmade
    rw [hneg ret hlt, head_replies hreplies]
    exact ensures_done (undoneIff_unmade hmade (.inl hlt))
  · intro x' ret hreplies hfresh
    rw [head_replies hreplies]
    refine ensures_mono (hnew x' ret hfresh) fun x'' r h => h.trans ?_
    exact ⟨.inr, fun hor => hor.resolve_left (Int.not_lt.mpr hfresh.nonneg.1)⟩

/-- A descriptor of the table is gone and nothing else has changed. -/
structure Gone (cage : Nat) (fd : Nat) (s s' : State T) : Prop where
  fds : ∀ x, translateVirtualFd s'.fds cage x =
    if x = fd then none else translateVirtualFd s.fds cage x
  exist : checkCageExists s'.fds cage = checkCageExists s.fds cage

theorem Gone.same_iff (h : Gone cage fd s s') :
    (∀ x, translateVirtualFd s'.fds cage x = translateVirtualFd s.fds cage x) ↔
      translateVirtualFd s.fds cage fd = none := by
  constructor
  · intro hsame
    rw [← hsame, h.fds, if_pos rfl]
  · intro hnone x
    rw [h.fds]
    split
    next hx => rw [hx, hnone]
    · rfl

omit [FdTables T] in
theorem forall_entry_iff (h : o = some entry) :
    (∀ e, o = some e → P e) ↔ P entry := by
  constructor
  · exact fun hall => hall entry h
  · intro hP e he
    rw [h] at he
    cases he
    exact hP

theorem undoneIff_noEntry (ho : o = none) (hx : x.made = []) :
    UndoneIff cage s (∀ e, o = some e → P e) x (s, ret) := by
  refine undoneIff_unmade hx fun e he => ?_
  rw [ho] at he
  cases he

theorem undoneIff_refused (marked : Option Int) (hgone : Gone cage newfd.toNat s s')
    (hneg : ret < 0) (hmade : x.made = []) :
    UndoneIff cage s (Replaces s cage entry newfd ret marked) x (s', ret) := by
  rw [Replaces, if_pos hneg, ← hgone.same_iff]
  refine ⟨fun h => (h hneg).fds, fun h _ => ⟨h, fun p hp => ?_⟩⟩
  rw [hmade] at hp
  cases hp

variable [LawfulFdTables T]

theorem asI32_nonneg_of_lt (h : fd < fdLimit T) : 0 ≤ asI32 fd := by
  have hle := limit_le (T := T)
  rw [asI32_natCast (by omega)]
  omega

theorem ensures_installUnused (perfdinfo : Nat)
    (hexist : checkCageExists s.fds cage = true) (h : Fresh x side ret) :
    Ensures (serve mem) (installUnused s cage ret perfdinfo) x
      (UndoneIff cage s (Room s cage ∨ side = .kernel)) := by
  unfold installUnused
  split
  next vfd t hget =>
    have hlaw := getUnused_some _ _ _ _ _ hget
    refine ensures_done (undoneIff_of_nonneg ?_ (.inl ⟨vfd, hlaw.2.1, hlaw.2.2.1⟩))
    simp only []
    exact asI32_nonneg_of_lt hlaw.2.1
  rename_i hget
  have hfull := getUnused_none _ _ _ hexist hget
  refine ensures_takeBack h neg_emfile ⟨fun hk => .inr hk.2, fun hor => ⟨fun _ => rfl, ?_⟩⟩
  rcases hor with ⟨fd, hlt, hnone⟩ | hside
  · exact absurd hnone (hfull fd hlt)
  · exact hside

theorem ensures_installAt (cloexec : Bool) (perfdinfo : Nat)
    (hexist : checkCageExists s'.fds cage = true) (h : Fresh x side ret)
    (hfds : fdLimit T ≤ newfd.toNat → ∀ fd, translateVirtualFd s'.fds cage fd =
      translateVirtualFd s.fds cage fd) :
    Ensures (serve mem) (installAt s' cage newfd ret cloexec perfdinfo) x
      (UndoneIff cage s (newfd.toNat < fdLimit T ∨ side = .kernel)) := by
  unfold installAt
  split
  next t hget =>
    have hlaw := getSpecific_some _ _ _ _ _ hget
    refine ensures_done (undoneIff_of_nonneg ?_ (.inl hlaw.2.1))
    simp only []
    exact asI32_nonneg_of_lt hlaw.2.1
  rename_i hget
  have hlimit := getSpecific_none _ _ _ _ hexist hget
  refine ensures_takeBack h neg_ebadf ⟨fun hk => .inr hk.2, fun hor => ⟨hfds hlimit, ?_⟩⟩
  exact hor.resolve_left (Nat.not_lt.mpr hlimit)

/-! ## The handlers -/

theorem ensures_closeTarget {k : State T → Asking (State T × Int)}
    (h : ∀ s' x', Gone cage newfd.toNat s s' → x'.made = x.made → x'.replies = x.replies →
      Ensures (serve mem) (k s') x' post) :
    Ensures (serve mem) (closeTarget s cage newfd >>= k) x post := by
  unfold closeTarget
  split
  next hnone =>
    refine h s x ⟨fun fd => ?_, rfl⟩ rfl rfl
    split
    next hfd => rw [hfd, hnone]
    · rfl
  rename_i e he
  refine ensures_request fun x' ret hserve => ?_
  rcases serve_close rfl hserve with ⟨hreplies, hmade, _⟩
  refine h _ x' ?_ hmade hreplies
  rcases hclose : closeVirtualfd s.fds cage newfd.toNat with _ | _
  · rw [close_none _ _ _ hclose] at he
    cases he
  have hlaw := close_some _ _ _ _ hclose
  refine ⟨fun fd => ?_, ?_⟩
  · simp only [Option.getD_some, hlaw.2.1, lookupUpdate, true_and]
  · simp only [Option.getD_some, hlaw.2.2]

theorem rollsBack_install {marked : Option Int} (cloexec : Bool)
    (hgone : Gone cage newfd.toNat s s') (hexist : checkCageExists s.fds cage = true)
    (hfresh : Fresh x (entrySide entry) ret) (hmarked : marked.any (fun m => m < 0) = false) :
    Ensures (serve mem) (installAt s' cage newfd ret cloexec entry.perfdinfo) x
      (UndoneIff cage s (Replaces s cage entry newfd ret marked)) := by
  have hfds : fdLimit T ≤ newfd.toNat → ∀ fd, translateVirtualFd s'.fds cage fd =
      translateVirtualFd s.fds cage fd := by
    intro hlimit
    refine hgone.same_iff.mpr ?_
    cases he : translateVirtualFd s.fds cage newfd.toNat with
    | none => rfl
    | some => exact absurd (lt_limit _ _ _ _ he) (Nat.not_lt.mpr hlimit)
  refine ensures_mono (ensures_installAt cloexec entry.perfdinfo (hgone.exist.trans hexist) hfresh
    hfds) fun x' r h => h.trans ?_
  rw [Replaces, if_neg (Int.not_lt.mpr hfresh.nonneg.1), hmarked,
    if_neg Bool.false_ne_true, entrySide_eq_kernel_iff]

/-- What `dup2` and `dup3` do alike once their arguments are checked. -/
theorem rollsBack_replace {k : State T → Int → Asking (State T × Int)} {marked : Option Int}
    (hx : x.made = [])
    (h : ∀ s' x' ret, Gone cage newfd.toNat s s' → x.replies = ret :: x'.replies →
      Fresh x' (entrySide entry) ret → Ensures (serve mem) (k s' ret) x'
        (UndoneIff cage s (Replaces s cage entry newfd ret marked))) :
    Ensures (serve mem) (closeTarget s cage newfd >>= fun s' => dupUnder s' cage entry >>=
        fun ret => if ret < 0 then return (s', ret) else k s' ret) x
      (UndoneIff cage s (Replaces s cage entry newfd (x.replies[0]?.getD 0) marked)) := by
  refine ensures_closeTarget fun s' x1 hgone hmade1 hreplies1 => ?_
  rw [← hreplies1] at h ⊢
  rcases dupUnder_eq s' cage entry with ⟨f, hf, hsys, _, hside⟩
  rw [hf]
  refine ensures_make (by rw [hsys]; exact Sys.noConfusion) (by rw [Forward.makes, hsys])
    (hmade1.trans hx) ?_ ?_
  · intro x' ret hreplies hneg hmade
    rw [if_pos hneg, head_replies hreplies]
    exact ensures_done (undoneIff_refused _ hgone hneg hmade)
  · intro x' ret hreplies hfresh
    rw [hside] at hfresh
    rw [if_neg (Int.not_lt.mpr hfresh.nonneg.1), head_replies hreplies]
    exact h s' x' ret hgone hreplies hfresh

section

variable (hexist : checkCageExists s.fds (c.argcages 0) = true) (hx : x.made = [])

include hexist hx

theorem rollsBack_open (hsys : c.sys = .open) : Ensures (serve mem) (nsOpenHandler s mem c) x
      (UndoneIff (c.argcages 0) s (RollsBack s mem c x.replies)) := by
  simp only [RollsBack, hsys]
  have hnr := s.sys_routeIf (c.argcages 0) .open
    (s.matchesAt mem (c.argcages 1) (c.args 0) (c.argcages 0))
  refine ensures_made (by rw [hnr]; exact Sys.noConfusion) (by rw [Forward.makes, hnr]) hx
    (fun ret hneg => if_neg (Int.not_le.mpr hneg)) fun x' ret hfresh => ?_
  rw [if_pos hfresh.nonneg.1]
  rw [s.side_routeIf] at hfresh
  exact ensures_installUnused _ hexist hfresh

theorem rollsBack_openat (hsys : c.sys = .openat) :
    Ensures (serve mem) (nsOpenatHandler s mem c) x
      (UndoneIff (c.argcages 0) s (RollsBack s mem c x.replies)) := by
  simp only [RollsBack, hsys, nsOpenatHandler]
  split
  next e hdir =>
    refine ensures_done (undoneIff_unmade hx fun _ _ hok => ?_)
    rw [hdir] at hok
    cases hok
  rename_i clamped args hdir
  have hcond : ∀ {P : Bool → Prop}, (∀ b a, translateDirfd s (c.argcages 0)
      ((readPathFromCage mem (c.args 1) (c.argcages 1)).getD []) c.args = .ok (b, a) → P b) ↔
        P clamped := by
    intro P
    constructor
    · exact fun h => h clamped args hdir
    · intro h b a hok
      rw [hdir] at hok
      cases hok
      exact h
  rw [hcond]
  cases hclamp : openatClamps s mem c
      ((readPathFromCage mem (c.args 1) (c.argcages 1)).getD []) clamped with
  | true =>
    rcases s.callClamped_eq (c.argcages 0) .openat args c.argcages with
      ⟨f, hf, hsys', _, _, hside⟩
    rw [if_pos rfl, hf]
    refine ensures_made (by rw [hsys']; exact Sys.noConfusion) (by rw [Forward.makes, hsys']) hx
      (fun ret hneg => if_neg (Int.not_le.mpr hneg)) fun x' ret hfresh => ?_
    rw [hside] at hfresh
    rw [if_pos hfresh.nonneg.1]
    refine ensures_mono (ensures_installUnused _ hexist hfresh) fun x'' r h => h.trans ?_
    exact or_congr_right (iff_of_false Side.noConfusion Bool.noConfusion)
  | false =>
    refine ensures_made Sys.noConfusion rfl hx (fun ret hneg => if_neg (Int.not_le.mpr hneg))
      fun x' ret hfresh => ?_
    rw [if_pos hfresh.nonneg.1]
    refine ensures_mono (ensures_installUnused _ hexist hfresh) fun x'' r h => h.trans ?_
    exact or_congr_right (iff_of_true rfl rfl)

theorem rollsBack_dup (hsys : c.sys = .dup) : Ensures (serve mem) (nsDupHandler s c) x
      (UndoneIff (c.argcages 0) s (RollsBack s mem c x.replies)) := by
  simp only [RollsBack, hsys, nsDupHandler]
  split
  next hnone => exact ensures_done (undoneIff_noEntry hnone hx)
  rename_i entry hentry
  rw [forall_entry_iff hentry]
  rcases dupUnder_eq s (c.argcages 0) entry with ⟨f, hf, hsys', _, hside⟩
  rw [hf, ← entrySide_eq_kernel_iff, ← hside]
  refine ensures_made (by rw [hsys']; exact Sys.noConfusion) (by rw [Forward.makes, hsys']) hx
    (fun ret hneg => if_pos hneg) fun x' ret hfresh => ?_
  rw [if_neg (Int.not_lt.mpr hfresh.nonneg.1)]
  exact ensures_installUnused _ hexist hfresh

theorem rollsBack_fcntl (hsys : c.sys = .fcntl)
    (hcmd : c.args 1 = fDupfd ∨ c.args 1 = fDupfdCloexec) :
    Ensures (serve mem) (nsFcntlHandler s c) x
      (UndoneIff (c.argcages 0) s (RollsBack s mem c x.replies)) := by
  simp only [RollsBack, hsys, nsFcntlHandler]
  split
  next hnone => exact ensures_done (undoneIff_noEntry hnone hx)
  rename_i entry hentry
  rw [forall_entry_iff hentry]
  have hnr := s.sys_routeIf (c.argcages 0) .fcntl (decide (entry.perfdinfo ≠ 0))
  have hmakes : ∀ u, Forward.makes ⟨s.routeIf (c.argcages 0) .fcntl
      (decide (entry.perfdinfo ≠ 0)), false, c.argcages 0, update c.args 0 u,
      c.argcages⟩ = true := by
    intro u
    have harg : update c.args 0 u 1 = c.args 1 :=
      update_of_ne (by decide) _ _
    simp only [Forward.makes, hnr, harg]
    rcases hcmd with hcmd | hcmd
    · rw [hcmd]
      rfl
    · rw [hcmd]
      rfl
  refine ensures_made (by rw [hnr]; exact Sys.noConfusion) (hmakes _) hx
    (fun ret hneg => if_neg fun h => absurd h.1 (Int.not_le.mpr hneg)) fun x' ret hfresh => ?_
  rw [if_pos ⟨hfresh.nonneg.1, hcmd⟩]
  split
  next vfd t hget =>
    have hlaw := getUnusedFrom_some _ _ _ _ _ _ hget
    refine ensures_done (undoneIff_of_nonneg ?_ ⟨vfd, hlaw.2.2.1, hlaw.2.1, hlaw.2.2.2.1⟩)
    simp only []
    exact asI32_nonneg_of_lt hlaw.2.1
  rename_i hget
  -- the duplicate is not closed, on whichever side it is
  refine ensures_done (undoneIff_of_not neg_emfile (fun hundone => ?_) ?_)
  · have hgone := hundone.closed _ (by rw [hfresh.made]; exact List.mem_singleton.mpr rfl)
    rw [hfresh.held] at hgone
    cases hgone
  · rintro ⟨fd, hstart, hlt, hfree⟩
    exact getUnusedFrom_none _ _ _ _ hexist hget fd hstart hlt hfree

theorem rollsBack_dup2 (hsys : c.sys = .dup2) : Ensures (serve mem) (nsDup2Handler s c) x
      (UndoneIff (c.argcages 0) s (RollsBack s mem c x.replies)) := by
  simp only [RollsBack, hsys, nsDup2Handler]
  split
  next hnone => exact ensures_done (undoneIff_noEntry hnone hx)
  rename_i entry hentry
  rw [forall_entry_iff hentry]
  split
  next hsame => exact ensures_done (undoneIff_unmade hx (.inl hsame))
  rename_i hdiff
  rw [or_iff_right hdiff]
  refine rollsBack_replace hx fun s' x' ret hgone _ hfresh => ?_
  exact rollsBack_install false hgone hexist hfresh rfl

theorem rollsBack_dup3 (hsys : c.sys = .dup3) : Ensures (serve mem) (nsDup3Handler s c) x
      (UndoneIff (c.argcages 0) s (RollsBack s mem c x.replies)) := by
  simp only [RollsBack, hsys, nsDup3Handler]
  split
  next hnone => exact ensures_done (undoneIff_noEntry hnone hx)
  rename_i entry hentry
  rw [forall_entry_iff hentry]
  split
  next hsame => exact ensures_done (undoneIff_unmade hx (.inl hsame))
  rename_i hdiff
  rw [or_iff_right hdiff]
  refine rollsBack_replace hx fun s' x' ret hgone hreplies hfresh => ?_
  by_cases hcloexec : c.args 2 &&& oCloexec ≠ 0
  · rw [if_pos (decide_eq_true hcloexec), if_pos hcloexec]
    refine ensures_request fun x'' mret hserve => ?_
    rcases serve_other Sys.noConfusion rfl hserve with ⟨hreplies', hmade', _, hholds'⟩
    have hfresh' : Fresh x'' (entrySide entry) ret :=
      ⟨hfresh.nonneg, hmade'.trans hfresh.made, by rw [hholds']; exact hfresh.held⟩
    have hmark : x.replies[1]?.getD 0 = mret := by
      rw [hreplies, hreplies']
      rfl
    rw [hmark]
    by_cases hmneg : mret < 0
    · rw [if_pos hmneg]
      refine ensures_takeBack hfresh' hmneg ?_
      have hany : (some mret).any (fun m => decide (m < 0)) = true := decide_eq_true hmneg
      rw [Replaces, if_neg (Int.not_lt.mpr hfresh.nonneg.1), if_pos hany, hgone.same_iff,
        entrySide_eq_kernel_iff]
    · rw [if_neg hmneg]
      exact rollsBack_install _ hgone hexist hfresh' (decide_eq_false hmneg)
  · rw [if_neg (by rw [decide_eq_true_eq]; exact hcloexec), if_neg hcloexec]
    exact rollsBack_install _ hgone hexist hfresh rfl

end

/-- A call that makes a descriptor and fails has undone what it did exactly under
    the condition. -/
theorem rolls_back_iff {s s' : State T} {mem : Memory} {c : Request} {x x' : Sides}
    {d : Asking (State T × Int)} {ret : Int} (hcall : DescriptorCall c)
    (hexist : checkCageExists s.fds (c.argcages 0) = true) (hd : nsHandler s mem c = some d)
    (hx : x.made = []) (hrun : d.run (Sides.serve mem) x = some (x', s', ret)) :
    (ret < 0 → Undone (c.argcages 0) s s' x') ↔ RollsBack s mem c x.replies := by
  unfold nsHandler at hd
  rcases hcall with hsys | hsys | hsys | hsys | hsys | ⟨hsys, hcmd⟩
  all_goals
    rw [hsys] at hd
    cases hd
  · exact rollsBack_open hexist hx hsys x' (s', ret) hrun
  · exact rollsBack_openat hexist hx hsys x' (s', ret) hrun
  · exact rollsBack_dup hexist hx hsys x' (s', ret) hrun
  · exact rollsBack_dup2 hexist hx hsys x' (s', ret) hrun
  · exact rollsBack_dup3 hexist hx hsys x' (s', ret) hrun
  · exact rollsBack_fcntl hexist hx hsys hcmd x' (s', ret) hrun

end Lawful

/-! ## Calls that fail -/

/-- The first cage of a clamp, with a fourth descriptor on the clamped side. -/
def clampedState : State (MapTables 16) :=
  { loneWorld.state with
    fds := (getSpecificVirtualFd loneWorld.state.fds 2 3 ⟨0, 7, false, 1⟩).getD
      loneWorld.state.fds }

/-- The kernel with its three standard descriptors, the clamped side with one. -/
def twoSides (replies : List Int) : Sides :=
  { holds := fun side fd => decide (side = .kernel ∧ fd < 3 ∨ side = .clamped ∧ fd = 7)
    replies := replies
    made := []
    passed := [] }

def callWith (sys : Sys) (a b c : Word) : Request :=
  ⟨sys, fun i => if i = 0 then a else if i = 1 then b else if i = 2 then c else 0, fun _ => 2⟩

/-- A duplicate of standard input gets no number beyond the limit and is closed
    again. -/
theorem rolls_back_iff_dup2 :
    ∃ x' s', (nsDup2Handler clampedState (callWith .dup2 0 20 0)).run
        (Sides.serve fun _ _ => none) (twoSides [5]) = some (x', s', -ebadf) ∧
      x'.made = [(.kernel, 5)] ∧ Undone 2 clampedState s' x' := by
  have := lawful_managedMapTables 16 (by decide) (by decide)
  have hrun : ((nsDup2Handler clampedState (callWith .dup2 0 20 0)).run
      (serve fun _ _ => none) (twoSides [5])).any
        (fun r => decide (r.2.2 = -ebadf ∧ r.1.made = [(.kernel, 5)])) = true := by
    decide +kernel
  rcases (Option.any_eq_true _ _).mp hrun with ⟨r, hr, hfacts⟩
  rcases of_decide_eq_true hfacts with ⟨hret, hmade⟩
  rcases r with ⟨x', s', ret⟩
  subst hret
  have hiff := rolls_back_iff (c := callWith .dup2 0 20 0) (.inr (.inr (.inr (.inl rfl))))
    (by decide +kernel) rfl rfl hr
  refine ⟨x', s', hr, hmade, hiff.mpr ?_ neg_ebadf⟩
  intro entry hentry
  have hinput : translateVirtualFd clampedState.fds 2 0 = some ⟨0, 0, false, 0⟩ := by
    decide +kernel
  have hentry' : some (⟨0, 0, false, 0⟩ : FDTableEntry) = some entry := hinput.symm.trans hentry
  cases hentry'
  exact .inr (.inr rfl)

theorem exists_run {T : Type} {o : Option (Sides × State T × Int)}
    {P : Sides → State T → Int → Prop} [∀ x s ret, Decidable (P x s ret)]
    (h : o.any (fun r => decide (P r.1 r.2.1 r.2.2)) = true) :
    ∃ x s ret, o = some (x, s, ret) ∧ P x s ret := by
  rcases (Option.any_eq_true _ _).mp h with ⟨r, hr, hP⟩
  exact ⟨r.1, r.2.1, r.2.2, hr, of_decide_eq_true hP⟩

/-- A `dup2` that is refused leaves the cage without the descriptor it was to
    replace; a `dup2` of a clamped descriptor beyond the limit leaves the duplicate
    open on the clamped side; and an `fcntl` that finds no number leaves it open on
    either side. -/
theorem leaves_descriptor :
    (∃ x' s' ret, (nsDup2Handler clampedState (callWith .dup2 0 1 0)).run
        (Sides.serve fun _ _ => none) (twoSides [-24]) = some (x', s', ret) ∧ ret < 0 ∧
      translateVirtualFd clampedState.fds 2 1 ≠ none ∧ translateVirtualFd s'.fds 2 1 = none) ∧
    (∃ x' s' ret, (nsDup2Handler clampedState (callWith .dup2 3 20 0)).run
        (Sides.serve fun _ _ => none) (twoSides [9]) = some (x', s', ret) ∧ ret < 0 ∧
      x'.made = [(.clamped, 9)] ∧ x'.holds .clamped 9 = true) ∧
    ∃ x' s' ret, (nsFcntlHandler clampedState (callWith .fcntl 0 fDupfd 16)).run
        (Sides.serve fun _ _ => none) (twoSides [5]) = some (x', s', ret) ∧ ret < 0 ∧
      x'.made = [(.kernel, 5)] ∧ x'.holds .kernel 5 = true := by
  refine ⟨?_, ?_, ?_⟩
  · exact exists_run (by decide +kernel)
  · exact exists_run (by decide +kernel)
  · exact exists_run (by decide +kernel)

end LindGrates.FsClamp
