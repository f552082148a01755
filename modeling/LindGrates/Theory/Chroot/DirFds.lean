import LindGrates.Core.Chroot.System
import LindGrates.Base.Run
import LindGrates.Theory.Chroot.Confine

/-!
# The Table of Directory Descriptors

The table is brought up to date by the handlers of the calls that open, duplicate and
close, and these keep it right.

What the grate does not see are the descriptors the kernel closes itself when a
cage executes a new program. Their entries stay and name a directory that is no
longer open, and once the number is used again, something else. The test for a
directory looks at one bit of the mode, which block devices and sockets also
have. It follows a link that the call itself may not follow. And a number is
looked up with all its 64 bits, of which the kernel reads 32.

## Main definitions

* `Truthful`: What the grate believes about descriptors is so.
* `FdsCareful`: The condition on a call.

## Theorems

* `dirFds_truthful`: The table is right in every run of careful calls.
* `dirFds_stale`: An entry that outlives its descriptor.
-/

namespace LindGrates.Chroot

open Function Option World State Kernel

variable {oldfd newfd : Word} {cloexec : Bool} {arg : PathArg} {after : After} {v : Str}

/-- Every descriptor the grate has a path for is open, on the directory at that
    path. -/
def Truthful (w : World) : Prop :=
  ∀ cage fd path, w.grate.fdDirPath cage fd = some path →
    ∃ desc, w.kernel.fds cage (kernelFd fd) = some desc ∧ desc.origin = .directory path

/-- The file at a path is a directory if its mode has the bit of one. -/
def NoLookalike (host : Host) (text : Str) : Prop :=
  ∀ mode, host.stat text = some mode → mode &&& sIfdir ≠ 0 → isDirectory mode = true

/-- An opening call follows links, makes no unnamed file, and does not name a
    block device or a socket. -/
structure OpensPlainly (w : World) (e : Event) (cage : Nat) (flags : Word) : Prop where
  follows : ¬ (hasFlag flags oPath = true ∧ hasFlag flags oNofollow = true)
  named : opensTmpfile flags = false
  plain : ∀ path, e.call.opens w.kernel w.grate = some path →
    NoLookalike e.host (w.grate.chrootPath path cage)

def FdsCareful (w : World) : Action → Prop
  | .create _ _ _ => True
  | .call e =>
    match e.call with
    | .openPath ptr flags => OpensPlainly w e ptr.cage flags
    | .openat _ ptr flags => OpensPlainly w e ptr.cage flags
    | .close _ fd => fd.toNat < 2 ^ 32
    | .dup2 _ _ newfd => newfd.toNat < 2 ^ 32
    | .dup3 _ _ newfd _ => newfd.toNat < 2 ^ 32
    | .execve ptr =>
      ∀ fd path, w.grate.fdDirPath ptr.cage fd = some path →
        ∀ desc, w.kernel.fds ptr.cage (kernelFd fd) = some desc → desc.cloexec = false
    | _ => True

/-- What holds in every careful run: entries are truthful and belong to numbers
    of 32 bits, and a cage that is not there has no descriptors. -/
structure FdsInv (w : World) : Prop where
  truthful : Truthful w
  small : ∀ cage fd path, w.grate.fdDirPath cage fd = some path → fd.toNat < 2 ^ 32
  dead : ∀ cage, w.kernel.live cage = false → ∀ fd, w.kernel.fds cage fd = none

/-! ## Descriptors of the kernel -/

variable {fd : Word} {k k' : Kernel} {cage : Nat} {w : World} {s : State} {after : After}
  {e : Event} {req : Request} {sys : Sys}

theorem kernelFd_of_lt (h : fd.toNat < 2 ^ 32) : kernelFd fd = fd.toNat := by
  rw [kernelFd, BitVec.toNat_setWidth, Nat.mod_eq_of_lt h]

theorem toNat_ofInt {n : Int} (h : ¬ n < 0) (hlt : n.toNat < 2 ^ 31) :
    (BitVec.ofInt 64 n).toNat = n.toNat := by
  rw [BitVec.toNat_ofInt]
  omega

theorem kernelFd_ofInt {n : Int} (h : ¬ n < 0) (hlt : n.toNat < 2 ^ 31) :
    kernelFd (BitVec.ofInt 64 n) = n.toNat := by
  rw [kernelFd_of_lt, toNat_ofInt h hlt]
  rw [toNat_ofInt h hlt]
  omega

namespace Kernel

theorem fds_set (k : Kernel) (cage fd : Nat) (desc : Option Desc) (c n : Nat) :
    (k.set cage fd desc).fds c n = if c = cage ∧ n = fd then desc else k.fds c n := by
  unfold set
  dsimp only
  by_cases hc : c = cage
  · rw [hc, update_self]
    by_cases hn : n = fd
    · rw [hn, update_self, if_pos ⟨rfl, rfl⟩]
    · rw [update_of_ne hn, if_neg fun h => hn h.2]
  · rw [update_of_ne hc, if_neg fun h => hc h.1]

theorem isFree_iff {k : Kernel} {cage fd : Nat} :
    k.isFree cage fd = true ↔ fd < 2 ^ 31 ∧ k.fds cage fd = none := by
  rw [isFree, decide_eq_true_eq]

end Kernel

/-- Descriptors that differ at one number only, or in whether they are closed
    for a new program. -/
structure KeepsBut (k k' : Kernel) (cage fd : Nat) : Prop where
  live : k'.live = k.live
  fds : ∀ c n, ¬ (c = cage ∧ n = fd) →
    (k'.fds c n).map Desc.origin = (k.fds c n).map Desc.origin
  alive : k.live cage = true

theorem keepsBut_set (h : k.live cage = true) (fd : Nat) (desc : Option Desc) :
    KeepsBut k (k.set cage fd desc) cage fd where
  live := rfl
  fds := fun c n hne => by rw [fds_set, if_neg hne]
  alive := h

theorem truthful_iff {path : Str} :
    (∃ desc, w.kernel.fds cage (kernelFd fd) = some desc ∧ desc.origin = .directory path) ↔
      (w.kernel.fds cage (kernelFd fd)).map Desc.origin = some (.directory path) :=
  map_eq_some_iff.symm

/-! ## One entry -/

theorem FdsInv.same (hw : FdsInv w)
    (h : ∀ cage fd, s.fdDirPath cage fd = w.grate.fdDirPath cage fd) :
    FdsInv { w with grate := s } where
  truthful := fun cage fd path hp => hw.truthful cage fd path (h cage fd ▸ hp)
  small := fun cage fd path hp => hw.small cage fd path (h cage fd ▸ hp)
  dead := hw.dead

theorem FdsInv.dead_but (hw : FdsInv w) {fd : Nat} (hk : KeepsBut w.kernel k cage fd) (c : Nat)
    (hc : k.live c = false) (n : Nat) : k.fds c n = none := by
  have hlive : w.kernel.live c = false := by
    rw [← hk.live]
    exact hc
  have hne : ¬ (c = cage ∧ n = fd) := by
    rintro ⟨rfl, _⟩
    rw [hk.alive] at hlive
    cases hlive
  have := hk.fds c n hne
  rw [hw.dead c hlive n, map_none, map_eq_none_iff] at this
  exact this

theorem FdsInv.sets (hw : FdsInv w) {entry : Option Str} (hs : Sets w.grate s cage fd entry)
    (hk : KeepsBut w.kernel k cage (kernelFd fd)) (hsmall : fd.toNat < 2 ^ 32)
    (hentry : ∀ path, entry = some path →
      (k.fds cage (kernelFd fd)).map Desc.origin = some (.directory path)) : FdsInv ⟨s, k⟩ where
  truthful := fun c f path hp => by
    rw [truthful_iff]
    rw [hs.fdDirPath] at hp
    split at hp
    next h =>
      rw [h.1, h.2]
      exact hentry path hp
    rename_i h
    rw [hk.fds, ← truthful_iff]
    · exact hw.truthful c f path hp
    · -- Different words below 2 ^ 32 are different numbers.
      rintro ⟨hc, hf⟩
      rw [kernelFd_of_lt hsmall, kernelFd_of_lt (hw.small c f path hp)] at hf
      exact h ⟨hc, BitVec.eq_of_toNat_eq hf⟩
  small := fun c f path hp => by
    rw [hs.fdDirPath] at hp
    split at hp
    next h =>
      rw [h.2]
      exact hsmall
    · exact hw.small c f path hp
  dead := hw.dead_but hk

theorem FdsInv.appears (hw : FdsInv w) {fd : Nat}
    (hs : ∀ c f, s.fdDirPath c f = w.grate.fdDirPath c f) (hk : KeepsBut w.kernel k cage fd)
    (hfree : w.kernel.fds cage fd = none) : FdsInv ⟨s, k⟩ where
  truthful := fun c f path hp => by
    rw [hs] at hp
    have hold := hw.truthful c f path hp
    rw [truthful_iff]
    rw [hk.fds, ← truthful_iff]
    · exact hold
    · rintro ⟨hc, hf⟩
      rcases hold with ⟨desc, hdesc, _⟩
      rw [hc, hf, hfree] at hdesc
      cases hdesc
  small := fun c f path hp => hw.small c f path (hs c f ▸ hp)
  dead := hw.dead_but hk

theorem FdsInv.reopened (hw : FdsInv w) (hs : ∀ c f, s.fdDirPath c f = w.grate.fdDirPath c f)
    (hlive : k.live = w.kernel.live)
    (hk : ∀ c n, (k.fds c n).map Desc.origin = (w.kernel.fds c n).map Desc.origin) :
    FdsInv ⟨s, k⟩ where
  truthful := fun c f path hp => by
    rw [truthful_iff]
    rw [hk, ← truthful_iff]
    exact hw.truthful c f path (hs c f ▸ hp)
  small := fun c f path hp => hw.small c f path (hs c f ▸ hp)
  dead := fun c hc n => by
    have := hk c n
    rw [hw.dead c (hlive ▸ hc) n, map_none, map_eq_none_iff] at this
    exact this

/-! ## Calls that do not touch descriptors -/

theorem serve_inert (h : req.sys.isInert = true) (hserve : k.serve s e req = some k') : k' = k := by
  unfold serve at hserve
  split at hserve
  · cases hserve
  split at hserve
  · exact (Option.some.inj hserve).symm
  rcases req with ⟨sys, cage, paths, target, words⟩
  cases sys
  all_goals first
    | exact (Option.some.inj hserve).symm
    | cases h

theorem serve_live (hserve : k.serve s e req = some k') : k.live req.cage = true := by
  unfold serve at hserve
  split at hserve
  · cases hserve
  next h => exact Bool.not_eq_false _ ▸ h

theorem serve_failed (hret : e.answer.ret < 0) (hserve : k.serve s e req = some k') : k' = k := by
  have hlive := serve_live hserve
  rw [serve, if_neg (by rw [hlive]; decide), if_pos hret] at hserve
  exact (Option.some.inj hserve).symm

theorem serve_performs (hret : ¬ e.answer.ret < 0) (hserve : k.serve s e req = some k') :
    k.perform s e req = some k' := by
  have hlive := serve_live hserve
  rw [serve, if_neg (by rw [hlive]; decide), if_neg hret] at hserve
  exact hserve

/-! ## Duplicating and closing -/

theorem FdsInv.duplicate (hw : FdsInv w) {ret : Int}
    (hlive : w.kernel.live cage = true) (hret : ¬ ret < 0)
    (hk : w.kernel.duplicate cage oldfd ret.toNat cloexec = some k) :
    FdsInv ⟨w.grate.copyFdDirPath cage oldfd (BitVec.ofInt 64 ret), k⟩ := by
  rcases bind_eq_some_iff.mp hk with ⟨desc, hdesc, hk⟩
  split at hk
  next hfree =>
    cases hk
    have hlt := (isFree_iff.mp hfree).1
    have hfd := kernelFd_ofInt hret hlt
    refine hw.sets (sets_copyFdDirPath w.grate cage oldfd _) ?_ ?_ fun path hpath => ?_
    · rw [hfd]
      exact keepsBut_set hlive _ _
    · rw [toNat_ofInt hret hlt]
      omega
    · rcases hw.truthful cage oldfd path hpath with ⟨desc', hdesc', horigin⟩
      rw [hdesc] at hdesc'
      cases hdesc'
      rw [hfd, fds_set, if_pos ⟨rfl, rfl⟩, map_some, horigin]
  · cases hk

theorem FdsInv.replace (hw : FdsInv w)
    (hlive : w.kernel.live cage = true) (hsmall : newfd.toNat < 2 ^ 32)
    (hk : w.kernel.replace cage oldfd newfd cloexec = some k) :
    FdsInv ⟨w.grate.copyFdDirPath cage oldfd newfd, k⟩ := by
  rcases bind_eq_some_iff.mp hk with ⟨desc, hdesc, hk⟩
  have hold : ∀ path, w.grate.fdDirPath cage oldfd = some path → desc.origin = .directory path := by
    intro path hpath
    rcases hw.truthful cage oldfd path hpath with ⟨desc', hdesc', horigin⟩
    rw [hdesc] at hdesc'
    cases hdesc'
    exact horigin
  split at hk
  next heq =>
    cases hk
    refine hw.sets (sets_copyFdDirPath w.grate cage oldfd newfd) ⟨rfl, fun _ _ _ => rfl, hlive⟩
      hsmall fun path hpath => ?_
    rw [← heq, hdesc, map_some, hold path hpath]
  split at hk
  · cases hk
    refine hw.sets (sets_copyFdDirPath w.grate cage oldfd newfd) (keepsBut_set hlive _ _) hsmall
      fun path hpath => ?_
    rw [fds_set, if_pos ⟨rfl, rfl⟩, map_some, hold path hpath]
  · cases hk

section Calls

variable {w : World} {e : Event} {k : Kernel} {s : State} {req : Request} {cage : Nat}
  {oldfd flags dirfd : Word} {path : Str} {ptr : CagePtr}

section

variable (hw : FdsInv w)

include hw

theorem FdsInv.failed (hret : e.answer.ret < 0) (hs : Same w.grate s)
    (hk : w.kernel.serve w.grate e req = some k) : FdsInv ⟨s, k⟩ := by
  rw [serve_failed hret hk]
  exact hw.same hs.fdDirPath

theorem fdsInv_close {fd : Word} (hsmall : fd.toNat < 2 ^ 32)
    (hk : w.kernel.serve w.grate e ⟨.close, cage, [], none, [fd]⟩ = some k) :
    FdsInv ⟨(finish e.host e.answer w.grate (.clear cage fd)).1, k⟩ := by
  have hlive := serve_live hk
  dsimp only [finish]
  split
  next hret => exact hw.failed hret (.refl _) hk
  rename_i hret
  have hperform := serve_performs hret hk
  dsimp only [perform] at hperform
  split at hperform
  · cases hperform
    exact hw.sets (sets_clearFdDirPath w.grate cage fd) (keepsBut_set hlive _ _) hsmall
      fun path hpath => by cases hpath
  · cases hperform

theorem fdsInv_dup (hk : w.kernel.serve w.grate e ⟨.dup, cage, [], none, [oldfd]⟩ = some k) :
    FdsInv ⟨(finish e.host e.answer w.grate (.copyToResult cage oldfd)).1, k⟩ := by
  dsimp only [finish]
  split
  next hret => exact hw.failed hret (.refl _) hk
  next hret => exact hw.duplicate (serve_live hk) hret (serve_performs hret hk)

theorem fdsInv_copyTo (hsmall : newfd.toNat < 2 ^ 32)
    (hreq : req = ⟨.dup2, cage, [], none, [oldfd, newfd]⟩ ∨
      ∃ flags, req = ⟨.dup3, cage, [], none, [oldfd, newfd, flags]⟩)
    (hk : w.kernel.serve w.grate e req = some k) :
    FdsInv ⟨(finish e.host e.answer w.grate (.copyTo cage oldfd newfd)).1, k⟩ := by
  dsimp only [finish]
  split
  next hret => exact hw.failed hret (.refl _) hk
  rename_i hret
  rcases hreq with rfl | ⟨_, rfl⟩
  all_goals exact hw.replace (serve_live hk) hsmall (serve_performs hret hk)

theorem fdsInv_fcntl {fd cmd arg : Word}
    (hk : w.kernel.serve w.grate e ⟨.fcntl, cage, [], none, [fd, cmd, arg]⟩ = some k) :
    FdsInv ⟨(finish e.host e.answer w.grate
      (if duplicates cmd then .copyToResult cage fd else .reply)).1, k⟩ := by
  have hlive := serve_live hk
  by_cases hret : e.answer.ret < 0
  · have hfinish : (finish e.host e.answer w.grate
        (if duplicates cmd then .copyToResult cage fd else .reply)).1 = w.grate := by
      split
      · dsimp only [finish]
        rw [if_pos hret]
      · rfl
    rw [hfinish]
    exact hw.failed hret (.refl _) hk
  have hperform := serve_performs hret hk
  dsimp only [perform] at hperform
  by_cases hdup : duplicates cmd = true
  · rw [if_pos hdup] at hperform ⊢
    dsimp only [finish]
    rw [if_neg hret]
    exact hw.duplicate hlive hret hperform
  rw [if_neg hdup] at hperform ⊢
  split at hperform
  · rcases map_eq_some_iff.mp hperform with ⟨desc, hdesc, rfl⟩
    -- The descriptor is marked, not changed.
    refine hw.reopened (fun _ _ => rfl) rfl fun c n => ?_
    rw [fds_set]
    split
    next h =>
      rw [h.1, h.2, hdesc]
      rfl
    · rfl
  · cases hperform
    exact hw

theorem fdsInv_exec {paths : List PathArg} (hs : Same w.grate s)
    (hopen : ∀ fd path, w.grate.fdDirPath cage fd = some path →
      ∀ desc, w.kernel.fds cage (kernelFd fd) = some desc → desc.cloexec = false)
    (hk : w.kernel.serve w.grate e ⟨.execve, cage, paths, none, []⟩ = some k) : FdsInv ⟨s, k⟩ := by
  by_cases hret : e.answer.ret < 0
  · exact hw.failed hret hs hk
  have hperform := serve_performs hret hk
  cases hperform
  refine ⟨fun c fd path hp => ?_, fun c fd path hp => ?_, fun c hc n => ?_⟩
  · have hold : w.grate.fdDirPath c fd = some path := hs.fdDirPath c fd ▸ hp
    rcases hw.truthful c fd path hold with ⟨desc, hdesc, horigin⟩
    refine ⟨desc, ?_, horigin⟩
    change update w.kernel.fds cage _ c _ = _
    by_cases hcage : c = cage
    · rw [hcage] at hdesc hold ⊢
      rw [update_self, hdesc]
      exact if_pos (decide_eq_true (hopen fd path hold desc hdesc))
    · rw [update_of_ne hcage, hdesc]
  · exact hw.small c fd path (hs.fdDirPath c fd ▸ hp)
  · have hdead := hw.dead c hc
    change update w.kernel.fds cage _ c n = _
    by_cases hcage : c = cage
    · rw [hcage] at hdead ⊢
      rw [update_self, hdead n]
      rfl
    · rw [update_of_ne hcage, hdead n]

theorem fdsInv_fork {isThread : Bool} (hk : w.kernel.serve w.grate e
      ⟨.clone, cage, [], none, [if isThread then 1 else 0]⟩ = some k) :
    FdsInv ⟨(finish e.host e.answer w.grate (if isThread then .reply else .child cage)).1, k⟩ := by
  by_cases hret : 0 < e.answer.ret ∧ isThread = false
  · rcases hret with ⟨hpos, rfl⟩
    have hperform := serve_performs (by omega) hk
    dsimp only [perform] at hperform
    rw [if_pos ⟨rfl, hpos⟩, fork] at hperform
    split at hperform
    · cases hperform
    rename_i hfresh
    cases hperform
    have hinherits := inherits_register w.grate cage e.answer.ret.toNat
    have hdead := hw.dead _ (Bool.not_eq_true _ ▸ hfresh)
    have hnone : ∀ f, w.grate.fdDirPath e.answer.ret.toNat f = none := by
      intro f
      rcases hp : w.grate.fdDirPath e.answer.ret.toNat f with _ | path
      · rfl
      rcases hw.truthful _ f path hp with ⟨desc, hdesc, _⟩
      rw [hdead] at hdesc
      cases hdesc
    -- What the child has is what its parent has.
    have hchild : ∀ f path,
        ((w.grate.registerCage cage e.answer.ret.toNat).registerChildFdPaths cage
          e.answer.ret.toNat).fdDirPath e.answer.ret.toNat f = some path →
        w.grate.fdDirPath cage f = some path := by
      intro f path hp
      rcases hinherits.childFds with hfds | hfds
      · exact hfds f ▸ hp
      · rw [(hfds f).2, hnone f] at hp
        cases hp
    rw [if_neg Bool.false_ne_true]
    dsimp only [finish]
    rw [if_neg (by omega)]
    refine ⟨fun c f path hp => ?_, fun c f path hp => ?_, fun c hc n => ?_⟩
    · change ∃ desc, update w.kernel.fds _ _ c _ = _ ∧ _
      by_cases hcage : c = e.answer.ret.toNat
      · rw [hcage] at hp ⊢
        rw [update_self]
        exact hw.truthful cage f path (hchild f path hp)
      · rw [update_of_ne hcage]
        exact hw.truthful c f path (hinherits.fdDirPath c f hcage ▸ hp)
    · by_cases hcage : c = e.answer.ret.toNat
      · rw [hcage] at hp
        exact hw.small cage f path (hchild f path hp)
      · exact hw.small c f path (hinherits.fdDirPath c f hcage ▸ hp)
    · change update w.kernel.fds _ _ c n = _
      change update w.kernel.live _ _ c = _ at hc
      by_cases hcage : c = e.answer.ret.toNat
      · rw [hcage, update_self] at hc
        cases hc
      · rw [update_of_ne hcage] at hc ⊢
        exact hw.dead c hc n
  · -- No new cage: the kernel and the grate both leave everything as it is.
    have hfinish : (finish e.host e.answer w.grate
        (if isThread then .reply else .child cage)).1 = w.grate := by
      cases isThread with
      | true => rfl
      | false =>
        have hle : e.answer.ret ≤ 0 := Int.not_lt.mp fun hc => hret ⟨hc, rfl⟩
        exact if_pos hle
    rw [hfinish]
    by_cases hneg : e.answer.ret < 0
    · exact hw.failed hneg (.refl _) hk
    have hperform := serve_performs hneg hk
    dsimp only [perform] at hperform
    rw [if_neg] at hperform
    · cases hperform
      exact hw
    · rintro ⟨hthread, hpos⟩
      refine hret ⟨hpos, ?_⟩
      cases isThread with
      | true => exact absurd hthread (by decide)
      | false => rfl

end

/-! ## Opening -/

theorem checkDir_iff {host : Host} {dir : Str} (h : host.checkDir dir = true) :
    ∃ mode, host.stat dir = some mode ∧ mode &&& sIfdir ≠ 0 := by
  unfold Host.checkDir cString at h
  split at h
  · cases h
  rename_i text htext
  split at htext
  · cases htext
  cases htext
  split at h
  · cases h
  next mode hmode => exact ⟨mode, hmode, of_decide_eq_true h⟩

theorem FdsInv.registers (hw : FdsInv w) (hs : Same w.grate s)
    (hopens : e.call.opens w.kernel w.grate = some path)
    (harg : arg.dirfd = none ∨ arg.dirfd = some atFdcwd)
    (htext : arg.path = w.grate.chrootPath path cage) (hplain : OpensPlainly w e cage flags)
    (hlive : w.kernel.live cage = true) (hret : ¬ e.answer.ret < 0)
    (hfree : w.kernel.isFree cage e.answer.ret.toNat = true)
    (hfound : e.opensAsFound arg flags = true) :
    FdsInv ⟨s.registerDirFdIfDirectory e.host cage (BitVec.ofInt 64 e.answer.ret) path,
      w.kernel.set cage e.answer.ret.toNat (some ⟨e.origin w.kernel w.grate, cloexec⟩)⟩ := by
  have hlt := (isFree_iff.mp hfree).1
  have hfd := kernelFd_ofInt hret hlt
  refine hw.sets (hs.sets (sets_registerDirFdIfDirectory s e.host cage _ path)) ?_ ?_
    fun p hp => ?_
  · rw [hfd]
    exact keepsBut_set hlive _ _
  · rw [toNat_ofInt hret hlt]
    omega
  · rw [hs.chrootPath] at hp
    split at hp
    next hcheck =>
      cases hp
      rcases checkDir_iff hcheck with ⟨mode, hmode, hbit⟩
      have hdir := hplain.plain path hopens mode hmode hbit
      have hopensDir : e.opensDir = true := by
        rw [Event.opensAsFound, if_neg hplain.follows, hplain.named, if_neg Bool.false_ne_true,
          if_pos harg, htext, hmode] at hfound
        exact (of_decide_eq_true hfound).trans hdir
      rw [hfd, fds_set, if_pos ⟨rfl, rfl⟩, Event.origin, hopens]
      dsimp only [map_some]
      rw [if_pos hopensDir]
    · cases hp

theorem fdsInv_open (hw : FdsInv w) (hcall : e.call = .openPath ptr flags)
    (hplain : OpensPlainly w e ptr.cage flags)
    (hforward : (w.grate.openHandler ptr flags).2 = .forward req after)
    (hk : w.kernel.serve w.grate e req = some k) :
    FdsInv ⟨(finish e.host e.answer (w.grate.openHandler ptr flags).1 after).1, k⟩ := by
  unfold openHandler at hforward ⊢
  have hread := ptr.readPath_eq
  generalize ptr.text = path at hread
  rw [hread] at hforward ⊢
  dsimp only at hforward ⊢
  by_cases hnil : path = []
  · rw [if_pos hnil] at hforward
    cases hforward
  rw [if_neg hnil] at hforward ⊢
  cases hdev : devFdTarget path with
  | some =>
    rw [hdev] at hforward
    cases hforward
    exact fdsInv_dup hw hk
  | none =>
    rw [hdev] at hforward
    have hsame := same_ensureCageCwd w.grate ptr.cage
    unfold cString at hforward
    by_cases hnul : '\x00' ∈ w.grate.chrootPath path ptr.cage
    · rw [if_pos hnul] at hforward
      cases hforward
    rw [if_neg hnul] at hforward
    cases hforward
    dsimp only [finish]
    split
    next hret => exact hw.failed hret hsame hk
    rename_i hret
    have hperform := serve_performs hret hk
    dsimp only [perform] at hperform
    split at hperform
    next hopen =>
      cases hperform
      have hopens : e.call.opens w.kernel w.grate =
          some (normalizePath path (w.grate.getCageCwd ptr.cage)) := by
        rw [hcall, Call.opens, hread]
        rfl
      refine hw.registers hsame hopens (.inl rfl) ?_ hplain (serve_live hk) hret
        hopen.1 hopen.2
      exact (jailPath_normalizePath _ _ _ _).symm
    · cases hperform

theorem placeAtPath_of_resolved (hne : path ≠ [])
    (h : s.resolveVirtualAtPath cage dirfd path = some v) :
    s.placeAtPath cage dirfd path = (atFdcwd, s.chrootPath v cage) := by
  unfold resolveVirtualAtPath at h
  unfold placeAtPath
  by_cases hjail : path.isAbsolute = true ∨ isAtFdcwd dirfd = true
  · rw [if_pos hjail] at h ⊢
    cases h
    exact congrArg (Prod.mk atFdcwd) (jailPath_normalizePath _ _ _ _).symm
  rw [if_neg hjail] at h ⊢
  rw [if_pos hne]
  rcases map_eq_some_iff.mp h with ⟨dir, hdir, rfl⟩
  rw [hdir]

theorem opens_of_resolved (hw : FdsInv w) (hcall : e.call = .openat dirfd ptr flags)
    (hread : ptr.readPath = some path)
    (h : w.grate.resolveVirtualAtPath ptr.cage dirfd path = some v) :
    e.call.opens w.kernel w.grate = some v := by
  rw [hcall, Call.opens, hread, bind_some]
  unfold resolveVirtualAtPath at h
  by_cases hjail : path.isAbsolute = true ∨ isAtFdcwd dirfd = true
  · rw [if_pos hjail] at h ⊢
    exact h
  rw [if_neg hjail] at h ⊢
  rcases map_eq_some_iff.mp h with ⟨dir, hdir, rfl⟩
  rw [truthful_iff.mp (hw.truthful ptr.cage dirfd dir hdir)]

theorem finish_register_failed (hret : e.answer.ret < 0) (virtualPath : Option Str) :
    (finish e.host e.answer s (.register cage virtualPath)).1 = s := by
  cases virtualPath with
  | none => rfl
  | some => exact if_pos hret

theorem fdsInv_openat (hw : FdsInv w) (hcall : e.call = .openat dirfd ptr flags)
    (hplain : OpensPlainly w e ptr.cage flags)
    (hforward : (w.grate.openatHandler dirfd ptr flags).2 = .forward req after)
    (hk : w.kernel.serve w.grate e req = some k) :
    FdsInv ⟨(finish e.host e.answer (w.grate.openatHandler dirfd ptr flags).1 after).1, k⟩ := by
  have hsame := same_openatHandler w.grate dirfd ptr flags
  unfold openatHandler at hforward hsame ⊢
  have hread := ptr.readPath_eq
  generalize ptr.text = path at hread
  rw [hread] at hforward hsame ⊢
  dsimp only at hforward hsame ⊢
  by_cases hnil : path = []
  · rw [if_pos hnil] at hforward
    cases hforward
  rw [if_neg hnil] at hforward hsame ⊢
  cases hdev : (if path.isAbsolute then devFdTarget path else none) with
  | some =>
    rw [hdev] at hforward
    cases hforward
    exact fdsInv_dup hw hk
  | none =>
    rw [hdev] at hforward hsame
    have hensured := same_ensureCageCwd w.grate ptr.cage
    cases hrewrite : ((w.grate.ensureCageCwd ptr.cage).rewriteAtPath ptr.cage dirfd ptr).2
      with
    | error code =>
      rw [hrewrite] at hforward
      cases hforward
    | ok arg =>
      rw [hrewrite] at hforward
      cases hforward
      have harg := rewriteAtPath_ok hread hrewrite
      rw [hensured.placeAtPath] at harg
      by_cases hret : e.answer.ret < 0
      · rw [finish_register_failed hret]
        exact hw.failed hret hsame hk
      have hperform := serve_performs hret hk
      dsimp only [perform] at hperform
      split at hperform
      next hopen =>
        cases hperform
        rcases hv : w.grate.resolveVirtualAtPath ptr.cage dirfd path with _ | _
        · -- Nothing is entered, and the number had no entry.
          exact hw.appears hsame.fdDirPath (keepsBut_set (serve_live hk) _ _)
            (isFree_iff.mp hopen.1).2
        rw [placeAtPath_of_resolved hnil hv] at harg
        dsimp only [finish]
        rw [if_neg hret]
        exact hw.registers hsame (opens_of_resolved hw hcall hread hv)
          (.inr (by rw [harg])) (by rw [harg]) hplain (serve_live hk) hret
          hopen.1 hopen.2
      · cases hperform

end Calls

/-! ## Runs -/

theorem fdsInv_start (h : w.Start) : FdsInv w := by
  rcases h with ⟨⟨host, chrootDir, hostCwd, grate, cage, _, hinit⟩, hdead⟩
  have hnone : ∀ c f, w.grate.fdDirPath c f = none := by
    intro c f
    unfold initState at hinit
    split at hinit
    · cases hinit
    have hfds := congrArg cageDirFds (Option.some.inj hinit)
    dsimp only at hfds
    rw [fdDirPath_eq, ← hfds]
    by_cases hc : c = cage
    · rw [hc, update_self]
      rfl
    · rw [update_of_ne hc]
      rfl
  refine ⟨fun c f path hp => ?_, fun c f path hp => ?_, hdead⟩
  · rw [hnone] at hp
    cases hp
  · rw [hnone] at hp
    cases hp

theorem fdsInv_call (hw : FdsInv w) (hcareful : FdsCareful w (.call e))
    (hforward : (handle e.host w.grate e.call).2 = .forward req after)
    (hk : w.kernel.serve w.grate e req = some k) :
    FdsInv ⟨(finish e.host e.answer (handle e.host w.grate e.call).1 after).1, k⟩ := by
  by_cases htouch : e.call.touchesFds = true
  · rw [FdsCareful] at hcareful
    generalize hcall : e.call = call at hcareful hforward htouch ⊢
    cases call
    case openPath ptr flags => exact fdsInv_open hw hcall hcareful hforward hk
    case openat dirfd ptr flags => exact fdsInv_openat hw hcall hcareful hforward hk
    case close cage fd =>
      cases hforward
      exact fdsInv_close hw hcareful hk
    case dup cage oldfd =>
      cases hforward
      exact fdsInv_dup hw hk
    case dup2 cage oldfd newfd =>
      cases hforward
      exact fdsInv_copyTo hw hcareful (.inl rfl) hk
    case dup3 cage oldfd newfd flags =>
      cases hforward
      exact fdsInv_copyTo hw hcareful (.inr ⟨_, rfl⟩) hk
    case fcntl cage fd cmd arg =>
      cases hforward
      exact fdsInv_fcntl hw hk
    case fork cage isThread =>
      cases hforward
      exact fdsInv_fork hw hk
    case execve ptr =>
      have hsame := same_execveHandler w.grate ptr
      dsimp only [handle] at hforward ⊢
      unfold execveHandler at hforward hsame ⊢
      rw [ptr.readPath_eq] at hforward hsame ⊢
      dsimp only at hforward
      split at hforward
      · cases hforward
      · cases hforward
        exact fdsInv_exec hw hsame hcareful hk
    case fchdir cage fd =>
      have hsame := same_ensureCageCwd w.grate cage
      dsimp only [handle] at hforward ⊢
      unfold fchdirHandler at hforward ⊢
      cases hdir : w.grate.fdDirPath cage fd with
      | some =>
        rw [hdir] at hforward
        cases hforward
      | none =>
        rw [hdir] at hforward
        cases hforward
        by_cases hret : e.answer.ret < 0
        · exact hw.failed hret hsame hk
        have hperform := serve_performs hret hk
        cases hperform
        exact hw.same hsame.fdDirPath
    all_goals cases htouch
  · rcases forward_inert (Bool.not_eq_true _ ▸ htouch) hforward with ⟨hsys, hafter⟩
    rw [finish_inert hafter, serve_inert hsys hk]
    exact hw.same (fdDirPath_handle e.host w.grate e.call)

theorem truthful_step {w' : World} {a : Action} (hw : FdsInv w) (hcareful : FdsCareful w a)
    (hstep : w.step a = some w') : FdsInv w' := by
  cases a with
  | create =>
    rw [step] at hstep
    split at hstep
    next h =>
      cases hstep
      exact hw.appears (fun _ _ => rfl) (keepsBut_set h.1 _ _) (isFree_iff.mp h.2).2
    · cases hstep
  | call e =>
    rw [step] at hstep
    cases hreply : (handle e.host w.grate e.call).2 with
    | done =>
      rw [hreply] at hstep
      cases hstep
      exact hw.same (fdDirPath_handle e.host w.grate e.call)
    | forward =>
      rw [hreply] at hstep
      rcases map_eq_some_iff.mp hstep with ⟨k, hk, rfl⟩
      exact fdsInv_call hw hcareful hreply hk

/-- In every run of careful calls the table of directory descriptors is
    right. -/
theorem dirFds_truthful {w : World} (h : Runs World.Start step FdsCareful w) : Truthful w := by
  have hinv : FdsInv w :=
    runs_inv (fun _ => fdsInv_start) (fun _ _ _ hw hcareful => truthful_step hw hcareful) w h
  exact hinv.truthful

/-! ## Concrete runs -/

/-- A host with the jail `/jail` and one directory `d` in it. -/
def dirHost : Host where
  stat := fun path =>
    if path = "/jail".toList ∨ path = "/jail/d".toList then some 0o40755 else none

/-- Cage 2 in that jail, without descriptors. -/
def dirWorld : World where
  grate := jailStart
  kernel := ⟨fun cage => cage = 2, fun _ _ => none⟩

theorem dirWorld_start : dirWorld.Start := by
  refine ⟨⟨jailHost, "/jail".toList, ['/'], 1, 2, by decide, rfl⟩, fun _ _ _ => rfl⟩

/-- Cage 2 opens `d` with the given flags and gets descriptor 3. -/
def openDir (flags : Word) : Action :=
  .call ⟨.openPath (textArg "d") flags, dirHost, ⟨3, []⟩, true⟩

theorem openDir_careful (w : World) : FdsCareful w (openDir 0) := by
  refine ⟨by decide, by decide, fun path _ mode hmode _ => ?_⟩
  change (if _ then some 0o40755 else none) = some mode at hmode
  split at hmode
  · cases hmode
    rfl
  · cases hmode

/-- A directory is opened and its descriptor duplicated onto another number. -/
theorem dirFds_truthful_dup2 :
    ∃ w, Runs World.Start step FdsCareful w ∧
      w.grate.fdDirPath 2 7 = some "/d".toList ∧ Truthful w := by
  have hcareful : ∀ a ∈ [openDir 0, .call ⟨.dup2 2 3 7, dirHost, ⟨7, []⟩, false⟩],
      ∀ w, FdsCareful w a := by
    rw [List.forall_mem_cons, List.forall_mem_singleton]
    exact ⟨openDir_careful, fun w => (by decide : (7 : Word).toNat < 2 ^ 32)⟩
  have hrun : ∃ w, Runs World.Start step FdsCareful w ∧ w.grate.fdDirPath 2 7 = some "/d".toList :=
    exists_runs_of_forall hcareful (.start _ dirWorld_start) (by decide +kernel)
  rcases hrun with ⟨w, hw, hentry⟩
  exact ⟨w, hw, hentry, dirFds_truthful hw⟩

/-- A directory opened with `O_CLOEXEC` keeps its entry when the cage executes a
    new program, although its descriptor is closed. -/
theorem dirFds_stale : ∃ w, Runs World.Start step (fun _ _ => True) w ∧ ¬ Truthful w := by
  have hrun : ∃ w, Runs World.Start step (fun _ _ => True) w ∧
      w.grate.fdDirPath 2 3 = some "/d".toList ∧ w.kernel.fds 2 3 = none :=
    exists_runs_replay
      [openDir 0o2000000, .call ⟨.execve (textArg "/prog"), dirHost, ⟨0, []⟩, false⟩]
      dirWorld_start (by decide +kernel)
  rcases hrun with ⟨w, hw, hentry, hclosed⟩
  refine ⟨w, hw, fun h => ?_⟩
  rcases h 2 3 _ hentry with ⟨desc, hdesc, _⟩
  rw [show kernelFd 3 = 3 from rfl, hclosed] at hdesc
  cases hdesc

end LindGrates.Chroot
