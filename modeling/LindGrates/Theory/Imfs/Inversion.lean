import LindGrates.Theory.Imfs.Effect

/-!
# Inversion of the Calls

No invariant of the filesystem is assumed; the laws of the descriptor tables rule out
that `dup2` fails after it has closed its target.

## Theorems

* `step_effect`: Every call that returns has one of the effects listed in `Effect`.
-/

namespace LindGrates.Imfs

open FdTables ImfsState LawfulFdTables World Nat

variable {path oldPath newPath : Str} {fd oldfd newfd : Nat} {call : Call} {s s' : ImfsState}

section Combinators

variable {T : Type} {w : World T} {path : Str} {Q : Reply T → Prop}

section

variable (hfail : ∀ e, Q (e, w))

include hfail

theorem returns_unless {p : Prop} [Decidable p] {e : Int} {x : Outcome (Reply T)}
    (hx : ¬ p → Returns x Q) : Returns (if p then w.fail e else x) Q :=
  returns_ite (fun _ => returns_ok (hfail e)) hx

theorem returns_withNode {follow : Bool} {k : Nat → Outcome (Reply T)}
    (hok : ∀ i, w.fs.resolvePath path follow = .ok (.ok i) → Returns (k i) Q) :
    Returns (w.withNode path follow k) Q := by
  refine returns_bind fun r hr => ?_
  cases r with
  | error e => exact returns_ok (hfail e)
  | ok i => exact hok i hr

theorem returns_withParent {k : Nat → Str → Outcome (Reply T)}
    (hok : ∀ p n, w.fs.resolveParentAndName path = .ok (.ok (p, n)) → Returns (k p n) Q) :
    Returns (w.withParent path k) Q := by
  refine returns_bind fun r hr => ?_
  rcases r with e | p
  · exact returns_ok (hfail e)
  rcases p with ⟨p, n⟩
  exact hok p n hr

theorem returns_ifAbsent {k : Unit → Outcome (Reply T)}
    (hok : w.fs.resolvePath path false = .ok (.error (-2)) → Returns (k ()) Q) :
    Returns (w.ifAbsent path k) Q := by
  refine returns_bind fun r hr => ?_
  cases r with
  | ok => exact returns_ok (hfail _)
  | error e =>
    refine returns_ite (fun he => ?_) fun _ => returns_ok (hfail e)
    rw [he] at hr
    exact hok hr

end

end Combinators

variable {T : Type} [FdTables T] {w : World T} {cage : Nat} {call : Call} {ret : Int}

theorem returns_withPathAt {dirfd : Int} {k : Str → Outcome (Reply T)}
    {Q : Reply T → Prop} (hfail : ∀ e, Q (e, w))
    (hok : ∀ q, w.normalizePathAt cage dirfd path = .ok (.ok q) → Returns (k q) Q) :
    Returns (w.withPathAt cage dirfd path k) Q := by
  refine returns_bind fun r hr => ?_
  cases r with
  | error e => exact returns_ok (hfail e)
  | ok q => exact hok q hr

theorem returns_getNodeAndFlags {α : Type} {k : Except Int (Nat × BitVec 32) → Outcome α}
    {Q : α → Prop} (herr : Returns (k (.error (-9))) Q)
    (hok : ∀ i flags, w.getNodeAndFlags cage fd = .ok (.ok (i, flags)) →
      Returns (k (.ok (i, flags))) Q) : Returns (w.getNodeAndFlags cage fd >>= k) Q := by
  refine returns_bind fun r hr => ?_
  cases r with
  | ok p => exact hok p.1 p.2 hr
  | error =>
    unfold getNodeAndFlags at hr
    split at hr
    · cases hr
      exact herr
    split at hr
    · cases hr
    · rcases (bind_eq_ok _ _ _).mp hr with ⟨_, _, hr⟩
      cases hr

def Does (w : World T) (call : Call) (r : Reply T) : Prop :=
  Effect w call r.1 r.2

theorem idles_of_plain (hplain : call.plain = true) (ret : Int) : call.Idles ret := by
  cases call with
  | fcntl =>
    simp only [Call.plain, decide_eq_true_eq] at hplain
    exact fun hop => hop.elim (absurd · hplain.1) (absurd · hplain.2)
  | _ => first | exact trivial | cases hplain

theorem does_fail (hplain : call.plain = true) (ret : Int) : Does w call (ret, w) :=
  .idle ret (idles_of_plain hplain ret)

theorem idles_of_opens {p : Nat × BitVec 32 × BitVec 32} (hcall : call.opens = some p)
    (hret : ret < 0) : call.Idles ret := by
  cases call <;> first | exact hret | cases hcall

theorem idles_of_dups {p : Nat × Nat} (hcall : call.dups = some p) (hret : ret < 0) :
    call.Idles ret := by
  cases call <;> first | exact hret | exact fun _ => hret | cases hcall

theorem idles_of_dups2 (hcall : call.dups2 = some (cage, oldfd, newfd))
    (hret : (oldfd = newfd ∧ ret = newfd) ∨ ret < 0) : call.Idles ret := by
  cases call <;> first | (cases hcall; exact hret) | cases hcall

theorem decInUse_incInUse (s : ImfsState) (i : Nat) : (s.incInUse i).decInUse i = s := by
  rw [decInUse, incInUse, modifyNode_modifyNode]
  exact s.modifyNode_id i fun n => by cases n; rfl

theorem normalizePathAt_negError (w : World T) (cage : Nat) (dirfd : Int) (path : Str) :
    Returns (w.normalizePathAt cage dirfd path) NegError := by
  refine returns_ite (fun _ => returns_ok (negError_ok _)) fun _ => ?_
  rcases translateVirtualFd w.fds cage (asU64 dirfd) with _ | _
  · exact returns_ok (negError_error (by decide))
  refine returns_bind fun nodeIdx _ => ?_
  refine returns_ite (fun _ => returns_ok (negError_error (by decide))) fun _ => ?_
  exact returns_bind fun base _ => returns_ok (negError_ok _)

section Open

variable [LawfulFdTables T]

theorem openResolvedPath_does {w : World T} {cage : Nat} {flags mode : BitVec 32}
    (hcall : call.opens = some (cage, flags, mode)) (hname : call.Names w path) :
    Returns (w.openResolvedPath cage path flags mode) (Does w call) := by
  refine returns_bind fun r hr => ?_
  rcases openTarget_returns w.fs path flags mode r hr with ⟨hneg, htarget⟩
  rcases r with e | p
  · exact returns_ok (.idle e (idles_of_opens hcall (hneg e rfl)))
  rcases p with ⟨idx, s'⟩
  have ht := htarget idx s' rfl
  simp only
  rcases hfd : getUnusedVirtualFd w.fds cage (imfsEntry idx false) with _ | q
  · simp only [reply, decInUse_incInUse]
    exact returns_ok (.openFull cage flags mode path idx s' hcall hname ht hfd)
  rcases q with ⟨vfd, fds⟩
  have hlaw := getUnused_some w.fds fds cage _ vfd hfd
  have hlt : vfd < 2 ^ 31 :=
    lt_of_lt_of_le hlaw.2.1 limit_le
  simp only [asI32_natCast hlt]
  exact returns_ok (.openOk cage flags mode path idx s' vfd fds hcall hname ht hfd)

theorem openat_does (w : World T) (cage : Nat) (dirfd : Int) (path : Str) (flags mode : BitVec 32) :
    Returns (w.openat cage dirfd path flags mode)
      (Does w (.openat cage dirfd path flags mode)) := by
  refine returns_bind fun r hr => ?_
  cases r with
  | error e => exact returns_ok (.idle e (normalizePathAt_negError w cage dirfd path _ hr e rfl))
  | ok => exact openResolvedPath_does rfl hr

end Open

section Create

theorem mknod_does (w : World T) (cage : Nat) (path : Str) (mode : BitVec 32) :
    Returns (w.mknod cage path mode) (Does w (.mknod cage path mode)) := by
  unfold mknod
  rcases hty : mknodType mode with _ | ty
  · exact returns_ok (does_fail rfl _)
  have hreg : ty = .reg ∨ ty = .pip := by
    unfold mknodType at hty
    split at hty
    · cases hty
      exact .inr rfl
    · split at hty <;> cases hty
      exact .inl rfl
  refine returns_bind fun r _ => ?_
  cases r with
  | ok => exact returns_ok (does_fail rfl _)
  | error =>
    refine returns_withParent (does_fail rfl) fun parent name hparent => ?_
    refine returns_unless (does_fail rfl) fun _ => ?_
    refine returns_unless (does_fail rfl) fun hlen => ?_
    simp only [createNode_fst]
    refine returns_bind fun s' hadd => ?_
    simp only [reply, updateMtime_eq, updateCtime_eq]
    exact returns_ok (.creation s' rfl (.mknod _ name parent ty mode s' cage path rfl
      ⟨rfl, hparent⟩ (Nat.lt_of_not_le hlen) hreg hadd))

theorem mkdir_does (w : World T) (cage : Nat) (path : Str) (mode : BitVec 32) :
    Returns (w.mkdir cage path mode) (Does w (.mkdir cage path mode)) := by
  refine returns_bind fun r _ => ?_
  cases r with
  | ok => exact returns_ok (does_fail rfl _)
  | error =>
    refine returns_unless (does_fail rfl) fun _ => ?_
    refine returns_withParent (does_fail rfl) fun parent name hparent => ?_
    refine returns_unless (does_fail rfl) fun _ => ?_
    simp only [createNode_fst]
    refine returns_bind fun s1 hadd => returns_bind fun s' hdot => ?_
    simp only [reply, updateMtime_eq, updateCtime_eq]
    exact returns_ok (.creation s' rfl (.mkdir _ name parent mode s1 s' cage path rfl
      ⟨rfl, hparent⟩ hadd hdot))

theorem linkResolvedPaths_does {w : World T} (call : Call) (hplain : call.plain = true)
    (hold : call.OldNames w oldPath) (hnew : call.Names w newPath) :
    Returns (w.linkResolvedPaths oldPath newPath call.follows) (Does w call) := by
  have hfail := does_fail (w := w) hplain
  refine returns_withNode hfail fun oldIdx hres => ?_
  refine returns_unless hfail fun hdir => ?_
  refine returns_ifAbsent hfail fun _ => ?_
  refine returns_withParent hfail fun parent name hparent => ?_
  refine returns_unless hfail fun _ => ?_
  refine returns_unless hfail fun hlen => ?_
  simp only [createNode_fst]
  refine returns_bind fun s1 hadd => ?_
  simp only [reply, updateMtime_eq, updateCtime_eq]
  exact returns_ok (.creation _ hplain (.link oldPath newPath name oldIdx parent s1 hold hres hdir
    ⟨hnew, hparent⟩ (Nat.lt_of_not_le hlen) hadd))

theorem linkat_does (w : World T) (cage : Nat) (olddirfd : Int) (oldpath : Str)
    (newdirfd : Int) (newpath : Str) (flags : BitVec 32) :
    Returns (w.linkat cage olddirfd oldpath newdirfd newpath flags)
      (Does w (.linkat cage olddirfd oldpath newdirfd newpath flags)) := by
  refine returns_unless (does_fail rfl) fun _ => ?_
  refine returns_withPathAt (does_fail rfl) fun p hp => ?_
  refine returns_withPathAt (does_fail rfl) fun q hq => ?_
  exact linkResolvedPaths_does (.linkat cage olddirfd oldpath newdirfd newpath flags) rfl hp hq

theorem symlinkResolvedPath_does {w : World T} (hplain : call.plain = true)
    {target : Str} (hname : call.Names w path)
    (hcall : (∃ cage arg, call = .symlink cage target arg) ∨
      ∃ cage dirfd arg, call = .symlinkat cage target dirfd arg) :
    Returns (w.symlinkResolvedPath target path) (Does w call) := by
  have hfail := does_fail (w := w) hplain
  refine returns_ifAbsent hfail fun _ => ?_
  refine returns_withParent hfail fun parent name hparent => ?_
  refine returns_unless hfail fun _ => ?_
  refine returns_unless hfail fun hlen => ?_
  simp only [createNode_fst]
  refine returns_bind fun s' hadd => ?_
  simp only [reply, updateMtime_eq, updateCtime_eq]
  exact returns_ok (.creation s' hplain (.symlink target path name parent s'
    ⟨hname, hparent⟩ (Nat.lt_of_not_le hlen) hcall hadd))

end Create

section Remove

variable {w : World T} {call : Call}

theorem rmdirResolvedPath_does (hplain : call.plain = true)
    (hname : call.Names w path) : Returns (w.rmdirResolvedPath path) (Does w call) := by
  refine returns_withNode (does_fail hplain) fun i hres => ?_
  refine returns_unless (does_fail hplain) fun hroot => ?_
  rcases hch : (w.fs.node i).children? with _ | children
  · exact returns_ok (does_fail hplain _)
  refine returns_unless (does_fail hplain) fun hany => ?_
  refine returns_bind fun s1 hrem => returns_bind fun s' hunl => ?_
  simp only [updateMtime_eq, updateCtime_eq] at hunl
  refine returns_ok (.removal i s' hplain (.rmdir path children s1 s' hname hres hroot
    (children?_eq_some.mp hch) (fun e he => ?_) hrem hunl))
  by_cases h1 : e.name = ['.']
  · exact .inl h1
  by_cases h2 : e.name = ['.', '.']
  · exact .inr h2
  · exact absurd (List.any_eq_true.mpr ⟨e, he, decide_eq_true ⟨h1, h2⟩⟩) hany

theorem unlinkResolvedPath_does (hplain : call.plain = true)
    (hname : call.Names w path) : Returns (w.unlinkResolvedPath path) (Does w call) := by
  have hfail := does_fail (w := w) hplain
  refine returns_unless hfail fun _ => ?_
  refine returns_withParent hfail fun parent name hparent => ?_
  refine returns_unless hfail fun _ => ?_
  refine returns_withNode hfail fun i hres => ?_
  refine returns_unless hfail fun hdir => ?_
  refine returns_bind fun s1 hrem => returns_bind fun s' hunl => ?_
  simp only [updateMtime_eq, updateCtime_eq] at hunl
  exact returns_ok (.removal i s' hplain (.unlink path name parent s1 s' hname hparent hres hdir
    hrem hunl))

theorem unlinkat_does (w : World T) (cage : Nat) (dirfd : Int) (path : Str) (flags : BitVec 32) :
    Returns (w.unlinkat cage dirfd path flags) (Does w (.unlinkat cage dirfd path flags)) := by
  refine returns_unless (does_fail rfl) fun _ => ?_
  refine returns_withPathAt (does_fail rfl) fun p hp => ?_
  exact returns_ite (fun _ => rmdirResolvedPath_does rfl hp) fun _ =>
    unlinkResolvedPath_does rfl hp

theorem renameResolvedPaths_does (hplain : call.plain = true)
    (hold : call.OldNames w oldPath) (hnew : call.Names w newPath) :
    Returns (w.renameResolvedPaths oldPath newPath) (Does w call) := by
  have hfail := does_fail (w := w) hplain
  refine returns_unless hfail fun _ => ?_
  refine returns_withParent hfail fun oldParent oldName hop => ?_
  refine returns_withNode hfail fun oldIdx hoi => ?_
  refine returns_unless hfail fun _ => ?_
  refine returns_unless hfail fun _ => ?_
  refine returns_withParent hfail fun newParent newName hnp => ?_
  refine returns_unless hfail fun _ => ?_
  refine returns_unless hfail fun hlen => ?_
  refine returns_unless hfail fun _ => ?_
  have htouch : ∀ s : ImfsState, touchRenamed s oldIdx oldParent newParent = s := by
    intro s
    simp only [touchRenamed, updateMtime_eq, updateCtime_eq, ite_self]
  refine returns_bind fun r hr => ?_
  cases r with
  | ok existing =>
    refine returns_unless hfail fun hne => ?_
    refine returns_unless hfail fun hdir => ?_
    refine returns_bind fun s1 hrep => returns_bind fun s' hmove => ?_
    simp only [replaceTarget, updateMtime_eq, updateCtime_eq] at hrep
    rcases (bind_eq_ok _ _ _).mp hrep with ⟨s0, hrem, hunl⟩
    simp only [reply, htouch]
    exact returns_ok (.moved oldIdx newParent newName s' hplain
      ⟨oldPath, newPath, oldParent, oldName, hold, hnew, hop, hoi, hnp,
        Nat.lt_of_not_le hlen,
        .inl ⟨existing, s1, hr, hne, hdir, ⟨s0, hrem, hunl⟩, hmove⟩⟩)
  | error =>
    refine returns_ite (fun he => ?_) fun _ => returns_ok (does_fail hplain _)
    rw [he] at hr
    refine returns_bind fun s' hmove => ?_
    simp only [reply, htouch]
    exact returns_ok (.moved oldIdx newParent newName s' hplain
      ⟨oldPath, newPath, oldParent, oldName, hold, hnew, hop, hoi, hnp,
        Nat.lt_of_not_le hlen, .inr ⟨hr, hmove⟩⟩)

theorem renameat_does (w : World T) (cage : Nat) (olddirfd : Int) (oldpath : Str)
    (newdirfd : Int) (newpath : Str) :
    Returns (w.renameat cage olddirfd oldpath newdirfd newpath)
      (Does w (.renameat cage olddirfd oldpath newdirfd newpath)) := by
  refine returns_withPathAt (does_fail rfl) fun p hp => ?_
  refine returns_withPathAt (does_fail rfl) fun q hq => ?_
  exact renameResolvedPaths_does rfl hp hq

end Remove

section Duplicate

variable {w : World T} {cage : Nat}

theorem dupSource_eq_some {entry : FDTableEntry} {a : Nat}
    (h : w.dupSource cage fd = some (entry, a)) :
    translateVirtualFd w.fds cage fd = some entry ∧ w.fs.fdInfo (cage, fd) = some a := by
  unfold dupSource at h
  split at h
  next htr hinfo =>
    cases h
    exact ⟨htr, hinfo⟩
  · cases h

variable [LawfulFdTables T]

theorem dup_does (w : World T) (cage oldfd : Nat) :
    Returns (w.dup cage oldfd) (Does w (.dup cage oldfd)) := by
  have hfail : ∀ e : Int, e < 0 → Does w (.dup cage oldfd) (e, w) := fun e he =>
    .idle e he
  unfold dup
  rcases hsource : w.dupSource cage oldfd with _ | p
  · exact returns_ok (hfail _ (by decide))
  rcases p with ⟨entry, h⟩
  refine returns_ite (fun _ => returns_ok (hfail _ (by decide))) fun hge => ?_
  have hlt := Nat.lt_of_not_le hge
  simp only
  rcases hfd : getUnusedVirtualFd w.fds cage (imfsEntry entry.underfd false) with _ | q
  · exact returns_ok (.dupFull cage oldfd entry h rfl hsource hlt hfd)
  rcases q with ⟨newfd, fds⟩
  have hlaw := getUnused_some w.fds fds cage _ newfd hfd
  have hsmall : newfd < 2 ^ 31 := lt_of_lt_of_le hlaw.2.1 limit_le
  simp only [attachDup, asI32_natCast hsmall]
  exact returns_ok (.dupOk cage oldfd entry h newfd fds rfl hsource hlt false (.inl hfd))

theorem dupFromStartfd_does (hcall : call.dups = some (cage, oldfd))
    (startfd : Int) (cloexec : Bool) :
    Returns (w.dupFromStartfd cage oldfd startfd cloexec) (Does w call) := by
  have hfail : ∀ e : Int, e < 0 → Does w call (e, w) := fun e he =>
    .idle e (idles_of_dups hcall he)
  refine returns_ite (fun _ => returns_ok (hfail _ (by decide))) fun _ => ?_
  rcases hsource : w.dupSource cage oldfd with _ | p
  · exact returns_ok (hfail _ (by decide))
  rcases p with ⟨entry, h⟩
  refine returns_ite (fun _ => returns_ok (hfail _ (by decide))) fun hge => ?_
  have hlt := Nat.lt_of_not_le hge
  cases hfd : getUnusedVirtualFdFromStartfd w.fds cage (imfsEntry entry.underfd cloexec)
      startfd.toNat with
  | none => exact returns_ok (hfail _ (by decide))
  | some q =>
    rcases q with ⟨newfd, fds⟩
    have hlaw := getUnusedFrom_some w.fds fds cage _ _ newfd hfd
    have hsmall : newfd < 2 ^ 31 := lt_of_lt_of_le hlaw.2.1 limit_le
    simp only [attachDup, asI32_natCast hsmall]
    exact returns_ok (.dupOk cage oldfd entry h newfd fds hcall hsource hlt cloexec
      (.inr ⟨_, hfd⟩))

theorem close_present {w' : World T} {ret : Int}
    (hfd : translateVirtualFd w.fds cage fd ≠ none) (h : w.close cage fd = .ok (ret, w')) :
    ret = 0 ∧ checkCageExists w'.fds = checkCageExists w.fds := by
  rcases (bind_eq_ok _ _ _).mp h with ⟨fs, _, h⟩
  rcases hcl : closeVirtualfd w.fds cage fd with _ | fds
  · exact absurd (close_none w.fds cage fd hcl) hfd
  simp only [hcl] at h
  cases h
  exact ⟨rfl, (close_some w.fds fds cage fd hcl).2.2⟩

theorem dup2_does (hcall : call.dups2 = some (cage, oldfd, newfd))
    (cloexec : Bool) : Returns (w.dup2 cage oldfd newfd cloexec) (Does w call) := by
  have hfail : ∀ e : Int, (oldfd = newfd ∧ e = newfd) ∨ e < 0 → Does w call (e, w) :=
    fun e he => .idle e (idles_of_dups2 hcall he)
  unfold dup2
  rcases hsource : w.dupSource cage oldfd with _ | p
  · exact returns_ok (hfail _ (.inr (by decide)))
  rcases p with ⟨entry, h⟩
  have htr := (dupSource_eq_some hsource).1
  have hexists := exists_of_translate w.fds cage oldfd entry htr
  refine returns_ite (fun heq => returns_ok (hfail _ (.inl ⟨heq, ?_⟩))) fun hne => ?_
  · have hlim := lt_limit w.fds cage oldfd entry htr
    exact asI32_natCast (lt_of_lt_of_le (heq ▸ hlim) limit_le)
  refine returns_ite (fun _ => returns_ok (hfail _ (.inr (by decide)))) fun hge => ?_
  have hlt := Nat.lt_of_not_le hge
  refine returns_bind fun r hr => ?_
  rcases r with ⟨closeRet, w1⟩
  unfold closeTarget at hr
  -- The table is full for this number only when it lies past the limit, and
  -- then nothing was open there.
  have hclosed : closeRet = 0 ∧ checkCageExists w1.fds cage = true ∧
      ((translateVirtualFd w.fds cage newfd = none ∧ w1 = w) ∨
        (translateVirtualFd w.fds cage newfd ≠ none ∧
          w.close cage newfd = .ok (0, w1))) := by
    by_cases hnew : (translateVirtualFd w.fds cage newfd).isSome
    · rw [if_pos hnew] at hr
      have hnone : translateVirtualFd w.fds cage newfd ≠ none := by
        intro hc
        rw [hc] at hnew
        cases hnew
      rcases close_present hnone hr with ⟨hz, hex⟩
      rw [hz] at hr
      exact ⟨hz, by rw [hex, hexists], .inr ⟨hnone, hr⟩⟩
    rw [if_neg hnew] at hr
    cases hr
    exact ⟨rfl, hexists, .inl ⟨by simpa using hnew, rfl⟩⟩
  rcases hclosed with ⟨hz, hex, hor⟩
  simp only
  rw [if_neg (by simp only [hz, ne_eq, not_true_eq_false, not_false_eq_true])]
  rcases hfd : getSpecificVirtualFd w1.fds cage newfd (imfsEntry entry.underfd cloexec) with _ | fds
  · have hlim := getSpecific_none w1.fds cage newfd _ hex hfd
    rcases hor with ⟨_, hw⟩ | ⟨hnone, _⟩
    · rw [hw]
      exact returns_ok (hfail _ (.inr (by decide)))
    rcases htr : translateVirtualFd w.fds cage newfd with _ | e
    · exact absurd htr hnone
    have := lt_limit w.fds cage newfd e htr
    omega
  have hlaw := getSpecific_some w1.fds fds cage newfd _ hfd
  have hsmall : newfd < 2 ^ 31 := lt_of_lt_of_le hlaw.2.1 limit_le
  simp only [attachDup, asI32_natCast hsmall]
  exact returns_ok (.dup2Ok cage oldfd newfd entry h w1 fds hcall hne hsource hlt cloexec
    (hor.imp id And.right) hfd)

theorem fcntl_does (w : World T) (cage fd : Nat) (op arg : Int) :
    Returns (w.fcntl cage fd op arg) (Does w (.fcntl cage fd op arg)) := by
  refine returns_ite (fun hop => dupFromStartfd_does ?_ arg false) fun h0 => ?_
  · simp only [Call.dups, hop, true_or, if_true]
  refine returns_ite (fun hop => dupFromStartfd_does ?_ arg true) fun h1030 => ?_
  · simp only [Call.dups, hop, or_true, if_true]
  have hplain : (Call.fcntl cage fd op arg).plain = true :=
    decide_eq_true ⟨h0, h1030⟩
  have hfail := does_fail (w := w) hplain
  refine returns_ite (fun _ => ?_) fun _ => ?_
  · cases translateVirtualFd w.fds cage fd with
    | none | some => exact returns_ok (hfail _)
  refine returns_ite (fun _ => ?_) fun _ => ?_
  · cases hset : setCloexec w.fds cage fd (arg % 2 = 1) with
    | none => exact returns_ok (hfail _)
    | some fds => exact returns_ok (.cloexec cage fd _ fds hplain hset)
  refine returns_ite (fun _ => ?_) fun _ => returns_ok (hfail _)
  cases w.fs.fdInfo (cage, fd) with
  | none | some => exact returns_ok (hfail _)

end Duplicate

section Data

theorem read_does (w : World T) (cage fd len : Nat) :
    Returns (w.read cage fd len) (Does w (.read cage fd len)) := by
  have hfail : ∀ e, Does w (.read cage fd len) (e, w) := does_fail rfl
  have hdata : Returns (w.readData cage fd len) fun r =>
      Does w (.read cage fd len) (r.1, r.2.2) := by
    refine returns_getNodeAndFlags (returns_ok (hfail _)) fun i flags _ => ?_
    refine returns_ite (fun _ => returns_ok (hfail _)) fun _ => ?_
    refine returns_ite (fun _ => returns_ok (hfail _)) fun _ => ?_
    refine returns_bind fun off _ => returns_bind fun out _ => ?_
    simp only [updateAtime_eq, ite_self]
    exact returns_bind fun s' hset => returns_ok (.seek _ cage fd _ s' rfl nofun hset)
  exact returns_bind fun r hr => returns_ok (hdata r hr)

theorem getdents_does (w : World T) (cage fd len : Nat) :
    Returns (w.getdents cage fd len) (Does w (.getdents cage fd len)) := by
  have hfail : ∀ e, Does w (.getdents cage fd len) (e, w) := does_fail rfl
  have hdata : Returns (w.getdentsData cage fd len) fun r =>
      Does w (.getdents cage fd len) (r.1, r.2.2) := by
    refine returns_getNodeAndFlags (returns_ok (hfail _)) fun i flags _ => ?_
    simp only
    rcases (w.fs.node i).children? with _ | _
    · exact returns_ok (hfail _)
    refine returns_ite (fun _ => returns_ok (hfail _)) fun _ => ?_
    refine returns_bind fun start _ => ?_
    refine returns_ite (fun _ => returns_ok (hfail _)) fun _ => ?_
    refine returns_bind fun r _ => ?_
    cases r with
    | error => exact returns_ok (hfail _)
    | ok => exact returns_bind fun s' hset => returns_ok (.seek _ cage fd _ s' rfl nofun hset)
  exact returns_bind fun r hr => returns_ok (hdata r hr)

theorem pread_does (w : World T) (cage fd len : Nat) (offset : Int) :
    Returns (w.pread cage fd len offset) (Does w (.pread cage fd len offset)) := by
  refine returns_unless (does_fail rfl) fun _ => ?_
  refine returns_getNodeAndFlags (returns_ok (does_fail rfl _)) fun i flags _ => ?_
  refine returns_unless (does_fail rfl) fun _ => ?_
  refine returns_unless (does_fail rfl) fun _ => ?_
  refine returns_bind fun out _ => ?_
  simp only [reply, updateAtime_eq, ite_self]
  exact returns_ok (does_fail rfl _)

theorem writeToNode_le {i off n : Nat} {buf : List UInt8}
    (h : s.writeToNode i off buf = .ok (n, s')) : n ≤ buf.length := by
  unfold writeToNode at h
  split at h
  · cases h
    exact zero_le _
  split at h
  · rcases (bind_eq_ok _ _ _).mp h with ⟨r, _, h⟩
    rcases (bind_eq_ok _ _ _).mp h with ⟨w, hw, h⟩
    cases h
    refine loop_inv (writePass buf) (fun v => v.cur.done ≤ buf.length)
      (fun v => v.cur.done ≤ buf.length) ?_ ?_ _ _ w (zero_le _) ((okOr_eq_ok _ _ _).mp hw)
    · intro v v' hv hbody
      have hchunk : ∀ (u : WriteState) ci, u.cur.done ≤ buf.length →
          (u.writeChunk buf ci).cur.done ≤ buf.length := by
        intro u ci hu
        unfold WriteState.writeChunk
        split
        · exact hu
        · simp only
          omega
      have hgrow : v.grow.2.cur = v.cur := rfl
      unfold writePass at hbody
      split at hbody
      · split at hbody <;> cases hbody
        · exact hchunk v _ hv
        · exact hchunk v.grow.2 _ (by rw [hgrow]; exact hv)
      · cases hbody
    · intro v v' hv hbody
      unfold writePass at hbody
      split at hbody
      · split at hbody <;> cases hbody
      · cases hbody
        exact hv
  · cases h
    exact zero_le _

theorem touchWritten_eq (s : ImfsState) (i n : Nat) : touchWritten s i n = s := by
  simp only [touchWritten, updateMtime_eq, updateCtime_eq, ite_self]

theorem asI32_write_nonneg {i off n : Nat} {buf : Slice}
    (h : s.writeToNode i off buf.bytes = .ok (n, s')) : 0 ≤ asI32 (n : Int) := by
  have hle := writeToNode_le h
  rw [asI32_natCast (lt_of_le_of_lt hle buf.length_lt)]
  omega

theorem write_does (w : World T) (cage fd : Nat) (buf : Slice) :
    Returns (w.write cage fd buf) (Does w (.write cage fd buf)) := by
  refine returns_getNodeAndFlags (returns_ok (does_fail rfl _)) fun i flags _ => ?_
  refine returns_unless (does_fail rfl) fun _ => ?_
  refine returns_unless (does_fail rfl) fun _ => ?_
  refine returns_bind fun off _ => returns_bind fun r hr => ?_
  rcases r with ⟨n, s1⟩
  simp only [touchWritten_eq, reply]
  refine returns_bind fun s' hset => returns_ok ?_
  have hret := asI32_write_nonneg hr
  simp only [Does]
  exact .storeSeek (asI32 n) i s1 cage fd _ s' hret (.inl ⟨_, _, n, hr⟩) rfl hset

theorem pwrite_does (w : World T) (cage fd : Nat) (buf : Slice) (offset : Int) :
    Returns (w.pwrite cage fd buf offset) (Does w (.pwrite cage fd buf offset)) := by
  refine returns_unless (does_fail rfl) fun _ => ?_
  refine returns_getNodeAndFlags (returns_ok (does_fail rfl _)) fun i flags _ => ?_
  refine returns_unless (does_fail rfl) fun _ => ?_
  refine returns_unless (does_fail rfl) fun _ => ?_
  refine returns_bind fun r hr => ?_
  rcases r with ⟨n, s'⟩
  simp only [touchWritten_eq, reply]
  refine returns_ok ?_
  have hret := asI32_write_nonneg hr
  simp only [Does]
  exact .store (asI32 n) i s' rfl rfl hret (.inl ⟨_, _, n, hr⟩)

theorem lseek_does (w : World T) (cage fd : Nat) (offset whence : Int) :
    Returns (w.lseek cage fd offset whence) (Does w (.lseek cage fd offset whence)) := by
  refine returns_getNodeAndFlags (returns_ok (does_fail rfl _)) fun i flags _ => ?_
  simp only
  cases (w.fs.node i).nodeType with
  | reg =>
    refine returns_bind fun current _ => ?_
    rcases seekTarget current (w.fs.node i).totalSize offset whence with _ | _
    · exact returns_ok (does_fail rfl _)
    refine returns_unless (does_fail rfl) fun _ => ?_
    exact returns_bind fun s' hset => returns_ok (.seek _ cage fd _ s' rfl nofun hset)
  | _ => exact returns_ok (does_fail rfl _)

theorem truncateFile_does {w : World T} (hplain : call.plain = true)
    (hseek : call.seeks = none) (i : Nat) (length : Int) :
    Returns (w.truncateFile i length) (Does w call) := by
  unfold truncateFile
  cases (w.fs.node i).nodeType with
  | reg =>
    refine returns_bind fun s' htrunc => ?_
    simp only [reply, updateMtime_eq, updateCtime_eq]
    exact returns_ok (.store 0 i s' hplain hseek (Int.le_refl 0) (.inr ⟨_, htrunc⟩))
  | _ => exact returns_ok (does_fail hplain _)

end Data

section Attributes

variable {w : World T} {call : Call}

theorem chmodNode_does (hplain : call.plain = true) (i : Nat) (mode : BitVec 32) :
    Returns (w.chmodNode i mode) (Does w call) := by
  simp only [chmodNode, reply, updateCtime_eq]
  exact returns_ok (.touch i _ hplain ⟨fun _ => rfl, fun _ => rfl, fun _ => rfl, fun _ => rfl,
    fun _ => rfl, fun _ => .inl rfl⟩)

theorem chownNode_does (hplain : call.plain = true) (i owner group : Nat) :
    Returns (w.chownNode i owner group) (Does w call) := by
  simp only [chownNode, reply, updateCtime_eq]
  exact returns_ok (.touch i _ hplain ⟨fun _ => rfl, fun _ => rfl, fun _ => rfl, fun _ => rfl,
    fun _ => rfl, fun _ => .inl rfl⟩)

theorem touchNode_does (hplain : call.plain = true) (i : Nat) :
    Returns (w.touchNode i) (Does w call) := by
  refine returns_unless (does_fail hplain) fun _ => ?_
  simp only [reply, updateAtime_eq, updateMtime_eq, updateCtime_eq]
  exact returns_ok (does_fail hplain _)

theorem chownat_does (w : World T) (cage : Nat) (dirfd : Int) (path : Str) (owner group : Nat)
    (flags : BitVec 32) :
    Returns (w.chownat cage dirfd path owner group flags)
      (Does w (.chownat cage dirfd path owner group flags)) := by
  refine returns_ite (fun _ => ?_) fun _ => ?_
  · cases translateVirtualFd w.fds cage (asU64 dirfd) with
    | none => exact returns_ok (does_fail rfl _)
    | some => exact returns_bind fun i _ => chownNode_does rfl i owner group
  · refine returns_withPathAt (does_fail rfl) fun p _ => ?_
    exact returns_withNode (does_fail rfl) fun i _ => chownNode_does rfl i owner group

theorem utimensat_does (w : World T) (cage : Nat) (dirfd : Int) (path : Option Str) :
    Returns (w.utimensat cage dirfd path) (Does w (.utimensat cage dirfd path)) := by
  cases path with
  | some =>
    refine returns_withPathAt (does_fail rfl) fun p _ => ?_
    exact returns_withNode (does_fail rfl) fun i _ => touchNode_does rfl i
  | none =>
    simp only [utimensat]
    cases translateVirtualFd w.fds cage (asU64 dirfd) with
    | none => exact returns_ok (does_fail rfl _)
    | some entry => exact touchNode_does rfl entry.underfd

theorem chdir_does (w : World T) (cage : Nat) (path : Str) :
    Returns (w.chdir cage path) (Does w (.chdir cage path)) := by
  refine returns_withNode (does_fail rfl) fun i _ => ?_
  exact returns_unless (does_fail rfl) fun _ => returns_ok (.cwd cage _ rfl)

theorem fchdir_does (w : World T) (cage fd : Nat) :
    Returns (w.fchdir cage fd) (Does w (.fchdir cage fd)) := by
  unfold fchdir
  rcases translateVirtualFd w.fds cage fd with _ | _
  · exact returns_ok (does_fail rfl _)
  refine returns_unless (does_fail rfl) fun _ => ?_
  refine returns_bind fun i _ => ?_
  refine returns_unless (does_fail rfl) fun _ => ?_
  exact returns_bind fun cwd _ => returns_ok (.cwd cage cwd rfl)

end Attributes

theorem step_effect [LawfulFdTables T] {w' : World T} (h : step w call = .ok (ret, w')) :
    Effect w call ret w' := by
  suffices hdoes : Returns (step w call) (Does w call) from hdoes (ret, w') h
  cases call with
  | openPath => exact openResolvedPath_does rfl rfl
  | openat cage dirfd path flags mode => exact openat_does w cage dirfd path flags mode
  | close cage fd => exact fun r hr => .close cage fd r.1 r.2 rfl hr
  | dup cage oldfd => exact dup_does w cage oldfd
  | dup2 => exact dup2_does rfl false
  | dup3 =>
    exact returns_ite (fun _ => returns_ok (.idle (-22) (.inr (by decide))))
      fun _ => dup2_does rfl _
  | fcntl cage fd op arg => exact fcntl_does w cage fd op arg
  | read cage fd len => exact read_does w cage fd len
  | pread cage fd len offset => exact pread_does w cage fd len offset
  | write cage fd buf => exact write_does w cage fd buf
  | pwrite cage fd buf offset => exact pwrite_does w cage fd buf offset
  | lseek cage fd offset whence => exact lseek_does w cage fd offset whence
  | getdents cage fd len => exact getdents_does w cage fd len
  | truncate _ _ length =>
    refine returns_unless (does_fail rfl) fun _ => ?_
    exact returns_withNode (does_fail rfl) fun i _ =>
      truncateFile_does rfl rfl i length
  | ftruncate _ _ length =>
    refine returns_unless (does_fail rfl) fun _ => ?_
    refine returns_getNodeAndFlags (returns_ok (does_fail rfl _)) fun i flags _ => ?_
    exact returns_unless (does_fail rfl) fun _ =>
      truncateFile_does rfl rfl i length
  | mkdir cage path mode => exact mkdir_does w cage path mode
  | mknod cage path mode => exact mknod_does w cage path mode
  | link cage oldpath newpath =>
    exact linkResolvedPaths_does (.link cage oldpath newpath) rfl rfl rfl
  | linkat cage olddirfd oldpath newdirfd newpath flags =>
    exact linkat_does w cage olddirfd oldpath newdirfd newpath flags
  | symlink cage _ linkpath => exact symlinkResolvedPath_does rfl rfl (.inl ⟨cage, linkpath, rfl⟩)
  | symlinkat cage _ newdirfd linkpath =>
    exact returns_withPathAt (does_fail rfl) fun p hp =>
      symlinkResolvedPath_does rfl hp (.inr ⟨cage, newdirfd, linkpath, rfl⟩)
  | rmdir => exact rmdirResolvedPath_does rfl rfl
  | unlink => exact unlinkResolvedPath_does rfl rfl
  | unlinkat cage dirfd path flags => exact unlinkat_does w cage dirfd path flags
  | rename => exact renameResolvedPaths_does rfl rfl rfl
  | renameat cage olddirfd oldpath newdirfd newpath =>
    exact renameat_does w cage olddirfd oldpath newdirfd newpath
  | chdir cage path => exact chdir_does w cage path
  | fchdir cage fd => exact fchdir_does w cage fd
  | chmod _ _ mode => exact returns_withNode (does_fail rfl) fun i _ => chmodNode_does rfl i mode
  | chmodat _ _ _ mode =>
    exact returns_withPathAt (does_fail rfl) fun p _ =>
      returns_withNode (does_fail rfl) fun i _ => chmodNode_does rfl i mode
  | fchmod _ _ mode =>
    exact returns_getNodeAndFlags (returns_ok (does_fail rfl _)) fun i flags _ =>
      chmodNode_does rfl i mode
  | chown _ _ owner group =>
    exact returns_withNode (does_fail rfl) fun i _ =>
      chownNode_does rfl i owner group
  | chownat cage dirfd path owner group flags =>
    exact chownat_does w cage dirfd path owner group flags
  | utimensat cage dirfd path => exact utimensat_does w cage dirfd path
  | fork parent child isThread =>
    cases isThread with
    | true => exact returns_ok (.idle _ rfl)
    | false => exact returns_ok (.fork parent child _ rfl)
  | exec cage ret => exact returns_ok (.exec cage ret _ rfl rfl)
  | preexec cage =>
    refine returns_ite (fun _ => returns_error _ _) fun hnew => returns_ok ?_
    refine .preexec cage _ rfl ?_
    rw [preexec, if_neg hnew]
  | initUtilityCage =>
    refine returns_ite (fun _ => returns_ok (.idle _ trivial)) fun hnew => returns_ok ?_
    exact .initUtilityCage rfl (by simpa using hnew)

end LindGrates.Imfs
