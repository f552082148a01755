import LindGrates.Theory.Imfs.Descriptors
import Mathlib.Data.Nat.Count

/-!
# The Two Descriptor Tables

The grate keeps two maps of descriptors in step by hand: `fdtables` has the
node, `fd_info` has the record. A descriptor in the first but not in the second
makes the next call on it panic, and a panic under the global lock stops the
whole grate.

`exec` works on `fdtables` alone. It drops the close-on-exec descriptors, whose
records stay behind, and then reserves up to three numbers that get no record.

## Main definitions

* `Agree`: The two maps have the same keys.
* `ExecRestores`: The numbers `exec` reserves are the numbers it dropped.

## Theorems

* `agree_step`, `tables_agree`: Under this condition the maps stay in step.
* `tables_disagree_after_exec`: A descriptor without a record.
-/

namespace LindGrates.Imfs

open FdTables ImfsState Function LawfulFdTables World Nat

section Tables

variable {T : Type} [FdTables T]

/-- The two maps have the same keys. -/
def Agree (w : World T) : Prop :=
  ∀ k, w.under k = none ↔ w.fs.fdInfo k = none

/-- A descriptor that stays open across `exec`. -/
def World.kept (w : World T) (cage fd : Nat) : Bool :=
  (translateVirtualFd w.fds cage fd).any fun e => !e.shouldCloexec

def World.closing (w : World T) (cage fd : Nat) : Bool :=
  (translateVirtualFd w.fds cage fd).any fun e => e.shouldCloexec

/-- The descriptors `exec` closes are the three lowest numbers it does not
    keep. -/
def ExecRestores (w : World T) (cage : Nat) : Prop :=
  ∀ fd, fd < fdLimit T → (w.closing cage fd = true ↔
    w.kept cage fd = false ∧ count (fun x => w.kept cage x = false) fd < 3)

/-- The condition on a step: an `exec` reserves what it drops. -/
def RestoringExec (w : World T) (call : Call) : Prop :=
  ∀ cage ∈ call.execs, ExecRestores w cage

instance (w : World T) (cage : Nat) : Decidable (ExecRestores w cage) :=
  inferInstanceAs (Decidable (∀ fd, fd < fdLimit T → _))

instance (w : World T) (call : Call) : Decidable (RestoringExec w call) :=
  inferInstanceAs (Decidable (∀ cage ∈ call.execs, _))

theorem under_ne_none {w : World T} {cage fd : Nat} :
    w.under (cage, fd) ≠ none ↔ w.kept cage fd = true ∨ w.closing cage fd = true := by
  rw [Ne, under_eq_none]
  unfold kept closing
  cases translateVirtualFd w.fds cage fd with
  | none => simp only [not_true_eq_false, Option.any_none, Bool.false_eq_true, or_self]
  | some e => cases he : e.shouldCloexec <;> simp [he]

/-- Of the numbers a predicate holds of, one comes at every rank up to that of
    a later one. -/
theorem exists_count_eq {p : Nat → Prop} [DecidablePred p] {k x : Nat} (h : k < count p x) :
    ∃ y, y < x ∧ p y ∧ count p y = k := by
  induction x with
  | zero =>
    rw [count_zero] at h
    omega
  | succ x ih =>
    rw [count_succ] at h
    by_cases hk : k < count p x
    · rcases ih hk with ⟨y, hy, hpy, hcount⟩
      exact ⟨y, by omega, hpy, hcount⟩
    by_cases hp : p x
    · rw [if_pos hp] at h
      exact ⟨x, by omega, hp, by omega⟩
    · rw [if_neg hp] at h
      omega

/-- A cage's numbers are taken where `free` does not hold, and so are the first
    `k` others below the limit. -/
def Filled (t : T) (cage : Nat) (free : Nat → Prop) [DecidablePred free] (k : Nat) : Prop :=
  ∀ x, translateVirtualFd t cage x ≠ none ↔ ¬ free x ∨ (x < fdLimit T ∧ count free x < k)

section Lawful

variable [LawfulFdTables T] {cage : Nat} {w w' : World T} {ret : Int}

theorem reserveFd_spec {t : T} (hex : checkCageExists t cage = true) :
    checkCageExists (reserveFd t cage) = checkCageExists t ∧
      (∀ c, c ≠ cage → ∀ x,
        translateVirtualFd (reserveFd t cage) c x = translateVirtualFd t c x) ∧
      ∀ x, translateVirtualFd (reserveFd t cage) cage x ≠ none ↔
        translateVirtualFd t cage x ≠ none ∨
          (x < fdLimit T ∧ ∀ y, y < x → translateVirtualFd t cage y ≠ none) := by
  unfold reserveFd
  rcases hfd : getUnusedVirtualFd t cage (imfsEntry 0 false) with _ | p
  · have hfull := getUnused_none t cage _ hex hfd
    exact ⟨rfl, fun _ _ _ => rfl, fun x => ⟨.inl, fun h => h.elim id fun h => hfull x h.1⟩⟩
  rcases p with ⟨fd, t'⟩
  rcases getUnused_some t t' cage _ fd hfd with
    ⟨_, hlt, hnone, hlow, htr, hcages⟩
  refine ⟨hcages, fun c hc x => ?_, fun x => ?_⟩
  · simp only [htr, lookupUpdate, if_neg (fun h : c = cage ∧ x = fd => hc h.1)]
  · simp only [htr, lookupUpdate, true_and]
    by_cases hx : x = fd
    · rw [if_pos hx, hx]
      exact ⟨fun _ => .inr ⟨hlt, hlow⟩, fun _ => nofun⟩
    rw [if_neg hx]
    refine ⟨.inl, fun h => h.elim id fun h => ?_⟩
    -- Below the number taken everything is taken, above it that one was free.
    rcases lt_or_gt_of_ne hx with hxl | hxg
    · exact hlow x hxl
    · exact absurd hnone (h.2 fd hxg)

theorem filled_reserveFd {t : T} {free : Nat → Prop} [DecidablePred free] {k : Nat}
    (hex : checkCageExists t cage = true) (h : Filled t cage free k) :
    Filled (reserveFd t cage) cage free (k + 1) := by
  intro x
  rw [(reserveFd_spec hex).2.2 x, h x]
  by_cases hfree : free x
  · simp only [hfree, not_true_eq_false, false_or]
    constructor
    · rintro (⟨hlt, hcount⟩ | ⟨hlt, hlow⟩)
      · exact ⟨hlt, by omega⟩
      · refine ⟨hlt, Nat.lt_of_not_le fun hle => ?_⟩
        rcases exists_count_eq (p := free) hle with ⟨y, hy, hpy, hcount⟩
        rcases (h y).mp (hlow y hy) with hn | ⟨_, hlt'⟩
        · exact hn hpy
        · omega
    · rintro ⟨hlt, hcount⟩
      by_cases hk : count free x < k
      · exact .inl ⟨hlt, hk⟩
      refine .inr ⟨hlt, fun y hy => (h y).mpr ?_⟩
      by_cases hpy : free y
      · have := count_strict_mono hpy hy
        exact .inr ⟨by omega, by omega⟩
      · exact .inl hpy
  · simp only [hfree, not_false_eq_true, true_or]

/-- What `exec` leaves in the tables: in its own cage the descriptors kept and
    the three lowest other numbers, elsewhere everything. -/
theorem exec_under (hex : checkCageExists w.fds cage = true)
    (hexec : w.execHook cage ret = .ok (ret, w')) :
    w'.fs = w.fs ∧ (∀ c, c ≠ cage → ∀ x, w'.under (c, x) = w.under (c, x)) ∧
      ∀ x, w'.under (cage, x) ≠ none ↔ w.kept cage x = true ∨
        (x < fdLimit T ∧ count (fun x => w.kept cage x = false) x < 3) := by
  unfold execHook at hexec
  rw [if_pos hex] at hexec
  cases hexec
  have hex0 : checkCageExists (emptyFdsForExec w.fds cage) cage = true := by
    rw [exists_empty]
    exact hex
  have hfill0 : Filled (emptyFdsForExec w.fds cage) cage
      (fun x => w.kept cage x = false) 0 := by
    intro x
    simp only [translate_empty, if_true, not_lt_zero, and_false, or_false,
      Bool.not_eq_false, kept]
    cases translateVirtualFd w.fds cage x with
    | none => simp only [Option.filter_none, ne_eq, not_true_eq_false, Option.any_none,
        Bool.false_eq_true]
    | some e => cases he : e.shouldCloexec <;> simp [Option.filter, he]
  rcases reserveFd_spec hex0 with ⟨hc1, ho1, _⟩
  have hex1 := (congrFun hc1 cage).trans hex0
  have hfill1 := filled_reserveFd hex0 hfill0
  rcases reserveFd_spec hex1 with ⟨hc2, ho2, _⟩
  have hex2 := (congrFun hc2 cage).trans hex1
  have hfill2 := filled_reserveFd hex1 hfill1
  rcases reserveFd_spec hex2 with ⟨_, ho3, _⟩
  have hfill3 := filled_reserveFd hex2 hfill2
  refine ⟨rfl, fun c hc x => ?_, fun x => ?_⟩
  · simp only [under, ho3 c hc, ho2 c hc, ho1 c hc, translate_empty, if_neg hc]
  · rw [Ne, under_eq_none, ← Ne, hfill3 x, Bool.not_eq_false]

theorem exists_of_execRestores (h : ExecRestores w cage) : checkCageExists w.fds cage = true := by
  have hlim : 2 < fdLimit T := limit_gt
  cases hex : checkCageExists w.fds cage with
  | true => rfl
  | false =>
    have hnone : ∀ fd, translateVirtualFd w.fds cage fd = none := fun fd =>
      under_eq_none.mp (under_of_not_exists hex fd)
    have := (h 0 (by omega)).mpr ⟨by simp only [kept, hnone, Option.any_none],
      by rw [count_zero]; omega⟩
    simp only [closing, hnone, Option.any_none, Bool.false_eq_true] at this

theorem agree_exec (h : Agree w) (hr : ExecRestores w cage)
    (hexec : w.execHook cage ret = .ok (ret, w')) : Agree w' := by
  rcases exec_under (exists_of_execRestores hr) hexec with ⟨hfs, hother, hcage⟩
  rintro ⟨c, x⟩
  rw [hfs, ← h (c, x)]
  by_cases hc : c = cage
  · rw [hc, ← not_iff_not, ← Ne, ← Ne, hcage x, under_ne_none]
    by_cases hkept : w.kept cage x = true
    · simp only [hkept, true_or]
    have hfree : w.kept cage x = false := by simpa using hkept
    simp only [hkept, Bool.false_eq_true, false_or]
    constructor
    · rintro ⟨hlt, hcount⟩
      exact (hr x hlt).mpr ⟨hfree, hcount⟩
    · intro hclosing
      have hlt : x < fdLimit T := by
        unfold closing at hclosing
        cases htr : translateVirtualFd w.fds cage x with
        | none =>
          rw [htr] at hclosing
          cases hclosing
        | some e => exact lt_limit w.fds cage x e htr
      exact ⟨hlt, ((hr x hlt).mp hclosing).2⟩
  · rw [hother c hc x]

theorem agree_update {f g : Nat × Nat → Option Nat} (h : ∀ k, f k = none ↔ g k = none)
    (k0 : Nat × Nat) {x y : Option Nat} (hxy : x = none ↔ y = none) :
    ∀ k, update f k0 x k = none ↔ update g k0 y k = none := by
  intro k
  rw [update_apply, update_apply]
  split
  · exact hxy
  · exact h k

theorem agree_step {call : Call} (h : Agree w) (hin : InRange w) (hcond : RestoringExec w call)
    (hvalid : call.Valid w) (hstep : step w call = .ok (ret, w')) : Agree w' := by
  cases step_descEffect hin hvalid hstep with
  | quiet _ hunder hinfo =>
    intro k
    rw [hunder, hinfo]
    exact h k
  | opened _ _ _ _ _ _ _ _ hunder hinfo | copied _ _ _ _ _ _ _ _ _ hunder hinfo =>
    unfold Agree
    rw [hunder, hinfo]
    exact agree_update h _ (by simp only [reduceCtorEq])
  | closed _ _ _ hunder hinfo =>
    unfold Agree
    rw [hunder, hinfo]
    exact agree_update h _ Iff.rfl
  | forked parent child hcall hnew hunder hinfo =>
    rintro ⟨c, x⟩
    rw [hunder, hinfo]
    simp only
    split
    next hc =>
      -- The child has no record of its own yet.
      have hnone : w.fs.fdInfo (c, x) = none := (h (c, x)).mp (hc ▸ hnew x)
      rw [h (parent, x), hnone]
      cases w.fs.fdInfo (parent, x) <;>
        simp only [Option.orElse_none, Option.orElse_some, reduceCtorEq]
    · exact h (c, x)
  | executed cage hcall hexec =>
    rw [hcall] at hcond
    exact agree_exec h (hcond cage rfl) hexec
  | started _ _ _ hunder hinfo =>
    unfold Agree
    rw [hunder, hinfo]
    exact agree_update (agree_update (agree_update h _ (by simp only [reduceCtorEq])) _
      (by simp only [reduceCtorEq])) _ (by simp only [reduceCtorEq])

theorem agree_initial (h : Initial w) : Agree w := by
  intro k
  rw [fs_of_initial h]
  exact ⟨fun _ => rfl, fun _ => under_of_not_exists (h.no_cage k.1) k.2⟩

theorem agree_of_reachable (hw : Reachable RestoringExec w) : Agree w :=
  reachable_inv_inRange (fun _ => agree_initial)
    (fun _ _ _ _ h hin hcond hvalid hstep => agree_step h hin hcond hvalid hstep) w hw

theorem followHardLinks_ne_panic (s : ImfsState) (i : Nat) :
    s.followHardLinks i ≠ .error .panic := by
  unfold followHardLinks
  cases loop s.hardLinkPass (s.nodes.length + 1) i <;> exact nofun

/-- As long as every `exec` reserves what it drops, the two maps have the same
    keys, and looking up the record of a descriptor never panics. -/
theorem tables_agree {w : World T} (hw : Reachable RestoringExec w) :
    (∀ cage fd, translateVirtualFd w.fds cage fd ≠ none ↔ w.fs.fdInfo (cage, fd) ≠ none) ∧
      ∀ cage fd, w.getNodeAndFlags cage fd ≠ .error .panic ∧
        ∀ idx flags, w.getNodeAndFlags cage fd = .ok (.ok (idx, flags)) →
          ∃ off, w.fs.getOffset cage fd = .ok off ∧
            ∀ off', ∃ s', w.fs.setOffset cage fd off' = .ok s' := by
  have hagree := agree_of_reachable hw
  have hkeys : ∀ cage fd, translateVirtualFd w.fds cage fd = none ↔
      w.fs.fdInfo (cage, fd) = none := fun cage fd =>
    under_eq_none.symm.trans (hagree (cage, fd))
  refine ⟨fun cage fd => not_congr (hkeys cage fd), fun cage fd => ?_⟩
  unfold getNodeAndFlags getOffset setOffset
  rcases htr : translateVirtualFd w.fds cage fd with _ | e
  · exact ⟨nofun, nofun⟩
  rcases hinfo : w.fs.fdInfo (cage, fd) with _ | _
  · rw [(hkeys cage fd).mpr hinfo] at htr
    cases htr
  refine ⟨?_, fun _ _ _ => ⟨_, rfl, fun _ => ⟨_, rfl⟩⟩⟩
  simp only
  cases hf : w.fs.followHardLinks e.underfd with
  | ok => exact nofun
  | error f =>
    cases f with
    | panic => exact absurd hf (followHardLinks_ne_panic w.fs e.underfd)
    | hang => exact nofun

end Lawful

end Tables

/-- The standard descriptors are marked close-on-exec, a file is not. -/
def restoringRun : List Call :=
  [.preexec 1,
    .openPath 1 ['/', 'a'] (oCreat ||| oRdwr) 0o644#32,
    .fcntl 1 0 2 1,
    .fcntl 1 1 2 1,
    .fcntl 1 2 2 1,
    .exec 1 0]

theorem tables_agree_restoringRun :
    let w := restoringRun.foldl serve (boot 8)
    translateVirtualFd w.fds 1 3 = some (imfsEntry 3 false) ∧
      (∀ cage fd, translateVirtualFd w.fds cage fd ≠ none ↔ w.fs.fdInfo (cage, fd) ≠ none) := by
  have hw : Reachable RestoringExec (restoringRun.foldl serve (boot 8)) :=
    reachable_foldl_serve restoringRun (.start _ (initial_boot 8)) (by decide +kernel)
  exact ⟨by decide +kernel, (tables_agree hw).1⟩

/-- A program is started and replaces itself. -/
def execRun : List Call :=
  [.preexec 1, .exec 1 0]

/-- Descriptor three is then open in `fdtables` and has no record, and a call
    on it panics. -/
theorem tables_disagree_after_exec :
    ∃ w : World (MapTables 1024), Reachable Unrestricted w ∧
      translateVirtualFd w.fds 1 3 ≠ none ∧ w.fs.fdInfo (1, 3) = none ∧
      w.getNodeAndFlags 1 3 = .error .panic := by
  refine ⟨execRun.foldl serve (boot 1024), ?_, ?_, ?_, ?_⟩
  · exact reachable_foldl_serve execRun (.start _ (initial_boot 1024)) (by decide +kernel)
  · decide +kernel
  · decide +kernel
  · decide +kernel

end LindGrates.Imfs
