import LindGrates.Base.Alike
import LindGrates.Theory.Imfs.Tables

/-!
# Shared Positions

A duplicated or forked descriptor shares the record of the one it came from, because
the table entry copies the pointer; a descriptor from another `open` has a record of
its own. `exec` is left out, since it changes one of the two tables only.

## Main definitions

* `Origins`: The number of the opened descriptor each descriptor comes from, passed on by
  what each call returned.
* `Observes`: Two descriptors share a position.

## Theorems

* `offsets_follow_origins`: They do exactly when they have one origin.
-/

namespace LindGrates.Imfs

open FdTables ImfsState Function List

variable {ret : Int} {flags mode : BitVec 32} {oldfd newfd cage : Nat} {k k₁ k₂ : Nat × Nat}
  {o : Origins} {call : Call}

/-- Which of the descriptors opened so far each descriptor comes from. -/
structure Origins where
  origin : Nat × Nat → Option Nat
  count : Nat

namespace Origins

def none : Origins :=
  { origin := fun _ => .none, count := 0 }

/-- A descriptor that comes from nowhere else. -/
def opened (o : Origins) (cage : Nat) (fd : Int) : Origins :=
  if 0 ≤ fd then
    { origin := update o.origin (cage, fd.toNat) (some o.count), count := o.count + 1 }
  else o

def copied (o : Origins) (cage oldfd : Nat) (fd : Int) : Origins :=
  if 0 ≤ fd then
    { o with origin := update o.origin (cage, fd.toNat) (o.origin (cage, oldfd)) }
  else o

/-- Where descriptors come from after a call has returned `ret`. -/
def after (o : Origins) (ret : Int) : Call → Origins
  | .openPath cage _ _ _ => o.opened cage ret
  | .openat cage _ _ _ _ => o.opened cage ret
  | .dup cage oldfd => o.copied cage oldfd ret
  | .dup2 cage oldfd _ => o.copied cage oldfd ret
  | .dup3 cage oldfd _ _ => o.copied cage oldfd ret
  | .fcntl cage fd op _ => if op = 0 ∨ op = 1030 then o.copied cage fd ret else o
  | .close cage fd => { o with origin := update o.origin (cage, fd) .none }
  | .fork parent child false =>
    { o with origin := fun k => o.origin (if k.1 = child then (parent, k.2) else k) }
  | .preexec cage => ((o.opened cage 0).opened cage 1).opened cage 2
  | _ => o

variable {call : Call} {cage : Nat}

theorem after_of_idles (o : Origins) (h : call.Idles ret) : o.after ret call = o := by
  have hcopied : ∀ cage oldfd newfd : Nat, (oldfd = newfd ∧ ret = newfd) ∨ ret < 0 →
      o.copied cage oldfd ret = o := by
    rintro cage oldfd newfd (⟨heq, hret⟩ | hret)
    · rw [copied, hret, if_pos (Int.natCast_nonneg _), Int.toNat_natCast, heq, update_eq_self]
    · rw [copied, if_neg (by omega)]
  have hopened : ret < 0 → ∀ cage, o.opened cage ret = o := fun hret cage => by
    rw [opened, if_neg (by omega)]
  cases call with
  | openPath cage | openat cage => exact hopened h cage
  | dup cage oldfd => exact hcopied cage oldfd oldfd (.inr h)
  | dup2 cage oldfd newfd | dup3 cage oldfd newfd => exact hcopied cage oldfd newfd h
  | fcntl cage fd =>
    simp only [after]
    split
    next hop => exact hcopied cage fd fd (.inr (h hop))
    · rfl
  | close | preexec => exact h.elim
  | fork _ _ isThread =>
    cases isThread with
    | true => rfl
    | false => cases h
  | exec => rfl
  | _ => rfl

theorem after_of_opens (o : Origins) (ret : Int)
    (h : call.opens = some (cage, flags, mode)) : o.after ret call = o.opened cage ret := by
  cases call <;> first | (cases h; rfl) | cases h

theorem after_of_dups (o : Origins) (ret : Int) (h : call.dups = some (cage, oldfd)) :
    o.after ret call = o.copied cage oldfd ret := by
  cases call with
  | dup =>
    cases h
    rfl
  | fcntl =>
    simp only [Call.dups] at h
    split at h
    next hop =>
      cases h
      simp only [after, if_pos hop]
    · cases h
  | _ => cases h

theorem after_of_dups2 (o : Origins) (ret : Int)
    (h : call.dups2 = some (cage, oldfd, newfd)) : o.after ret call = o.copied cage oldfd ret := by
  cases call <;> first | (cases h; rfl) | cases h

end Origins

variable {s s' : ImfsState} {h : Nat}

theorem getOffset_eq (hk : s.fdInfo k = some h) :
    s.getOffset k.1 k.2 = .ok (s.arc h).offset := by
  simp only [getOffset, hk]

theorem getOffset_congr (hk : s.fdInfo k = some h) (hk' : s'.fdInfo k = some h)
    (harc : s'.arc h = s.arc h) : s'.getOffset k.1 k.2 = s.getOffset k.1 k.2 := by
  rw [getOffset_eq hk, getOffset_eq hk', harc]

theorem arc_modify {off : Int} (hlt : h < s.arcs.length)
    (harcs : s'.arcs = s.arcs.modify h fun r => { r with offset := off }) (j : Nat) :
    s'.arc j = if j = h then { s.arc h with offset := off } else s.arc j := by
  simp only [arc, harcs, getD_eq_getElem?_getD]
  by_cases hj : j = h
  · rw [if_pos hj, hj, getElem?_modify_eq, getElem?_eq_getElem hlt]
    rfl
  · rw [if_neg hj, getElem?_modify_ne _ _ fun hc => hj hc.symm]

theorem arc_append {l : List FDInfo} (hlt : h < s.arcs.length) (harcs : s'.arcs = s.arcs ++ l) :
    s'.arc h = s.arc h := by
  simp only [arc, harcs, getD_append _ _ _ _ hlt]

/-- A position set through the first descriptor is the position of the second. -/
def Observes (s : ImfsState) (k₁ k₂ : Nat × Nat) : Prop :=
  ∀ off s', s.setOffset k₁.1 k₁.2 off = .ok s' → s'.getOffset k₂.1 k₂.2 = .ok off

section Tracks

variable {T : Type}

/-- Records and origins group the descriptors alike. -/
def Tracks (w : World T) (o : Origins) : Prop :=
  Alike w.fs.fdInfo o.origin w.fs.arcs.length o.count

theorem tracks_copied {w w' : World T} {h : Nat}
    (ht : Tracks w o) (hold : w.fs.fdInfo (cage, oldfd) = some h)
    (hinfo : w'.fs.fdInfo = update w.fs.fdInfo (cage, newfd) (some h))
    (harcs : w'.fs.arcs = w.fs.arcs) : Tracks w' (o.copied cage oldfd newfd) := by
  -- Copying renames one key to another.
  have hcomp := alike_comp ht fun k => if k = (cage, newfd) then (cage, oldfd) else k
  unfold Tracks
  rw [hinfo, harcs, ← hold]
  have hf : ∀ f : Nat × Nat → Option Nat, update f (cage, newfd) (f (cage, oldfd)) =
      fun k => f (if k = (cage, newfd) then (cage, oldfd) else k) := by
    intro f
    funext k
    rw [update_apply]
    split <;> rfl
  rw [Origins.copied, if_pos (Int.natCast_nonneg _), Int.toNat_natCast]
  simp only [hf]
  exact hcomp

theorem handle_eq_iff {w : World T} (ht : Tracks w o)
    {h1 h2 : Nat} (hk1 : w.fs.fdInfo k₁ = some h1) (hk2 : w.fs.fdInfo k₂ = some h2) :
    o.origin k₁ = o.origin k₂ ↔ h1 = h2 := by
  rw [← ht.same k₁ k₂, hk1, hk2, Option.some.injEq]

end Tracks

section Offsets

variable {T : Type} [FdTables T]

def NoExec (_ : World T) (call : Call) : Prop :=
  call.execs = none

/-- A run without `exec`, together with the origins of its descriptors. -/
inductive Traced : World T → Origins → Prop
  | start (w : World T) (h : Initial w) : Traced w .none
  | next (w : World T) (o : Origins) (call : Call) (ret : Int) (w' : World T)
      (hw : Traced w o) (hcond : NoExec w call) (hvalid : call.Valid w)
      (hstep : step w call = .ok (ret, w')) : Traced w' (o.after ret call)

variable {w : World T}

theorem handle_of_live (hag : Agree w) (ht : Tracks w o) (hk : w.under k ≠ none) :
    (∃ h, w.fs.fdInfo k = some h ∧ h < w.fs.arcs.length) ∧ o.origin k ≠ none := by
  have hinfo : w.fs.fdInfo k ≠ none := fun hc => hk ((hag k).mpr hc)
  rcases Option.ne_none_iff_exists'.mp hinfo with ⟨h, hh⟩
  exact ⟨⟨h, hh, ht.lt_left k h hh⟩, fun hc => hinfo ((ht.dom k).mpr hc)⟩

theorem observes_iff (hag : Agree w) (ht : Tracks w o)
    (hk1 : w.under k₁ ≠ none) (hk2 : w.under k₂ ≠ none) :
    Observes w.fs k₁ k₂ ↔ o.origin k₁ = o.origin k₂ := by
  rcases (handle_of_live hag ht hk1).1 with ⟨h1, hh1, hlt1⟩
  rcases (handle_of_live hag ht hk2).1 with ⟨h2, hh2, _⟩
  rw [handle_eq_iff ht hh1 hh2]
  -- What a descriptor reads after a position was set through another.
  have hread : ∀ off s', w.fs.setOffset k₁.1 k₁.2 off = .ok s' →
      s'.getOffset k₂.1 k₂.2 = .ok (if h2 = h1 then off else (w.fs.arc h2).offset) := by
    intro off s' hset
    rcases setOffset_ok hset with ⟨a, ha, hs'⟩
    rw [hh1] at ha
    cases ha
    have harcs : s'.arcs = w.fs.arcs.modify h1 fun r => { r with offset := off } := by rw [hs']
    rw [getOffset_eq (by rw [hs']; exact hh2), arc_modify hlt1 harcs]
    by_cases heq : h2 = h1
    · rw [if_pos heq, if_pos heq]
    · rw [if_neg heq, if_neg heq]
  constructor
  · intro hobs
    by_contra hne
    -- Setting any other position than the one it has would be seen.
    have hset : w.fs.setOffset k₁.1 k₁.2 ((w.fs.arc h2).offset + 1) =
        .ok { w.fs with arcs := w.fs.arcs.modify h1 fun r =>
          { r with offset := (w.fs.arc h2).offset + 1 } } := by
      simp only [setOffset, hh1]
    have hseen := (hobs _ _ hset).symm.trans (hread _ _ hset)
    have := Except.ok.inj hseen
    omega
  · intro heq off s' hset
    rw [hread off s' hset, if_pos heq.symm]

theorem descEffect_of_seeks {w' : World T}
    (hcall : call.seeks = some k) (h : DescEffect w call ret w') :
    w'.fs.fdInfo = w.fs.fdInfo ∧ Moves w.fs call w'.fs.arcs := by
  have hothers : call.opens = none ∧ call.dups = none ∧ call.dups2 = none := by
    cases call <;> first | exact ⟨rfl, rfl, rfl⟩ | cases hcall
  cases h with
  | quiet _ _ hinfo harcs => exact ⟨hinfo, harcs⟩
  | opened _ _ _ _ _ hopen =>
    rw [hothers.1] at hopen
    cases hopen
  | copied _ _ _ _ _ hcopy =>
    rw [hothers.2.1, hothers.2.2] at hcopy
    rcases hcopy with ⟨hcopy, _⟩ | ⟨hcopy, _⟩ <;> cases hcopy
  | closed _ _ hcase | forked _ _ hcase | executed _ hcase | started _ hcase =>
    rw [hcase] at hcall
    cases hcall

theorem descEffect_of_opens {w' : World T}
    (hcall : call.opens = some (cage, flags, mode)) (hret : 0 ≤ ret)
    (h : DescEffect w call ret w') : ∃ vfd : Nat, ret = vfd ∧
      w'.fs.fdInfo = update w.fs.fdInfo (cage, vfd) (some w.fs.arcs.length) ∧
      w'.fs.arcs = w.fs.arcs ++ [⟨flags, 0⟩] := by
  have hothers : call.dups = none ∧ call.dups2 = none := by
    cases call <;> first | exact ⟨rfl, rfl⟩ | cases hcall
  cases h with
  | quiet hidle =>
    have : ret < 0 := by cases call <;> first | exact hidle | cases hcall
    omega
  | opened _ vfd _ _ _ hcall' hvfd _ _ hinfo harcs =>
    rw [hcall] at hcall'
    cases hcall'
    exact ⟨vfd, hvfd, hinfo, harcs⟩
  | copied _ _ _ _ _ hcopy =>
    rw [hothers.1, hothers.2] at hcopy
    rcases hcopy with ⟨hcopy, _⟩ | ⟨hcopy, _⟩ <;> cases hcopy
  | closed _ _ hcase | forked _ _ hcase | executed _ hcase | started _ hcase =>
    rw [hcase] at hcall
    cases hcall

/-- The state and the origins after one call; a call that is not served is
    passed over. -/
def serveTraced (x : World T × Origins) (call : Call) : World T × Origins :=
  if call.execs = none ∧ call.Valid x.1 then
    match step x.1 call with
    | .ok (ret, w') => (w', x.2.after ret call)
    | .error _ => x
  else x

theorem traced_foldl_serveTraced (calls : List Call) {x : World T × Origins} (h : Traced x.1 x.2) :
    Traced (calls.foldl serveTraced x).1 (calls.foldl serveTraced x).2 := by
  induction calls generalizing x with
  | nil => exact h
  | cons call calls ih =>
    refine ih ?_
    unfold serveTraced
    split
    next hcond =>
      cases hstep : step x.1 call with
      | error => exact h
      | ok r => exact Traced.next x.1 x.2 call r.1 r.2 h hcond.1 hcond.2 hstep
    · exact h

section Lawful

variable [LawfulFdTables T] {w w' : World T} {o : Origins} {call : Call} {ret : Int}

theorem tracks_step (hin : InRange w) (hag : Agree w) (ht : Tracks w o) (hcond : NoExec w call)
    (hvalid : call.Valid w) (hstep : step w call = .ok (ret, w')) :
    Tracks w' (o.after ret call) := by
  cases step_descEffect hin hvalid hstep with
  | quiet hret _ hinfo harcs =>
    have hlen : w'.fs.arcs.length = w.fs.arcs.length := by
      rcases harcs with harcs | ⟨_, _, _, _, _, harcs⟩
      · rw [harcs]
      · rw [harcs, length_modify]
    unfold Tracks
    rw [o.after_of_idles hret, hinfo, hlen]
    exact ht
  | opened cage vfd _ _ _ hcall hret _ _ hinfo harcs =>
    unfold Tracks
    rw [o.after_of_opens ret hcall, hret, Origins.opened, if_pos (Int.natCast_nonneg _),
      Int.toNat_natCast, hinfo, harcs, length_append, length_singleton]
    exact alike_fresh ht (cage, vfd)
  | copied _ _ newfd _ _ hcall hret _ hold_info _ hinfo harcs =>
    rw [hret] at hstep ⊢
    rcases hcall with ⟨hcall, _⟩ | ⟨hcall, _⟩
    · rw [o.after_of_dups newfd hcall]
      exact tracks_copied ht hold_info hinfo harcs
    · rw [o.after_of_dups2 newfd hcall]
      exact tracks_copied ht hold_info hinfo harcs
  | closed cage fd hcall _ hinfo harcs =>
    unfold Tracks
    rw [hcall, hinfo, harcs]
    exact alike_drop ht (cage, fd)
  | forked parent child hcall hnew hunder hinfo harcs =>
    unfold Tracks
    rw [hcall, hinfo, harcs]
    have hcomp := alike_comp ht fun k => if k.1 = child then (parent, k.2) else k
    have hf : (fun k : Nat × Nat => if k.1 = child
        then (w.fs.fdInfo (parent, k.2)).orElse fun _ => w.fs.fdInfo k else w.fs.fdInfo k) =
        fun k => w.fs.fdInfo (if k.1 = child then (parent, k.2) else k) := by
      funext k
      split
      next hk =>
        -- The child has no record of its own yet.
        have hnone : w.fs.fdInfo k = none := (hag k).mp (by
          have := hnew k.2
          rwa [← hk] at this)
        rw [hnone]
        cases w.fs.fdInfo (parent, k.2) <;> rfl
      · rfl
    rw [hf]
    exact hcomp
  | executed _ hcall =>
    rw [hcall] at hcond
    cases hcond
  | started cage hcall _ _ hinfo harcs =>
    unfold Tracks
    rw [hcall, hinfo, harcs, length_append, length_replicate]
    exact alike_fresh (alike_fresh (alike_fresh ht (cage, 0)) (cage, 1)) (cage, 2)

theorem tracks_of_traced (h : Traced w o) : InRange w ∧ Agree w ∧ Tracks w o := by
  induction h with
  | start w h =>
    refine ⟨inRange_initial h, agree_initial h, ?_⟩
    unfold Tracks
    rw [fs_of_initial h]
    exact alike_none
  | next w _ call _ _ _ hcond hvalid hstep ih =>
    rcases ih with ⟨hin, hag, ht⟩
    have hrestore : RestoringExec w call := fun cage hc => by
      rw [hcond] at hc
      cases hc
    exact ⟨inRange_step hin hvalid hstep, agree_step hag hin hrestore hvalid hstep,
      tracks_step hin hag ht hcond hvalid hstep⟩

theorem seek_positions (hag : Agree w) (ht : Tracks w o) (hin : InRange w) (hvalid : call.Valid w)
    (hstep : step w call = .ok (ret, w')) (hcall : call.seeks = some k₁)
    (hk1 : w.under k₁ ≠ none) (hk2 : w.under k₂ ≠ none) :
    (o.origin k₁ = o.origin k₂ →
        w'.fs.getOffset k₂.1 k₂.2 = w'.fs.getOffset k₁.1 k₁.2) ∧
      (o.origin k₁ ≠ o.origin k₂ →
        w'.fs.getOffset k₂.1 k₂.2 = w.fs.getOffset k₂.1 k₂.2) := by
  rcases (handle_of_live hag ht hk1).1 with ⟨h1, hh1, hlt1⟩
  rcases (handle_of_live hag ht hk2).1 with ⟨h2, hh2, _⟩
  rw [Ne, handle_eq_iff ht hh1 hh2]
  rcases descEffect_of_seeks hcall (step_descEffect hin hvalid hstep) with ⟨hinfo, harcs⟩
  have hh₁' : w'.fs.fdInfo k₁ = some h1 := by rw [hinfo, hh1]
  have hh₂' : w'.fs.fdInfo k₂ = some h2 := by rw [hinfo, hh2]
  refine ⟨fun heq => ?_, fun hne => getOffset_congr hh2 hh₂' ?_⟩
  · rw [getOffset_eq hh₁', getOffset_eq hh₂', heq]
  · rcases harcs with harcs | ⟨k, h, off, hseek, hh, harcs⟩
    · rw [arc, harcs, arc]
    rw [hcall] at hseek
    cases hseek
    rw [hh1] at hh
    cases hh
    rw [arc_modify hlt1 harcs, if_neg (fun hc => hne hc.symm)]

theorem still_positions (hag : Agree w) (ht : Tracks w o) (hin : InRange w) (hcond : NoExec w call)
    (hvalid : call.Valid w) (hstep : step w call = .ok (ret, w')) (hcall : call.seeks = none)
    (hk : w.under k ≠ none) (hk' : w'.under k ≠ none)
    (horigin : (o.after ret call).origin k = o.origin k) :
    w'.fs.getOffset k.1 k.2 = w.fs.getOffset k.1 k.2 := by
  rcases (handle_of_live hag ht hk).1 with ⟨h, hh, hlt⟩
  cases step_descEffect hin hvalid hstep with
  | quiet _ _ hinfo harcs =>
    rcases harcs with harcs | ⟨_, _, _, hseek, _⟩
    · exact getOffset_congr hh (by rw [hinfo, hh]) (by rw [arc, harcs, arc])
    · rw [hcall] at hseek
      cases hseek
  | opened cage vfd _ _ _ _ _ hfree _ hinfo harcs =>
    have hne : k ≠ (cage, vfd) := fun hc => hk (hc ▸ hfree)
    exact getOffset_congr hh (by rw [hinfo, update_of_ne hne, hh])
      (arc_append hlt harcs)
  | copied cage oldfd newfd _ _ hcopy hret _ hold_info _ hinfo harcs =>
    have hk_info : w'.fs.fdInfo k = some h := by
      by_cases hnew : k = (cage, newfd)
      · have hafter : (o.after ret call).origin k = o.origin (cage, oldfd) := by
          have : o.after ret call = o.copied cage oldfd newfd := by
            rw [hret]
            rcases hcopy with ⟨hcopy, _⟩ | ⟨hcopy, _⟩
            · exact o.after_of_dups newfd hcopy
            · exact o.after_of_dups2 newfd hcopy
          rw [this, Origins.copied, if_pos (Int.natCast_nonneg _), Int.toNat_natCast, hnew]
          exact update_self ..
        rw [hafter] at horigin
        rw [hinfo, hnew, update_self, (handle_eq_iff ht hold_info hh).mp horigin]
      · rw [hinfo, update_of_ne hnew, hh]
    exact getOffset_congr hh hk_info (by rw [arc, harcs, arc])
  | closed cage fd _ hunder hinfo harcs =>
    have hne : k ≠ (cage, fd) := fun hc => hk' (by rw [hunder, hc, update_self])
    exact getOffset_congr hh (by rw [hinfo, update_of_ne hne, hh])
      (by rw [arc, harcs, arc])
  | forked _ child _ hnew _ hinfo harcs =>
    have hne : k.1 ≠ child := fun hc => hk (by
      have := hnew k.2
      rwa [← hc] at this)
    exact getOffset_congr hh (by rw [hinfo]; simp only [if_neg hne, hh])
      (by rw [arc, harcs, arc])
  | executed _ hexec =>
    rw [hexec] at hcond
    cases hcond
  | started cage _ hnew _ hinfo harcs =>
    have hne : ∀ fd, k ≠ (cage, fd) := fun fd hc => hk (hc ▸ hnew fd)
    refine getOffset_congr hh ?_ (arc_append hlt harcs)
    rw [hinfo, update_of_ne (hne 2), update_of_ne (hne 1), update_of_ne (hne 0), hh]

theorem open_position (hin : InRange w) (hvalid : call.Valid w)
    (hstep : step w call = .ok (ret, w'))
    (hcall : call.opens = some (cage, flags, mode)) (hret : 0 ≤ ret) :
    w'.fs.getOffset cage ret.toNat = .ok 0 := by
  rcases descEffect_of_opens hcall hret (step_descEffect hin hvalid hstep) with
    ⟨vfd, hvfd, hinfo, harcs⟩
  rw [hvfd, Int.toNat_natCast]
  refine (getOffset_eq (k := (cage, vfd)) (by rw [hinfo, update_self])).trans ?_
  simp only [arc, harcs, getD_eq_getElem?_getD, getElem?_concat_length, Option.getD_some]

/-- Two live descriptors see each other's positions exactly when they have one
    origin. A call that moves the position of one moves the positions of those
    alone, any other call moves none, and a new `open` starts at zero. -/
theorem offsets_follow_origins {w : World T} {o : Origins} (h : Traced w o) :
    (∀ k, w.under k ≠ none → o.origin k ≠ none) ∧
      (∀ k₁ k₂, w.under k₁ ≠ none → w.under k₂ ≠ none →
        (Observes w.fs k₁ k₂ ↔ o.origin k₁ = o.origin k₂)) ∧
      ∀ call ret w', NoExec w call → call.Valid w → step w call = .ok (ret, w') →
        (∀ k₁ k₂, call.seeks = some k₁ → w.under k₁ ≠ none → w.under k₂ ≠ none →
          (o.origin k₁ = o.origin k₂ →
            w'.fs.getOffset k₂.1 k₂.2 = w'.fs.getOffset k₁.1 k₁.2) ∧
          (o.origin k₁ ≠ o.origin k₂ →
            w'.fs.getOffset k₂.1 k₂.2 = w.fs.getOffset k₂.1 k₂.2)) ∧
        (call.seeks = none → ∀ k, w.under k ≠ none → w'.under k ≠ none →
          (o.after ret call).origin k = o.origin k →
            w'.fs.getOffset k.1 k.2 = w.fs.getOffset k.1 k.2) ∧
        ∀ cage flags mode, call.opens = some (cage, flags, mode) → 0 ≤ ret →
          w'.fs.getOffset cage ret.toNat = .ok 0 := by
  rcases tracks_of_traced h with ⟨hin, hag, ht⟩
  refine ⟨fun k hk => (handle_of_live hag ht hk).2, fun k₁ k₂ => observes_iff hag ht,
    fun call ret w' hcond hvalid hstep => ⟨fun k₁ k₂ hcall hk₁ hk₂ => ?_,
      fun hcall k hk hk' horigin => ?_, fun cage flags mode hcall hret => ?_⟩⟩
  · exact seek_positions hag ht hin hvalid hstep hcall hk₁ hk₂
  · exact still_positions hag ht hin hcond hvalid hstep hcall hk hk' horigin
  · exact open_position hin hvalid hstep hcall hret

end Lawful

end Offsets

theorem length_three_lt : ([1, 2, 3] : List UInt8).length < 2 ^ 31 := by decide

/-- A file is opened twice and the first descriptor duplicated. -/
def sharedRun : List Call :=
  [.preexec 1,
    .openPath 1 ['/', 'a'] (oCreat ||| oRdwr) 0o644#32,
    .openPath 1 ['/', 'a'] oRdwr 0,
    .dup 1 3,
    .write 1 3 ⟨[1, 2, 3], length_three_lt⟩]

theorem offsets_follow_origins_sharedRun :
    let x := sharedRun.foldl serveTraced (boot 8, Origins.none)
    Observes x.1.fs (1, 3) (1, 5) ∧ ¬ Observes x.1.fs (1, 3) (1, 4) := by
  have hx := traced_foldl_serveTraced sharedRun (x := (boot 8, Origins.none))
    (.start _ (initial_boot 8))
  have hiff := (offsets_follow_origins hx).2.1
  constructor
  · exact (hiff (1, 3) (1, 5) (by decide +kernel) (by decide +kernel)).mpr (by decide +kernel)
  · exact fun hobs => absurd
      ((hiff (1, 3) (1, 4) (by decide +kernel) (by decide +kernel)).mp hobs) (by decide +kernel)

end LindGrates.Imfs
