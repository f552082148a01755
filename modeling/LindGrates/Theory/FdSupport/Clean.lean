import LindGrates.Theory.FdSupport.Grounded

/-!
# Failures after the Kernel's Answer

A handler enters what the kernel has opened into the table of the cage, and that
can fail: the table is full, a number is out of range, or the numbers of a pair
cannot be copied from or to the cage, which the handler does not notice.

No handler makes a second call to the kernel, so a failure is clean only if there was
nothing to close, which is the case of a `dup2` whose target is the number the kernel
already has for its source. Every other failure leaves descriptors behind, and a full
table takes the grate with it in a pair.

## Main definitions

* `Clean`: An error code, an unchanged table and everything closed again.
* `World.Roomy`: What a call needs.

## Theorems

* `fails_cleanly_iff`: A call that fails does so cleanly exactly if it has what it needs.
* `pipe_fails_halfway`: A pipe of which one end is entered.
-/

namespace LindGrates

open FdTables LawfulFdTables Posix Function List

variable {cloexec : Bool} {k : Nat} {x : Desc}

def Posix.Meaning.opens : Meaning → Bool
  | .create _ _ | .dup _ _ _ | .replace _ _ _ _ | .pair _ => true
  | _ => false

namespace FdSupport

variable {T : Type} [FdTables T] {w : World T} {a : Action} {s : Served T} {req : Request}
  {r : Result}

def EntryFails (t : T) (cage : Nat) (a : Action) (r : Result) : Meaning → Prop
  | .create _ _ | .dup _ _ _ => getUnusedVirtualFd t cage (kernelEntry r.ret a.call.recorded) = none
  | .replace _ new _ _ => getSpecificVirtualFd t cage new (kernelEntry r.ret a.call.recorded) = none
  | .pair _ =>
    let pair := r.pair.getD (0, 0)
    a.call.readsPair a.copies = false ∨ a.copies.toCage 0 = false ∨
      getUnusedVirtualFd t cage (kernelEntry pair.1 a.call.recorded) = none ∨
      ∃ fd t', getUnusedVirtualFd t cage (kernelEntry pair.1 a.call.recorded) = some (fd, t') ∧
        getUnusedVirtualFd t' cage (kernelEntry pair.2 a.call.recorded) = none
  | _ => False

/-- The kernel has done its part of a call, and entering it into the table of the
    cage failed. -/
def Failed (w : World T) (a : Action) (s : Served T) : Prop :=
  ∃ req r, s.forwarded = some req ∧ kernelServe w.kernel req a = some r ∧ 0 ≤ r.ret ∧
    EntryFails w.fds w.cage a r a.call.meaning

/-- A failure that leaves nothing behind: an error code, the table as it was, and
    everything closed that the kernel had opened. -/
structure Clean (w : World T) (s : Served T) : Prop where
  code : ∃ code, s.final.ret = .ok code ∧ code < 0
  table : s.final.fds = w.fds
  closed : ∀ k ∈ s.opened, s.kernel k = none

/-- Nothing open is behind a number of the cage. -/
def World.Dead (w : World T) (fd : Nat) : Prop :=
  ∀ k, w.names fd = some k → w.kernel k = none

/-- What a performed call needs for entering to succeed, or to have nothing to
    close. -/
def World.RoomFor (w : World T) (a : Action) : Meaning → Prop
  | .create _ _ | .dup _ _ _ => ∃ fd, w.Free fd
  | .replace old new _ _ => new < fdLimit T ∨ 2 ^ 31 ≤ new ∨ w.names old = some new
  | .pair _ => w.FreePair ∧ a.call.readsPair a.copies = true ∧ a.copies.toCage 0 = true
  | _ => True

/-- The call names a descriptor that is not open, is refused by the system, or
    finds room. -/
def World.Roomy (w : World T) (a : Action) : Prop :=
  (∃ fd ∈ a.call.meaning.needed, w.Dead fd) ∨ a.answer.ret < 0 ∨ w.RoomFor a a.call.meaning

section Room

variable {t : T} {cage fd : Nat} {e : FDTableEntry}

theorem full_iff_not_free : Full w.fds w.cage ↔ ¬ ∃ fd, w.Free fd := by
  constructor
  · rintro hfull ⟨fd, hfd⟩
    exact not_full_of_free hfd hfull
  · intro hfree fd hlt hnone
    exact hfree ⟨fd, hlt, names_eq_none.mpr hnone⟩

theorem full_of_allotted {t' : T} (hfree : ¬ w.FreePair) (hall : Allotted w.fds w.cage fd e t') :
    Full t' w.cage := by
  intro fd' hlt hnone
  by_cases hfd : fd' = fd
  · rw [hfd, hall.entry, update_self] at hnone
    cases hnone
  · rw [hall.entry, update_of_ne hfd] at hnone
    exact hfree ⟨fd', fd, hfd, ⟨hlt, names_eq_none.mpr hnone⟩, hall.lt, names_eq_none.mpr hall.free⟩

variable [LawfulFdTables T]

theorem getUnused_eq_none_iff (hreg : checkCageExists t cage = true) :
    getUnusedVirtualFd t cage e = none ↔ Full t cage := by
  constructor
  · exact getUnused_none t cage e hreg
  · intro hfull
    rcases h : getUnusedVirtualFd t cage e with _ | x
    · rfl
    rcases x with ⟨fd, t'⟩
    have hall := allotted_of_getUnused h
    exact absurd hall.free (hfull fd hall.lt)

theorem getSpecific_eq_none_iff (hreg : checkCageExists t cage = true) :
    getSpecificVirtualFd t cage fd e = none ↔ fdLimit T ≤ fd := by
  constructor
  · exact getSpecific_none t cage fd e hreg
  · intro hle
    rcases h : getSpecificVirtualFd t cage fd e with _ | t'
    · rfl
    have := (getSpecific_some t t' cage fd e h).2.1
    omega

theorem entryFails_pair (hreg : checkCageExists w.fds w.cage = true) :
    EntryFails w.fds w.cage a r (.pair cloexec) ↔ ¬ w.RoomFor a (.pair cloexec) := by
  rw [EntryFails, World.RoomFor, getUnused_eq_none_iff hreg]
  by_cases hread : a.call.readsPair a.copies = true
  · by_cases hcopy : a.copies.toCage 0 = true
    · simp only [hread, hcopy, Bool.true_eq_false, false_or, and_true]
      constructor
      · rintro (hfull | ⟨fd, t', hget, hget'⟩) ⟨fd1, fd2, hne, h1, h2⟩
        · exact not_full_of_free h1 hfull
        · have hall := allotted_of_getUnused hget
          exact not_full_of_allotted hne h1 h2 hall
            ((getUnused_eq_none_iff hall.registered).mp hget')
      · intro hfree
        cases hget : getUnusedVirtualFd w.fds w.cage
            (kernelEntry (r.pair.getD (0, 0)).1 a.call.recorded) with
        | none => exact .inl ((getUnused_eq_none_iff hreg).mp hget)
        | some x =>
          rcases x with ⟨fd, t'⟩
          have hall := allotted_of_getUnused hget
          exact .inr ⟨fd, t', rfl, (getUnused_eq_none_iff hall.registered).mpr
            (full_of_allotted hfree hall)⟩
    · simp [hcopy]
  · simp [hread]

end Room

section Failures

theorem direct_of_opens (h : a.call.meaning.opens = true) : a.call.sys.direct = true := by
  cases hdirect : a.call.sys.direct with
  | true => rfl
  | false =>
    have hinert := meaning_indirect hdirect
    cases hm : a.call.meaning with
    | use fds | poll | select fds | close fd | mark fd cloexec =>
      rw [hm] at h
      cases h
    | _ =>
      rw [hm] at hinert
      cases hinert

theorem refusable_of_opens (h : a.call.meaning.opens = true) : a.call.meaning.refusable = true := by
  cases hm : a.call.meaning with
  | close =>
    rw [hm] at h
    cases h
  | _ => rfl

theorem roomy_of_denied (h : Denied w.fds w.kernel w.cage a s) : w.Roomy a := by
  rcases h.cause with ⟨⟨fd, hfd, hnone⟩, -⟩ | ⟨-, -, hneg, -⟩ | ⟨fd, hfd, k, hname, hnone⟩
  · refine .inl ⟨fd, hfd, fun k hk => ?_⟩
    exact absurd (hk.symm.trans hnone) (by simp)
  · exact .inr (.inl hneg)
  refine .inl ⟨fd, hfd, fun k' hk' => ?_⟩
  rw [← Option.some.inj (hname.symm.trans hk')]
  exact hnone

theorem not_failed_of_denied (h : Denied w.fds w.kernel w.cage a s) : ¬ Failed w a s := by
  rintro ⟨req, r, hreq, hr, hret, -⟩
  exact Int.not_lt.mpr hret (h.negative req r hreq hr)

theorem roomFor_of_performed (hopens : a.call.meaning.opens = true)
    (hp : Performed w.fds w.kernel w.cage a req r s) : w.Roomy a ↔ w.RoomFor a a.call.meaning := by
  constructor
  · rintro (⟨fd, hfd, hdead⟩ | hneg | hroom)
    · rcases forall₂_iff_get.mp (descriptors_of_rename hp.renamed).2 with ⟨hlen, hget⟩
      rcases get_of_mem hfd with ⟨i, rfl⟩
      have hk := hget i.1 i.2 (hlen ▸ i.2)
      exact absurd (hdead _ hk) (hp.available _ (get_mem _ _))
    · exact absurd hneg (Int.not_lt.mpr (hp.accepted (refusable_of_opens hopens)))
    · exact hroom
  · exact fun hroom => .inr (.inr hroom)

theorem failed_iff_of_performed (hp : Performed w.fds w.kernel w.cage a req r s) :
    Failed w a s ↔ 0 ≤ r.ret ∧ EntryFails w.fds w.cage a r a.call.meaning := by
  have hforwarded : s.forwarded = some req := by rw [hp.served]
  constructor
  · rintro ⟨req', r', hreq, hr, hret, hfails⟩
    rw [hforwarded] at hreq
    cases hreq
    rw [hp.ran] at hr
    cases hr
    exact ⟨hret, hfails⟩
  · rintro ⟨hret, hfails⟩
    exact ⟨req, r, hforwarded, hp.ran, hret, hfails⟩

theorem nonneg_of_opened (hp : Performed w.fds w.kernel w.cage a req r s) (h : s.opened ≠ []) :
    0 ≤ r.ret := by
  rw [hp.opened_eq] at h
  refine ret_of_opened hp.performed ?_ h
  rw [refusable_of_rename hp.renamed]
  exact hp.accepted

omit [FdTables T] in
theorem not_clean_of_put {kernel : Descs} (hkernel : s.kernel = put kernel k x)
    (hk : k ∈ s.opened) : ¬ Clean w s := by
  intro h
  have := h.closed k hk
  rw [hkernel, put, update_self] at this
  cases this

variable [LawfulFdTables T]

section

variable (hreg : checkCageExists w.fds w.cage = true)
  (hp : Performed w.fds w.kernel w.cage a req r s)

include hreg hp

theorem opensOne_outcome (hs : OpensOne w.fds w.kernel w.cage a s k x)
    (hentry : EntryFails w.fds w.cage a r a.call.meaning ↔
      getUnusedVirtualFd w.fds w.cage (kernelEntry r.ret a.call.recorded) = none) :
    ((∃ fd, w.Free fd) → ¬ Failed w a s) ∧
      ((¬ ∃ fd, w.Free fd) → Failed w a s ∧ ¬ Clean w s) := by
  rw [failed_iff_of_performed hp, hentry, getUnused_eq_none_iff hreg, full_iff_not_free]
  have hopened : s.opened ≠ [] := by
    rw [hs.opened]
    exact cons_ne_nil k []
  refine ⟨fun hfree h => h.2 hfree, fun hfree => ⟨⟨nonneg_of_opened hp hopened, hfree⟩, ?_⟩⟩
  exact not_clean_of_put hs.kernel (by rw [hs.opened]; exact mem_singleton_self k)

theorem replace_outcome {old new : Nat} {strict : Bool}
    (hm : a.call.meaning = .replace old new cloexec strict) :
    (w.RoomFor a (.replace old new cloexec strict) → Failed w a s → Clean w s) ∧
      (¬ w.RoomFor a (.replace old new cloexec strict) → Failed w a s ∧ ¬ Clean w s) := by
  rw [failed_iff_of_performed hp, hm, EntryFails, getSpecific_eq_none_iff hreg, World.RoomFor]
  rcases performed_replace hp hm with ⟨k, x, hk, -, hs⟩
  cases hs with
  | refused code hfinal hkernel hopened hcode =>
    refine ⟨fun _ _ => ⟨⟨code, by rw [hfinal], ?_⟩, by rw [hfinal], ?_⟩, fun hroom => ?_⟩
    · rcases hcode with ⟨rfl, -⟩ | ⟨rfl, -, -⟩ <;> decide
    · rw [hopened]
      intro k' hk'
      cases hk'
    · rcases hcode with ⟨-, hle⟩ | ⟨-, rfl, -⟩
      · exact absurd (.inr (.inl hle)) hroom
      · exact absurd (.inr (.inr hk)) hroom
  | kept hfinal hkernel hopened hlt hknew =>
    refine ⟨fun _ hfailed => ?_, fun hroom => ?_⟩
    · rcases enterAt_cases hreg with ⟨t', -, hat⟩ | ⟨hat, -⟩
      · exact absurd hfailed.2 (Nat.not_le.mpr hat.lt)
      rw [hat] at hfinal
      refine ⟨⟨-emfile, by rw [hfinal], by decide⟩, by rw [hfinal], ?_⟩
      rw [hopened]
      intro k' hk'
      cases hk'
    · rw [← hknew] at hroom
      exact absurd (.inr (.inr hk)) hroom
  | placed hfinal hkernel hopened hlt hknew =>
    refine ⟨fun hroom hfailed => ?_, fun hroom => ⟨⟨?_, ?_⟩, ?_⟩⟩
    · rcases hroom with hroom | hroom | hroom
      · omega
      · omega
      · exact absurd (Option.some.inj (hk.symm.trans hroom)) hknew
    · exact nonneg_of_opened hp (by rw [hopened]; exact cons_ne_nil new [])
    · exact Nat.not_lt.mp fun h => hroom (.inl h)
    · exact not_clean_of_put hkernel (by rw [hopened]; exact mem_singleton_self new)

theorem pair_outcome (hm : a.call.meaning = .pair cloexec) :
    (w.RoomFor a (.pair cloexec) → ¬ Failed w a s) ∧
      (¬ w.RoomFor a (.pair cloexec) → Failed w a s ∧ ¬ Clean w s) := by
  rcases performed_pair hp hm with ⟨k1, k2, hs⟩
  rw [failed_iff_of_performed hp, hm, entryFails_pair hreg]
  have hopened : s.opened ≠ [] := by
    rw [hs.opened]
    exact cons_ne_nil k1 [k2]
  refine ⟨fun hroom h => h.2 hroom, fun hroom => ⟨⟨nonneg_of_opened hp hopened, hroom⟩, ?_⟩⟩
  refine not_clean_of_put hs.kernel ?_
  rw [hs.opened]
  exact mem_cons_of_mem k1 (mem_singleton_self k2)

theorem performed_outcome (hopens : a.call.meaning.opens = true) :
    (w.RoomFor a a.call.meaning → Failed w a s → Clean w s) ∧
      (¬ w.RoomFor a a.call.meaning → Failed w a s ∧ ¬ Clean w s) := by
  cases hm : a.call.meaning with
  | create =>
    rcases performed_create hp hm with ⟨k, hs⟩
    rcases opensOne_outcome hreg hp hs (by rw [hm]; rfl) with ⟨hroom, hfull⟩
    exact ⟨fun h hf => absurd hf (hroom h), hfull⟩
  | dup =>
    rcases performed_dup hp hm with ⟨kold, x, k, -, -, hs⟩
    rcases opensOne_outcome hreg hp hs (by rw [hm]; rfl) with ⟨hroom, hfull⟩
    exact ⟨fun h hf => absurd hf (hroom h), hfull⟩
  | replace => exact replace_outcome hreg hp hm
  | pair =>
    rcases pair_outcome hreg hp hm with ⟨hroom, hfull⟩
    exact ⟨fun h hf => absurd hf (hroom h), hfull⟩
  | _ =>
    rw [hm] at hopens
    cases hopens

end

theorem outcome_of_serve (h : Grounded w.fds w.cage) (hopens : a.call.meaning.opens = true)
    (hcage : a.call.argcages = fun _ => w.cage) (hs : serve w.grate w.fds w.kernel a = some s) :
    (w.Roomy a → Failed w a s → Clean w s) ∧ (¬ w.Roomy a → Failed w a s ∧ ¬ Clean w s) := by
  rcases serve_cases (direct_of_opens hopens) hcage h.bounded hs with hdenied | ⟨req, r, hp⟩
  · exact ⟨fun _ hfailed => absurd hfailed (not_failed_of_denied hdenied),
      fun hroom => absurd (roomy_of_denied hdenied) hroom⟩
  · rw [roomFor_of_performed hopens hp]
    exact performed_outcome h.registered hp hopens

end Failures

/-- In every state a run can lead to, a call that opens descriptors fails cleanly
    in case it fails after the kernel has done its part, exactly if it is roomy. -/
theorem fails_cleanly_iff [LawfulFdTables T] (h : Runs World.Start World.step (fun _ _ => True) w)
    (hopens : a.call.meaning.opens = true) (hcage : a.call.argcages = fun _ => w.cage)
    (hs : serve w.grate w.fds w.kernel a = some s) : (Failed w a s → Clean w s) ↔ w.Roomy a := by
  rcases outcome_of_serve (grounded_of_runs h) hopens hcage hs with ⟨hroomy, hcrowded⟩
  constructor
  · intro hclean
    by_contra hroom
    rcases hcrowded hroom with ⟨hfailed, hunclean⟩
    exact hunclean (hclean hfailed)
  · exact hroomy

/-- A file is copied to the number the kernel has for it, which is beyond the
    table: the one failure that leaves nothing behind. -/
theorem fails_cleanly_iff_dup2 :
    ∃ (w : World (MapTables 16)) (s : Served (MapTables 16)),
      w.names 3 = some 40 ∧
      serve w.grate w.fds w.kernel (sampleCall .dup2 [3, 40] 0 0) = some s ∧
      Failed w (sampleCall .dup2 [3, 40] 0 0) s ∧
      ((Failed w (sampleCall .dup2 [3, 40] 0 0) s → Clean w s) ↔
        w.Roomy (sampleCall .dup2 [3, 40] 0 0)) := by
  have hrun : ∃ w : World (MapTables 16), Runs World.Start World.step (fun _ _ => True) w ∧
      w.cage = 1 ∧ w.names 3 = some 40 ∧
      ∃ s, serve w.grate w.fds w.kernel (sampleCall .dup2 [3, 40] 0 0) = some s ∧
        ∃ req, s.forwarded = some req ∧
          ∃ r, kernelServe w.kernel req (sampleCall .dup2 [3, 40] 0 0) = some r ∧ 0 ≤ r.ret ∧
            (getSpecificVirtualFd w.fds w.cage 40 (kernelEntry r.ret false)).isNone = true :=
    exists_runs_replay [sampleCall .open [] 10 40] start_standardWorld (by decide +kernel)
  rcases hrun with ⟨w, hw, hcage, hname, s, hs, req, hforwarded, r, hran, hret, hnone⟩
  exact ⟨w, s, hname, hs, ⟨req, r, hforwarded, hran, hret, Option.isNone_iff_eq_none.mp hnone⟩,
    fails_cleanly_iff hw rfl (by rw [hcage]; rfl) hs⟩

/-- Twelve files are opened, which leaves one number of sixteen. -/
def crowdedRun : List Action :=
  (List.range 12).map fun i => sampleCall .open [] (10 + i) (40 + i)

/-- A pipe for which the table has one number left: the handler panics, its first
    end has been entered and the kernel keeps both open. -/
theorem pipe_fails_halfway :
    ∃ (w : World (MapTables 16)) (s : Served (MapTables 16)),
      Runs World.Start World.step (fun _ _ => True) w ∧
      serve w.grate w.fds w.kernel (sampleCall .pipe [] 30 60) = some s ∧
      Failed w (sampleCall .pipe [] 30 60) s ∧ ¬ Clean w s ∧
      s.final.ret = .error .panic ∧ w.names 15 = none ∧ nameOf s.final.fds 1 15 = some 60 ∧
      s.opened = [60, 61] ∧ s.kernel 60 ≠ none ∧ s.kernel 61 ≠ none := by
  have hrun : ∃ w : World (MapTables 16), Runs World.Start World.step (fun _ _ => True) w ∧
      w.cage = 1 ∧ ¬ w.FreePair ∧ w.names 15 = none ∧
      ∃ s, serve w.grate w.fds w.kernel (sampleCall .pipe [] 30 60) = some s ∧
        s.final.ret = .error .panic ∧ nameOf s.final.fds 1 15 = some 60 ∧
        s.opened = [60, 61] ∧ s.kernel 60 ≠ none ∧ s.kernel 61 ≠ none :=
    exists_runs_replay crowdedRun start_standardWorld (by decide +kernel)
  rcases hrun with ⟨w, hw, hcage, hfree, hnone, s, hs, hret, hentered, hopened, hk₁, hk₂⟩
  have hroom : ¬ w.Roomy (sampleCall .pipe [] 30 60) := by
    rintro (⟨fd, hfd, -⟩ | hneg | hroom)
    · cases hfd
    · exact absurd hneg (by decide)
    · exact hfree hroom.1
  rcases (outcome_of_serve (grounded_of_runs hw) rfl (by rw [hcage]; rfl) hs).2 hroom with
    ⟨hfailed, hunclean⟩
  exact ⟨w, s, hw, hs, hfailed, hunclean, hret, hnone, hentered, hopened, hk₁, hk₂⟩

end FdSupport

end LindGrates
