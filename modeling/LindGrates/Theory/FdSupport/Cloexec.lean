import LindGrates.Theory.FdSupport.Grounded

/-!
# Close-on-exec Flags

The table of a cage has a close-on-exec flag for each of its numbers, and the
kernel has one for the descriptor behind it. The two agree as long as the calls
of the cage stay clear of what the handlers get wrong. `accept4` has its flags at
the fourth position, and the handler reads the fifth. `F_SETFD` is passed on and
not recorded. A `dup2` that copies a descriptor to itself leaves the kernel's flag
alone and clears the recorded one. The target of a `dup2` or `dup3` may be the
kernel's number for another number of the cage, whose flag then changes. A pipe
that cannot be copied from the cage is entered under the number 0.

## Main definitions

* `Flagged`: What the table records is what the kernel has.
* `FlagSafe`: What a call has to avoid.

## Theorems

* `recorded_eq`: The flag the handler records.
* `cloexec_recorded`: The flags agree in every run of safe calls.
* `cloexec_misread`: Flags of accepted connections that are recorded wrongly.
-/

namespace LindGrates

open FdTables LawfulFdTables Posix Function Option FdSupport.Request

variable {new fd old : Nat} {cloexec : Bool}

/-- The flag a call asks for on what it opens. -/
def Posix.Meaning.flag : Meaning → Option Bool
  | .create _ cloexec | .dup _ _ cloexec | .replace _ _ cloexec _ | .pair cloexec => some cloexec
  | _ => none

namespace FdSupport

variable {T : Type} [FdTables T] {w w' : World T} {a : Action} {s : Served T} {req : Request}
  {r : Result} {call : Request}

def kernelFlags (d : Descs) (fd : Nat) : Option Bool :=
  (d fd).map Desc.cloexec

def recordedFlags (t : T) (cage fd : Nat) : Option Bool :=
  (translateVirtualFd t cage fd).map FDTableEntry.shouldCloexec

/-- What the table records is what the kernel has. -/
structure Flagged (t : T) (cage : Nat) (kernel : Descs) : Prop where
  grounded : Grounded t cage
  renames : Renames (nameOf t cage) (recordedFlags t cage) (kernelFlags kernel)

/-- What a performed call has to avoid, by its meaning. -/
def World.FlagSafeAs (w : World T) : Meaning → Prop
  | .mark fd cloexec => recordedFlags w.fds w.cage fd = some cloexec
  | .replace old new _ _ =>
    (∀ fd, w.names fd = some new → fd = new) ∧
      (old = new → recordedFlags w.fds w.cage new = some false)
  | _ => True

/-- What a call has to avoid. A call that names a closed descriptor or is refused
    has nothing to avoid. -/
structure FlagSafe (w : World T) (a : Action) : Prop where
  position : a.call.sys = .accept4 → hasCloexec (a.call.args 3) = hasCloexec (a.call.args 4)
  safe : (∀ fd ∈ a.call.meaning.needed, w.names fd ≠ none) → 0 ≤ a.answer.ret →
    w.FlagSafeAs a.call.meaning
  copied : a.call.sys = .pipe ∨ a.call.sys = .pipe2 → 0 ≤ a.answer.ret →
    a.copies.fromCage 0 = true

section Decidable

variable [LawfulFdTables T]

theorem forall_names_iff :
    (∀ fd, w.names fd = some new → fd = new) ↔
      ∀ fd ∈ List.range (fdLimit T), w.names fd = some new → fd = new := by
  refine ⟨fun h fd _ => h fd, fun h fd hfd => h fd (List.mem_range.mpr ?_) hfd⟩
  rcases map_eq_some_iff.mp hfd with ⟨e, he, -⟩
  exact lt_limit _ _ _ e he

instance (w : World T) : (m : Meaning) → Decidable (w.FlagSafeAs m)
  | .mark fd cloexec => inferInstanceAs (Decidable (recordedFlags w.fds w.cage fd = some cloexec))
  | .replace old new _ _ =>
    have : Decidable (∀ fd, w.names fd = some new → fd = new) :=
      decidable_of_iff' _ forall_names_iff
    inferInstanceAs (Decidable ((∀ fd, w.names fd = some new → fd = new) ∧
      (old = new → recordedFlags w.fds w.cage new = some false)))
  | .use _ | .poll | .select _ | .close _ | .create _ _ | .dup _ _ _ | .pair _ =>
    inferInstanceAs (Decidable True)

omit [LawfulFdTables T] in
theorem flagSafe_iff :
    FlagSafe w a ↔
      (a.call.sys = .accept4 → hasCloexec (a.call.args 3) = hasCloexec (a.call.args 4)) ∧
        ((∀ fd ∈ a.call.meaning.needed, w.names fd ≠ none) → 0 ≤ a.answer.ret →
          w.FlagSafeAs a.call.meaning) ∧
        (a.call.sys = .pipe ∨ a.call.sys = .pipe2 → 0 ≤ a.answer.ret →
          a.copies.fromCage 0 = true) :=
  ⟨fun h => ⟨h.position, h.safe, h.copied⟩, fun h => ⟨h.1, h.2.1, h.2.2⟩⟩

instance (w : World T) (a : Action) : Decidable (FlagSafe w a) :=
  decidable_of_iff' _ flagSafe_iff

end Decidable

/-- The handler records the flag the call asks for, with the exception of
    `accept4`. -/
theorem recorded_eq
    (hpos : call.sys = .accept4 → hasCloexec (call.args 3) = hasCloexec (call.args 4))
    (hflag : call.meaning.flag = some cloexec) : call.recorded = cloexec := by
  cases hsys : call.sys with
  | accept4 =>
    simp only [meaning, hsys, Meaning.flag, Option.some.injEq] at hflag
    rw [recorded, hsys, ← hflag, hpos hsys]
  | fcntl =>
    simp only [meaning, hsys] at hflag
    simp only [recorded, hsys]
    by_cases hdup : (call.args 1).setWidth 32 = fDupfd
    · rw [if_pos hdup] at hflag
      cases hflag
      rw [hdup]
      rfl
    rw [if_neg hdup] at hflag
    by_cases hcloexec : (call.args 1).setWidth 32 = fDupfdCloexec
    · rw [if_pos hcloexec] at hflag
      cases hflag
      exact decide_eq_true hcloexec
    · rw [if_neg hcloexec] at hflag
      split at hflag <;> cases hflag
  | _ =>
    simp only [meaning, hsys, Meaning.flag, Option.some.injEq, reduceCtorEq] at hflag <;>
    simp only [recorded, hsys, hflag]

/-- The handler sees the sockets of a pair in its own memory, and a pipe in that
    of the cage. -/
theorem readsPair_of_copied {copies : Copies} (hm : call.meaning = .pair cloexec)
    (hcopied : call.sys = .pipe ∨ call.sys = .pipe2 → copies.fromCage 0 = true) :
    call.readsPair copies = true := by
  cases hsys : call.sys with
  | socketpair => rw [readsPair, hsys]; rfl
  | pipe => rw [readsPair, hcopied (.inl hsys), Bool.or_true]
  | pipe2 => rw [readsPair, hcopied (.inr hsys), Bool.or_true]
  | fcntl =>
    simp only [meaning, hsys] at hm
    split_ifs at hm
  | _ => simp only [meaning, hsys, reduceCtorEq] at hm

section Changes

variable {t t' : T} {cage fd k : Nat} {kernel : Descs} {x : Desc}

theorem kernelFlags_put (x : Desc) :
    kernelFlags (put kernel k x) = update (kernelFlags kernel) k (some x.cloexec) :=
  comp_update (Option.map Desc.cloexec) kernel k (some x)

theorem kernelFlags_erase :
    kernelFlags (update kernel k none) = update (kernelFlags kernel) k none :=
  comp_update (Option.map Desc.cloexec) kernel k none

theorem recordedFlags_of_update {e : Option FDTableEntry}
    (h : translateVirtualFd t' cage = update (translateVirtualFd t cage) fd e) :
    recordedFlags t' cage =
      update (recordedFlags t cage) fd (e.map FDTableEntry.shouldCloexec) := by
  have hmap := comp_update (Option.map FDTableEntry.shouldCloexec)
    (translateVirtualFd t cage) fd e
  rw [← h] at hmap
  exact hmap

theorem flagged_insert (h : Flagged t cage kernel)
    (hent : Entered t cage fd (kernelEntry k x.cloexec) t')
    (hk : ∀ fd' ≠ fd, nameOf t cage fd' ≠ some k) (hlt : k < 2 ^ 31) :
    Flagged t' cage (put kernel k x) := by
  refine ⟨grounded_entered h.grounded hent hlt, ?_⟩
  rw [nameOf_of_entered hent hlt, recordedFlags_of_update hent.entry, kernelFlags_put]
  exact renames_insert h.renames hk

theorem flagged_spare (h : Flagged t cage kernel) (hk : ∀ fd, nameOf t cage fd ≠ some k)
    (x : Desc) : Flagged t cage (put kernel k x) := by
  refine ⟨h.grounded, ?_⟩
  rw [kernelFlags_put]
  exact renames_spare h.renames hk

theorem Flagged.ne_of_free (h : Flagged t cage kernel) (hk : kernel k = none) (fd : Nat) :
    nameOf t cage fd ≠ some k :=
  ne_of_inner_eq_none h.renames (map_eq_none_iff.mpr hk) fd

variable [LawfulFdTables T]

theorem flagged_close (h : Flagged t cage kernel) (hk : nameOf t cage fd = some k) :
    Flagged ((closeVirtualfd t cage fd).getD t) cage (update kernel k none) := by
  refine ⟨grounded_close h.grounded, ?_⟩
  rcases hclose : closeVirtualfd t cage fd with _ | _
  · rw [nameOf_of_none (close_none _ _ _ hclose)] at hk
    cases hk
  have hlook := translate_of_close hclose
  rw [getD_some, nameOf_of_update hlook, recordedFlags_of_update hlook, kernelFlags_erase]
  exact renames_erase h.renames hk

theorem flagged_enterOne (h : Flagged t cage kernel) (hk : kernel k = none) (hlt : k < 2 ^ 31)
    (x : Desc) : Flagged (enterOne t cage k x.cloexec).fds cage (put kernel k x) := by
  rcases enterOne_cases h.grounded.registered with ⟨fd, t', hent, hall⟩ | ⟨hent, -⟩
  · rw [hent]
    exact flagged_insert h hall.toEntered (fun fd' _ => h.ne_of_free hk fd') hlt
  · rw [hent]
    exact flagged_spare h (h.ne_of_free hk) x

theorem flagged_enterPair {k1 k2 : Nat} {x1 x2 : Desc} {copied : Bool} {ret : Int}
    (h : Flagged t cage kernel) (hk1 : kernel k1 = none) (hlt1 : k1 < 2 ^ 31)
    (hk2 : put kernel k1 x1 k2 = none) (hlt2 : k2 < 2 ^ 31) (hx1 : x1.cloexec = cloexec)
    (hx2 : x2.cloexec = cloexec) :
    Flagged (enterPair t cage (k1, k2) cloexec copied ret).fds cage
      (put (put kernel k1 x1) k2 x2) := by
  have hpair := enterPair_cases h.grounded.registered (k1, k2) cloexec copied ret
  have hspare := flagged_spare h (h.ne_of_free hk1) x1
  have hfirst : ∀ {fd1 t1}, Allotted t cage fd1 (kernelEntry k1 cloexec) t1 →
      Flagged t1 cage (put kernel k1 x1) := by
    intro fd1 t1 hall
    rw [← hx1] at hall
    exact flagged_insert h hall.toEntered (fun fd' _ => h.ne_of_free hk1 fd') hlt1
  have hboth : ∀ {fd1 fd2 t1 t2}, Allotted t cage fd1 (kernelEntry k1 cloexec) t1 →
      Allotted t1 cage fd2 (kernelEntry k2 cloexec) t2 →
      Flagged t2 cage (put (put kernel k1 x1) k2 x2) := by
    intro fd1 fd2 t1 t2 hall1 hall2
    have h1 := hfirst hall1
    rw [← hx2] at hall2
    exact flagged_insert h1 hall2.toEntered (fun fd' _ => h1.ne_of_free hk2 fd') hlt2
  generalize enterPair t cage (k1, k2) cloexec copied ret = final at hpair
  cases hpair with
  | neither => exact flagged_spare hspare (hspare.ne_of_free hk2) x2
  | first _ _ hall =>
    have h1 := hfirst hall
    exact flagged_spare h1 (h1.ne_of_free hk2) x2
  | both _ _ _ _ hall1 hall2 => exact hboth hall1 hall2

end Changes

section Step

theorem flagged_start (h : World.Start w) : Flagged w.fds w.cage w.kernel := by
  have hm := mirrors_start h
  refine ⟨⟨hm.registered, hm.bounded⟩, fun fd => ?_, fun fd k hk => ?_, hm.renames.injective⟩
  · by_cases hlt : fd < 3
    · rcases h.standard fd hlt with ⟨x, hlook, hkernel, -⟩
      have hname := names_start h fd
      rw [if_pos hlt] at hname
      rw [show nameOf w.fds w.cage fd = some fd from hname, bind_some, recordedFlags, hlook,
        kernelFlags, hkernel]
      rfl
    have hnone := (h.closed fd (Nat.not_lt.mp hlt)).1
    rw [nameOf_of_none hnone, recordedFlags, hnone]
    rfl
  · exact fun hnone => hm.backed hk (map_eq_none_iff.mp hnone)

variable {cloexec : Bool}

theorem flagged_mark (h : Flagged w.fds w.cage w.kernel)
    (hm : a.call.meaning = .mark fd cloexec) (hflag : recordedFlags w.fds w.cage fd = some cloexec)
    (hp : Performed w.fds w.kernel w.cage a req r s) : Flagged s.final.fds w.cage s.kernel := by
  rcases performed_mark hp hm with ⟨k, x, hk, -, hkernel, -, hfinal⟩
  have hsame : kernelFlags (put w.kernel k ⟨x.object, cloexec⟩) = kernelFlags w.kernel := by
    rw [kernelFlags_put, ← hflag, outer_of_names h.renames hk]
    exact update_eq_self k _
  refine ⟨by rw [hfinal]; exact h.grounded, ?_⟩
  rw [hfinal, hkernel, hsame]
  exact h.renames

theorem flagged_reenter {t' : T} (h : Flagged w.fds w.cage w.kernel)
    (hent : Entered w.fds w.cage fd (kernelEntry fd false) t') (hlt : fd < 2 ^ 31)
    (hname : w.names fd = some fd) (hflag : recordedFlags w.fds w.cage fd = some false) :
    Flagged t' w.cage w.kernel := by
  refine ⟨grounded_entered h.grounded hent hlt, ?_⟩
  have hnames : nameOf t' w.cage = nameOf w.fds w.cage := by
    rw [nameOf_of_entered hent hlt, ← hname]
    exact update_eq_self fd w.names
  have hflags : recordedFlags t' w.cage = recordedFlags w.fds w.cage := by
    have hself := update_eq_self fd (recordedFlags w.fds w.cage)
    rw [hflag] at hself
    rw [recordedFlags_of_update hent.entry]
    exact hself
  rw [hnames, hflags]
  exact h.renames

theorem flag_of_not_strict (hm : call.meaning = .replace old new cloexec false) :
    cloexec = false := by
  cases hsys : call.sys with
  | dup2 =>
    simp only [meaning, hsys, Meaning.replace.injEq] at hm
    exact hm.2.2.1.symm
  | fcntl =>
    simp only [meaning, hsys] at hm
    split at hm
    · cases hm
    split at hm
    · cases hm
    · split at hm <;> cases hm
  | _ =>
    simp only [meaning, hsys, Meaning.replace.injEq, reduceCtorEq, Bool.true_eq_false,
      and_false] at hm

variable [LawfulFdTables T]

theorem flagged_replace {strict : Bool} (h : Flagged w.fds w.cage w.kernel)
    (hm : a.call.meaning = .replace old new cloexec strict) (hrec : a.call.recorded = cloexec)
    (hnew : ∀ fd, w.names fd = some new → fd = new)
    (hself : old = new → recordedFlags w.fds w.cage new = some false)
    (hflag : strict = false → cloexec = false) (hp : Performed w.fds w.kernel w.cage a req r s) :
    Flagged s.final.fds w.cage s.kernel := by
  rcases performed_replace hp hm with ⟨k, x, hk, -, hs⟩
  cases hs with
  | refused _ hfinal hkernel =>
    rw [hfinal, hkernel]
    exact h
  | kept hfinal hkernel _ hlt hknew hstrict =>
    rw [hknew] at hk
    have hold := hnew old hk
    rw [hfinal, hkernel, hrec, hflag hstrict]
    rcases enterAt_cases h.grounded.registered with ⟨t', hent, hat⟩ | ⟨hent, -⟩
    · rw [hent]
      exact flagged_reenter h hat hlt (hold ▸ hk) (hself hold)
    · rw [hent]
      exact h
  | placed hfinal hkernel _ hlt =>
    rw [hfinal, hkernel, hrec]
    rcases enterAt_cases h.grounded.registered with ⟨t', hent, hat⟩ | ⟨hent, hle⟩
    · rw [hent]
      exact flagged_insert h hat (fun fd' hne hfd' => hne (hnew fd' hfd')) hlt
    rw [hent]
    refine flagged_spare h (fun fd hfd => ?_) _
    rcases map_eq_some_iff.mp hfd with ⟨e, he, -⟩
    have := lt_limit _ _ _ _ he
    have := hnew fd hfd
    omega

theorem flagged_performed (h : Flagged w.fds w.cage w.kernel) (hsafe : FlagSafe w a)
    (hp : Performed w.fds w.kernel w.cage a req r s) : Flagged s.final.fds w.cage s.kernel := by
  have has : a.call.meaning.refusable = true → w.FlagSafeAs a.call.meaning := fun href =>
    hsafe.safe (performed_open hp) (hp.accepted href)
  cases hm : a.call.meaning with
  | use fds | poll | select fds =>
    rcases performed_inert hp (by rw [hm]; rfl) with ⟨hfinal, hkernel, -⟩
    rw [hfinal, hkernel]
    exact h
  | close =>
    rcases performed_close hp hm with ⟨k, hk, hkernel, -, hfinal⟩
    rw [hfinal, hkernel]
    exact flagged_close h hk
  | create _ cloexec =>
    rcases performed_create hp hm with ⟨k, hs⟩
    rw [hs.final, hs.kernel, recorded_eq hsafe.position (by rw [hm]; rfl)]
    exact flagged_enterOne h hs.free hs.lt ⟨a.answer.object₁, cloexec⟩
  | dup _ _ cloexec =>
    rcases performed_dup hp hm with ⟨kold, x, k, -, -, hs⟩
    rw [hs.final, hs.kernel, recorded_eq hsafe.position (by rw [hm]; rfl)]
    exact flagged_enterOne h hs.free hs.lt ⟨x.object, cloexec⟩
  | replace =>
    rw [hm] at has
    refine flagged_replace h hm (recorded_eq hsafe.position (by rw [hm]; rfl)) (has rfl).1
      (has rfl).2 (fun hstrict => ?_) hp
    exact flag_of_not_strict (hstrict ▸ hm)
  | mark =>
    rw [hm] at has
    exact flagged_mark h hm (has rfl) hp
  | pair cloexec =>
    rcases performed_pair hp hm with ⟨k1, k2, hs⟩
    have hread : a.call.readsPair a.copies = true :=
      readsPair_of_copied hm fun hsys => hsafe.copied hsys (hp.accepted (by rw [hm]; rfl))
    rw [hs.final, hs.kernel, recorded_eq hsafe.position (by rw [hm]; rfl), seenPair, if_pos hread]
    exact flagged_enterPair h hs.free₁ hs.lt₁ hs.free₂ hs.lt₂ rfl rfl

theorem flagged_step (h : Flagged w.fds w.cage w.kernel) (hsafe : FlagSafe w a)
    (hstep : w.step a = some w') : Flagged w'.fds w'.cage w'.kernel := by
  rcases step_cases hstep with ⟨hcage, s, hs, rfl⟩
  change Flagged s.final.fds w.cage s.kernel
  cases hdirect : a.call.sys.direct with
  | true =>
    rcases serve_cases hdirect hcage h.grounded.bounded hs with hdenied | ⟨req, r, hp⟩
    · rw [hdenied.fds, hdenied.unchanged]
      exact h
    · exact flagged_performed h hsafe hp
  | false =>
    rcases serve_indirect hdirect hs with ⟨hfds, hkernel, -⟩
    rw [hfds, hkernel]
    exact h

end Step

/-- In every run of calls that are safe, the flag recorded for each open number is
    the flag of the kernel descriptor behind it. -/
theorem cloexec_recorded [LawfulFdTables T] (h : Runs World.Start World.step FlagSafe w) :
    ∀ fd e, translateVirtualFd w.fds w.cage fd = some e →
      ∃ x, w.kernel e.underfd = some x ∧ e.shouldCloexec = x.cloexec := by
  have hflagged := runs_inv (I := fun w => Flagged w.fds w.cage w.kernel)
    (fun _ => flagged_start) (fun _ _ _ hi hc hs => flagged_step hi hc hs) w h
  intro fd e he
  have hflag := outer_of_names hflagged.renames (nameOf_of_some he)
  rw [recordedFlags, he, map_some, kernelFlags] at hflag
  rcases map_eq_some_iff.mp hflag.symm with ⟨x, hx, hx'⟩
  exact ⟨x, hx, hx'.symm⟩

/-- Descriptors are opened, accepted, copied and replaced with flags and without
    them, and a flag is set that is set already. -/
def flaggedRun : List Action :=
  [sampleCall .open [0, 0o2000000] 10 40, sampleCall .socket [1, 1, 0] 11 41,
    sampleCall .accept4 [4, 0, 0, 0] 12 42, sampleCall .fcntl [3, 1030, 0] 0 43,
    sampleCall .dup3 [3, 9, 0o2000000] 0 0, sampleCall .dup2 [3, 4] 0 0,
    sampleCall .fcntl [3, 2, 1] 0 0, sampleCall .pipe2 [0, 0o2000000] 20 50]

theorem cloexec_recorded_flaggedRun :
    ∃ w : World (MapTables 16),
      [3, 4, 5, 6, 7, 8, 9].map (recordedFlags w.fds 1) =
        [some true, some false, some false, some true, some true, some true, some true] ∧
      ∀ fd e, translateVirtualFd w.fds w.cage fd = some e →
        ∃ x, w.kernel e.underfd = some x ∧ e.shouldCloexec = x.cloexec := by
  have hrun : ∃ w : World (MapTables 16), Runs World.Start World.step FlagSafe w ∧
      [3, 4, 5, 6, 7, 8, 9].map (recordedFlags w.fds 1) =
        [some true, some false, some false, some true, some true, some true, some true] :=
    exists_runs_replay flaggedRun start_standardWorld (by decide +kernel)
  rcases hrun with ⟨w, hw, hflags⟩
  exact ⟨w, hflags, cloexec_recorded hw⟩

/-- A connection is accepted without a flag and with one, each time with the other
    value in the word behind the arguments, and the flag of a file is set. -/
def misreadRun : List Action :=
  [sampleCall .socket [1, 1, 0] 11 41, sampleCall .accept4 [3, 0, 0, 0, 0o2000000] 12 42,
    sampleCall .accept4 [3, 0, 0, 0o2000000, 0] 13 43, sampleCall .open [] 14 44,
    sampleCall .fcntl [6, 2, 1] 0 0]

/-- None of the three is recorded as it is. -/
theorem cloexec_misread :
    ∃ w : World (MapTables 16), Runs World.Start World.step (fun _ _ => True) w ∧
      (recordedFlags w.fds 1 4 = some true ∧ kernelFlags w.kernel 42 = some false) ∧
      (recordedFlags w.fds 1 5 = some false ∧ kernelFlags w.kernel 43 = some true) ∧
      (recordedFlags w.fds 1 6 = some false ∧ kernelFlags w.kernel 44 = some true) ∧
      [4, 5, 6].map w.names = [some 42, some 43, some 44] :=
  exists_runs_replay misreadRun start_standardWorld (by decide +kernel)

end FdSupport

end LindGrates
