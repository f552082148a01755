import LindGrates.Base.Renames
import LindGrates.Theory.FdSupport.Pointers

/-!
# A Renaming of the Kernel's Descriptors

Each call is compared with what it would do without the handlers, by the meaning
it has in both places. A number in `dup2` or `dup3` is passed on as it is, so the
kernel has to have it for the same descriptor or have it free. A call that opens a
descriptor has to find room in the table, since what the kernel opened is not closed
again. `F_DUPFD` takes the lowest number whatever bound it is given.

## Main definitions

* `Mirrors`: The tables rename the descriptors the kernel has for a cage onto those the
  cage would have on its own.
* `Fits`: What a call has to avoid.

## Theorems

* `follows_direct`: A call that fits does the same with the handlers and without them.
-/

namespace LindGrates.FdSupport

open FdTables LawfulFdTables Posix Function Option World

def objects (d : Descs) (fd : Nat) : Option Nat :=
  (d fd).map Desc.object

section Views

variable {d : Descs} {fd : Nat}

theorem objects_put (x : Desc) : objects (put d fd x) = update (objects d) fd (some x.object) :=
  comp_update (Option.map Desc.object) d fd (some x)

theorem objects_erase : objects (update d fd none) = update (objects d) fd none :=
  comp_update (Option.map Desc.object) d fd none

theorem objects_eq_none : objects d fd = none ↔ d fd = none :=
  map_eq_none_iff

end Views

variable {T : Type} [FdTables T] {w w' : World T} {a : Action} {s : Served T}

/-- The tables rename the kernel's descriptors onto those the cage would have on
    its own. -/
structure Mirrors (w : World T) : Prop where
  registered : checkCageExists w.fds w.cage = true
  small : ∀ k, w.kernel k ≠ none → k < 2 ^ 31
  renames : Renames w.names (objects w.native) (objects w.kernel)
  covers : Covers w.names (objects w.kernel)

/-- A number means the same to the cage and to the kernel. -/
def World.Fixed (w : World T) (fd : Nat) : Prop :=
  Stands w.names w.kernel fd fd

def World.Free (w : World T) (fd : Nat) : Prop :=
  fd < fdLimit T ∧ w.names fd = none

def World.FreePair (w : World T) : Prop :=
  ∃ fd₁ fd₂, fd₁ ≠ fd₂ ∧ w.Free fd₁ ∧ w.Free fd₂

/-- What a call that the kernel will perform has to avoid, by its meaning. -/
def World.AvoidsAs (w : World T) (a : Action) : Meaning → Prop
  | .create _ _ => ∃ fd, w.Free fd
  | .dup _ start _ => (∃ fd, w.Free fd) ∧ ∀ fd < start, w.names fd ≠ none
  | .replace _ new _ _ => new < fdLimit T ∧ w.Fixed new
  | .pair _ => w.FreePair ∧ a.call.readsPair a.copies = true ∧ a.copies.toCage 0 = true
  | _ => True

def World.Avoids (w : World T) (a : Action) : Prop :=
  w.AvoidsAs a a.call.meaning

/-- What a call has to avoid. A call that names a closed descriptor or is refused
    has nothing to avoid, and neither has one that opens and replaces nothing,
    besides `symlinkat` and a `poll` whose array cannot be copied. -/
structure Fits (w : World T) (a : Action) : Prop where
  avoids : (∀ fd ∈ a.call.meaning.needed, w.names fd ≠ none) → 0 ≤ a.answer.ret → w.Avoids a
  placed : a.call.sys = .symlinkat →
    (a.call.args 0 = atFdcwd ∨ w.names (a.call.args 0).toNat = some (a.call.args 0).toNat) ∧
      (a.call.args 1 = atFdcwd ∨ w.Fixed (a.call.args 1).toNat)
  copied : a.call.sys = .poll ∨ a.call.sys = .ppoll → 0 < a.call.nfds →
    a.copies.fromCage 0 = true

section Decidable

instance (w : World T) : Decidable (∃ fd, w.Free fd) :=
  inferInstanceAs (Decidable (∃ fd, fd < fdLimit T ∧ w.names fd = none))

theorem freePair_iff :
    w.FreePair ↔ ∃ fd1, fd1 < fdLimit T ∧ ∃ fd2, fd2 < fdLimit T ∧
      fd1 ≠ fd2 ∧ w.names fd1 = none ∧ w.names fd2 = none := by
  constructor
  · rintro ⟨fd1, fd2, hne, h1, h2⟩
    exact ⟨fd1, h1.1, fd2, h2.1, hne, h1.2, h2.2⟩
  · rintro ⟨fd1, h1, fd2, h2, hne, hn1, hn2⟩
    exact ⟨fd1, fd2, hne, ⟨h1, hn1⟩, h2, hn2⟩

instance (w : World T) : Decidable w.FreePair :=
  decidable_of_iff' _ freePair_iff

instance (names : Nat → Option Nat) (kernel : Descs) (fd k : Nat) :
    Decidable (Stands names kernel fd k) :=
  inferInstanceAs (Decidable (_ ∨ _ ∧ _))

instance (w : World T) (fd : Nat) : Decidable (w.Fixed fd) :=
  inferInstanceAs (Decidable (Stands w.names w.kernel fd fd))

instance (w : World T) (a : Action) : (m : Meaning) → Decidable (w.AvoidsAs a m)
  | .create _ _ => inferInstanceAs (Decidable (∃ fd, w.Free fd))
  | .dup _ start _ =>
    inferInstanceAs (Decidable ((∃ fd, w.Free fd) ∧ ∀ fd < start, w.names fd ≠ none))
  | .replace _ new _ _ => inferInstanceAs (Decidable (new < fdLimit T ∧ w.Fixed new))
  | .pair _ => inferInstanceAs (Decidable
      (w.FreePair ∧ a.call.readsPair a.copies = true ∧ a.copies.toCage 0 = true))
  | .use _ | .poll | .select _ | .close _ | .mark _ _ => inferInstanceAs (Decidable True)

instance (w : World T) (a : Action) : Decidable (w.Avoids a) :=
  inferInstanceAs (Decidable (w.AvoidsAs a a.call.meaning))

theorem fits_iff :
    Fits w a ↔
      ((∀ fd ∈ a.call.meaning.needed, w.names fd ≠ none) → 0 ≤ a.answer.ret → w.Avoids a) ∧
        (a.call.sys = .symlinkat →
          (a.call.args 0 = atFdcwd ∨ w.names (a.call.args 0).toNat = some (a.call.args 0).toNat) ∧
            (a.call.args 1 = atFdcwd ∨ w.Fixed (a.call.args 1).toNat)) ∧
        (a.call.sys = .poll ∨ a.call.sys = .ppoll → 0 < a.call.nfds →
          a.copies.fromCage 0 = true) :=
  ⟨fun h => ⟨h.avoids, h.placed, h.copied⟩, fun h => ⟨h.1, h.2.1, h.2.2⟩⟩

instance (w : World T) (a : Action) : Decidable (Fits w a) :=
  decidable_of_iff' _ fits_iff

end Decidable

variable {fd : Nat}

theorem Mirrors.backed (h : Mirrors w) {k : Nat} (hk : w.names fd = some k) : w.kernel k ≠ none :=
  fun hnone => h.renames.backed fd k hk (objects_eq_none.mpr hnone)

theorem Mirrors.bounded (h : Mirrors w) : Bounded w.fds w.cage :=
  fun _ k hk => h.small k (h.backed hk)

theorem Mirrors.native_eq_none (h : Mirrors w) (fd : Nat) :
    w.native fd = none ↔ w.names fd = none := by
  rw [← objects_eq_none, outer_eq_none_iff h.renames]

theorem names_eq_none : w.names fd = none ↔ translateVirtualFd w.fds w.cage fd = none :=
  map_eq_none_iff

theorem not_full_of_free (hfree : w.Free fd) : ¬ Full w.fds w.cage :=
  fun hfull => hfull fd hfree.1 (names_eq_none.mp hfree.2)

/-- What a call does without the handlers. -/
def World.alone (w : World T) (a : Action) : Result :=
  a.call.meaning.native (fdLimit T) w.native a.answer

def World.become (w : World T) (fds : T) (kernel native : Descs) : World T :=
  { w with fds := fds, kernel := kernel, native := native }

/-- A call does the same with the handlers and without them. -/
structure Follows (w : World T) (a : Action) (s : Served T) : Prop where
  mirrors : Mirrors (w.become s.final.fds s.kernel (w.alone a).descs)
  ret : s.final.ret = .ok (w.alone a).ret
  pair : s.final.out.pair = (w.alone a).pair

section Changes

variable {t' : T} {fd k : Nat} {x y : Desc} {cloexec : Bool}

theorem nameOf_of_entered {t : T} {cage : Nat} (h : Entered t cage fd (kernelEntry k cloexec) t')
    (hk : k < 2 ^ 31) : nameOf t' cage = update (nameOf t cage) fd (some k) := by
  have hunder : (kernelEntry k cloexec).underfd = k := by
    simp only [kernelEntry, asU64]
    omega
  rw [nameOf_of_update h.entry, map_some, hunder]

theorem small_put {kernel : Descs} (h : ∀ k, kernel k ≠ none → k < 2 ^ 31) (hk : k < 2 ^ 31)
    (x : Desc) : ∀ k', put kernel k x k' ≠ none → k' < 2 ^ 31 := by
  intro k' hk'
  by_cases hkk : k' = k
  · rw [hkk]
    exact hk
  · rw [put, update_of_ne hkk] at hk'
    exact h k' hk'

theorem mirrors_insert (h : Mirrors w) (hent : Entered w.fds w.cage fd (kernelEntry k cloexec) t')
    (hfd : ∀ k', w.names fd = some k' → k' = k) (hk : ∀ fd' ≠ fd, w.names fd' ≠ some k)
    (hlt : k < 2 ^ 31) (hxy : y.object = x.object) :
    Mirrors (w.become t' (put w.kernel k x) (put w.native fd y)) := by
  have hnames : (w.become t' (put w.kernel k x) (put w.native fd y)).names =
      update w.names fd (some k) := nameOf_of_entered hent hlt
  refine ⟨hent.registered, small_put h.small hlt x, ?_, ?_⟩
  · rw [hnames, become, objects_put, objects_put, hxy]
    exact renames_insert h.renames hk
  · rw [hnames, become, objects_put]
    exact covers_insert h.covers hfd

theorem mirrors_open (h : Mirrors w) (hent : Entered w.fds w.cage fd (kernelEntry k cloexec) t')
    (hfd : w.names fd = none) (hk : w.kernel k = none) (hlt : k < 2 ^ 31)
    (hxy : y.object = x.object) : Mirrors (w.become t' (put w.kernel k x) (put w.native fd y)) := by
  refine mirrors_insert h hent (fun k' hk' => ?_) (fun fd' _ hfd' => h.backed hfd' hk) hlt hxy
  rw [hfd] at hk'
  cases hk'

theorem mirrors_assign (h : Mirrors w) (hk : w.names fd = some k) (hxy : y.object = x.object) :
    Mirrors (w.become w.fds (put w.kernel k x) (put w.native fd y)) := by
  refine ⟨h.registered, small_put h.small (h.bounded fd k hk) x, ?_, ?_⟩
  · rw [become, objects_put, objects_put, hxy]
    exact renames_assign h.renames hk
  · rw [become, objects_put]
    exact covers_assign h.covers hk

theorem mirrors_reenter (h : Mirrors w) (hent : Entered w.fds w.cage fd (kernelEntry k cloexec) t')
    (hk : w.names fd = some k) : Mirrors (w.become t' w.kernel w.native) := by
  have hnames : (w.become t' w.kernel w.native).names = w.names := by
    refine (nameOf_of_entered hent (h.bounded fd k hk)).trans ?_
    rw [← hk]
    exact update_eq_self fd w.names
  refine ⟨hent.registered, h.small, ?_, ?_⟩
  · rw [hnames]
    exact h.renames
  · rw [hnames]
    exact h.covers

theorem native_of_kernel (h : Mirrors w) (hk : w.names fd = some k) (hx : w.kernel k = some x) :
    ∃ y, w.native fd = some y ∧ y.object = x.object := by
  have hobj := outer_of_names h.renames hk
  rw [objects, objects, hx, map_some] at hobj
  exact map_eq_some_iff.mp hobj

variable [LawfulFdTables T]

theorem mirrors_close (h : Mirrors w) (hclose : closeVirtualfd w.fds w.cage fd = some t')
    (hk : w.names fd = some k) :
    Mirrors (w.become t' (update w.kernel k none) (update w.native fd none)) := by
  rcases close_some _ _ _ _ hclose with ⟨-, -, hex⟩
  have hnames : (w.become t' (update w.kernel k none)
      (update w.native fd none)).names = update w.names fd none :=
    nameOf_of_update (translate_of_close hclose)
  refine ⟨?_, fun k' hk' => ?_, ?_, ?_⟩
  · rw [become, hex]
    exact h.registered
  · refine h.small k' fun hnone => hk' ?_
    by_cases hkk : k' = k
    · rw [hkk]
      exact update_self ..
    · exact (update_of_ne hkk ..).trans hnone
  · rw [hnames, become, objects_erase, objects_erase]
    exact renames_erase h.renames hk
  · rw [hnames, become, objects_erase]
    exact covers_erase h.covers hk

end Changes

variable {fd k : Nat} {req : Request} {r : Result}

theorem follows_of_same (h : Mirrors w) (hfds : s.final.fds = w.fds) (hkernel : s.kernel = w.kernel)
    (hdescs : (w.alone a).descs = w.native) (hret : s.final.ret = .ok (w.alone a).ret)
    (hpair : s.final.out.pair = (w.alone a).pair) : Follows w a s := by
  refine ⟨?_, hret, hpair⟩
  rw [hfds, hkernel, hdescs]
  exact h

theorem alone_of_open (h : Mirrors w) (hopen : ∀ fd ∈ a.call.meaning.needed, w.names fd ≠ none)
    (hacc : a.call.meaning.refusable = true → 0 ≤ a.answer.ret) :
    w.alone a = (a.call.meaning.perform w.native a.answer (lowest (fdLimit T))).getD
      (.of w.native (-emfile)) := by
  have hall : (a.call.meaning.needed.all fun fd => (w.native fd).isSome) = true := by
    refine List.all_eq_true.mpr fun fd hfd => ?_
    exact isSome_iff_ne_none.mpr fun hnone =>
      hopen fd hfd ((h.native_eq_none fd).mp hnone)
  rw [alone, Meaning.native, Meaning.run, if_pos hall,
    if_neg fun href => Int.not_lt.mpr (hacc href.1) href.2]

theorem follows_of_denied (h : Mirrors w) (hs : Denied w.fds w.kernel w.cage a s) :
    Follows w a s := by
  have halone : w.alone a = .of w.native (w.alone a).ret ∧ s.final.ret = .ok (w.alone a).ret := by
    rcases hs.cause with ⟨⟨fd, hfd, hnone⟩, hret⟩ | ⟨hopen, href, hneg, hret⟩ |
      ⟨fd, -, k, hname, hnone⟩
    · have hall : ¬ (a.call.meaning.needed.all fun fd => (w.native fd).isSome) = true := by
        intro hall
        have := List.all_eq_true.mp hall fd hfd
        rw [(h.native_eq_none fd).mpr hnone] at this
        cases this
      have heq : w.alone a = .of w.native (-ebadf) := by
        rw [alone, Meaning.native, Meaning.run, if_neg hall]
        rfl
      rw [heq]
      exact ⟨rfl, hret⟩
    · have hall : (a.call.meaning.needed.all fun fd => (w.native fd).isSome) = true := by
        refine List.all_eq_true.mpr fun fd hfd => ?_
        exact isSome_iff_ne_none.mpr fun hnone =>
          hopen fd hfd ((h.native_eq_none fd).mp hnone)
      have heq : w.alone a = .of w.native a.answer.ret := by
        rw [alone, Meaning.native, Meaning.run, if_pos hall, if_pos ⟨href, hneg⟩]
        rfl
      rw [heq]
      exact ⟨rfl, hret⟩
    · exact absurd hnone (h.backed hname)
  refine follows_of_same h hs.fds hs.unchanged ?_ halone.2 ?_
  · rw [halone.1]
    rfl
  · rw [hs.unpaired, halone.1]
    rfl

theorem performed_open (hp : Performed w.fds w.kernel w.cage a req r s) :
    ∀ fd ∈ a.call.meaning.needed, w.names fd ≠ none := by
  intro fd hfd hnone
  rcases exists_of_mem_forall₂_left (descriptors_of_rename hp.renamed).2 hfd with ⟨k, hname⟩
  exact absurd (hname.symm.trans hnone) (by simp)

theorem alone_of_performed (h : Mirrors w) (hp : Performed w.fds w.kernel w.cage a req r s)
    {m : Meaning} (hm : a.call.meaning = m) {r' : Result}
    (hr' : m.perform w.native a.answer (lowest (fdLimit T)) = some r') : w.alone a = r' := by
  rw [alone_of_open h (performed_open hp) hp.accepted, hm, hr', getD_some]

theorem follows_inert (h : Mirrors w) (hm : a.call.meaning.inert = true)
    (hp : Performed w.fds w.kernel w.cage a req r s) : Follows w a s := by
  rcases performed_inert hp hm with ⟨hfinal, hkernel, -⟩
  have halone : w.alone a = .of w.native a.answer.ret :=
    alone_of_performed h hp rfl (perform_inert hm)
  refine follows_of_same h ?_ hkernel ?_ ?_ ?_
  · rw [hfinal]
  · rw [halone]
    rfl
  · rw [hfinal, halone]
    rfl
  · rw [hfinal, halone]
    rfl

variable {cloexec : Bool} {start old new : Nat}

theorem follows_mark (h : Mirrors w) (hm : a.call.meaning = .mark fd cloexec)
    (hp : Performed w.fds w.kernel w.cage a req r s) : Follows w a s := by
  rcases performed_mark hp hm with ⟨k, x, hk, hx, hkernel, -, hfinal⟩
  rcases native_of_kernel h hk hx with ⟨y, hy, hyx⟩
  have halone : w.alone a = ⟨a.answer.ret, put w.native fd ⟨y.object, cloexec⟩, [], none⟩ := by
    refine alone_of_performed h hp hm ?_
    rw [Meaning.perform, hy]
    rfl
  refine ⟨?_, ?_, ?_⟩
  · rw [hfinal, hkernel, halone]
    exact mirrors_assign h hk hyx
  · rw [hfinal, halone]
  · rw [hfinal, halone]

theorem pick_of_allotted {e : FDTableEntry} {t' : T} (h : Mirrors w)
    (hall : Allotted w.fds w.cage fd e t') (hstart : ∀ fd' < start, w.names fd' ≠ none) :
    (lowest (fdLimit T)).pick w.native start = some fd := by
  have hfree : w.names fd = none := names_eq_none.mpr hall.free
  refine pick_lowest hall.lt ?_ ((h.native_eq_none fd).mpr hfree) fun fd' hlt _ hnone => ?_
  · by_contra hlt
    exact hstart fd (by omega) hfree
  · exact hall.lowest fd' hlt (names_eq_none.mp ((h.native_eq_none fd').mp hnone))

theorem eq_of_fixed {x : Desc} (h : Mirrors w) (hfixed : w.Fixed new) (hk : w.names old = some k)
    (hx : w.kernel k = some x) : k = new ↔ old = new := by
  constructor
  · rintro rfl
    rcases hfixed with hfix | ⟨-, hnone⟩
    · exact h.renames.injective _ _ _ hk hfix
    · rw [hnone] at hx
      cases hx
  · rintro rfl
    rcases hfixed with hfix | ⟨hnone, -⟩
    · exact Option.some.inj (hk.symm.trans hfix)
    · rw [hnone] at hk
      cases hk

theorem not_full_of_allotted {e : FDTableEntry} {t' : T} {fd1 fd2 : Nat} (hne : fd1 ≠ fd2)
    (h1 : w.Free fd1) (h2 : w.Free fd2) (hall : Allotted w.fds w.cage fd e t') :
    ¬ Full t' w.cage := by
  intro hfull
  by_cases hfd : fd1 = fd
  · refine hfull fd2 h2.1 ?_
    rw [hall.entry, update_of_ne (hfd ▸ hne.symm)]
    exact names_eq_none.mp h2.2
  refine hfull fd1 h1.1 ?_
  rw [hall.entry, update_of_ne hfd]
  exact names_eq_none.mp h1.2

variable [LawfulFdTables T] (h : Mirrors w) (hp : Performed w.fds w.kernel w.cage a req r s)

include h hp

theorem follows_close (hm : a.call.meaning = .close fd) : Follows w a s := by
  rcases performed_close hp hm with ⟨k, hk, hkernel, -, hfinal⟩
  have halone : w.alone a = ⟨0, update w.native fd none, [], none⟩ :=
    alone_of_performed h hp hm rfl
  rcases hclose : closeVirtualfd w.fds w.cage fd with _ | _
  · rw [nameOf_of_none (close_none _ _ _ hclose)] at hk
    cases hk
  rw [hclose, getD_some] at hfinal
  refine ⟨?_, ?_, ?_⟩
  · rw [hfinal, hkernel, halone]
    exact mirrors_close h hclose hk
  · rw [hfinal, halone]
  · rw [hfinal, halone]

omit hp in
theorem follows_of_opensOne {x y : Desc} (hs : OpensOne w.fds w.kernel w.cage a s k x)
    (halone : ∀ fd : Nat, (lowest (fdLimit T)).pick w.native start = some fd →
      w.alone a = ⟨fd, put w.native fd y, [fd], none⟩) (hyx : y.object = x.object)
    (hfree : ∃ fd, w.Free fd) (hstart : ∀ fd' < start, w.names fd' ≠ none) : Follows w a s := by
  rcases enterOne_cases h.registered with ⟨fd, t', hent, hall⟩ | ⟨-, hfull⟩
  · have halone := halone fd (pick_of_allotted h hall hstart)
    have hfinal := hs.final.trans hent
    refine ⟨?_, ?_, ?_⟩
    · rw [hfinal, hs.kernel, halone]
      exact mirrors_open h hall.toEntered (names_eq_none.mpr hall.free) hs.free hs.lt hyx
    · rw [hfinal, halone]
    · rw [hfinal, halone]
  · rcases hfree with ⟨fd, hfd⟩
    exact absurd hfull (not_full_of_free hfd)

theorem follows_create {fds : List Nat} (hm : a.call.meaning = .create fds cloexec)
    (hfree : ∃ fd, w.Free fd) : Follows w a s := by
  rcases performed_create hp hm with ⟨k, hs⟩
  refine follows_of_opensOne h hs (fun fd hfd => ?_) rfl hfree
    fun fd hlt => absurd hlt (Nat.not_lt_zero fd)
  refine alone_of_performed h hp hm ?_
  rw [Meaning.perform, hfd]
  rfl

theorem follows_dup (hm : a.call.meaning = .dup old start cloexec)
    (hfree : ∃ fd, w.Free fd) (hstart : ∀ fd < start, w.names fd ≠ none) : Follows w a s := by
  rcases performed_dup hp hm with ⟨kold, x, k, hkold, hx, hs⟩
  rcases native_of_kernel h hkold hx with ⟨y, hy, hyx⟩
  refine follows_of_opensOne (y := ⟨y.object, cloexec⟩) h hs (fun fd hfd => ?_) hyx hfree hstart
  refine alone_of_performed h hp hm ?_
  rw [Meaning.perform, hy, hfd]
  rfl

omit hp in
theorem enterAt_of_lt (hlt : new < fdLimit T) (cloexec : Bool) :
    ∃ t', enterAt w.fds w.cage new new cloexec = ⟨.ok new, t', {}⟩ ∧
      Entered w.fds w.cage new (kernelEntry new cloexec) t' := by
  rcases enterAt_cases h.registered with hent | ⟨-, hle⟩
  · exact hent
  · omega

theorem follows_replace {strict : Bool}
    (hm : a.call.meaning = .replace old new cloexec strict) (hlt : new < fdLimit T)
    (hfixed : w.Fixed new) : Follows w a s := by
  rcases performed_replace hp hm with ⟨k, x, hk, hx, hs⟩
  rcases native_of_kernel h hk hx with ⟨y, hy, hyx⟩
  have hsame := eq_of_fixed h hfixed hk hx
  have halone : w.alone a = if old = new then .of w.native (if strict then -einval else new)
      else ⟨new, put w.native new ⟨y.object, cloexec⟩, [new], none⟩ := by
    have hnative : ¬ (lowest (fdLimit T)).limit ≤ new := Nat.not_le.mpr hlt
    refine alone_of_performed h hp hm ?_
    rw [Meaning.perform, hy, map_some, if_neg hnative]
  rcases enterAt_of_lt h hlt a.call.recorded with ⟨t', hent, hentered⟩
  cases hs with
  | refused code hfinal hkernel _ hcode =>
    rcases hcode with ⟨-, hle⟩ | ⟨rfl, hknew, rfl⟩
    · have := limit_le (T := T)
      omega
    rw [if_pos (hsame.mp hknew)] at halone
    refine follows_of_same h ?_ hkernel ?_ ?_ ?_
    · rw [hfinal]
    · rw [halone]
      rfl
    · rw [hfinal, halone]
      rfl
    · rw [hfinal, halone]
      rfl
  | kept hfinal hkernel _ _ hknew hstrict =>
    -- the kernel leaves the descriptor alone, and so does the new entry
    have hold := hsame.mp hknew
    rw [if_pos hold, hstrict] at halone
    rw [hent] at hfinal
    rw [hold, hknew] at hk
    refine ⟨?_, ?_, ?_⟩
    · rw [hfinal, hkernel, halone]
      exact mirrors_reenter h hentered hk
    · rw [hfinal, halone]
      rfl
    · rw [hfinal, halone]
      rfl
  | placed hfinal hkernel _ hlt' hknew =>
    rw [if_neg fun hold => hknew (hsame.mpr hold)] at halone
    rw [hent] at hfinal
    refine ⟨?_, ?_, ?_⟩
    · rw [hfinal, hkernel, halone]
      refine mirrors_insert h hentered (fun k' hk' => ?_) (fun fd' hne hfd' => ?_) hlt' hyx
      · rcases hfixed with hfix | ⟨hnone, -⟩
        · exact Option.some.inj (hk'.symm.trans hfix)
        · rw [hnone] at hk'
          cases hk'
      · rcases hfixed with hfix | ⟨-, hnone⟩
        · exact hne (h.renames.injective _ _ _ hfd' hfix)
        · exact h.backed hfd' hnone
    · rw [hfinal, halone]
    · rw [hfinal, halone]

theorem follows_pair (hm : a.call.meaning = .pair cloexec) (hfree : w.FreePair)
    (hread : a.call.readsPair a.copies = true) (hwritten : a.copies.toCage 0 = true) :
    Follows w a s := by
  rcases performed_pair hp hm with ⟨k1, k2, hs⟩
  rcases hfree with ⟨f1, f2, hne, hf1, hf2⟩
  have hfinal := hs.final
  rw [Request.seenPair, if_pos hread, hwritten] at hfinal
  have hpair := enterPair_cases h.registered (k1, k2) a.call.recorded true a.answer.ret
  rw [← hfinal] at hpair
  generalize hf : s.final = final at hpair
  cases hpair with
  | neither hfull => exact absurd hfull (not_full_of_free hf1)
  | first _ _ hall hfull => exact absurd hfull (not_full_of_allotted hne hf1 hf2 hall)
  | both fd1 fd2 _ _ hall1 hall2 =>
    -- the second descriptor is opened where the first one already is
    have h1 := mirrors_open (y := ⟨a.answer.object₁, cloexec⟩) h hall1.toEntered
      (names_eq_none.mpr hall1.free) hs.free₁ hs.lt₁ rfl
    have hpick1 := pick_of_allotted h hall1 fun fd hlt => absurd hlt (Nat.not_lt_zero fd)
    have hpick2 := pick_of_allotted h1 hall2 fun fd hlt => absurd hlt (Nat.not_lt_zero fd)
    have halone : w.alone a = ⟨a.answer.ret, put (put w.native fd1 ⟨a.answer.object₁, cloexec⟩)
        fd2 ⟨a.answer.object₂, cloexec⟩, [fd1, fd2], some (fd1, fd2)⟩ := by
      refine alone_of_performed h hp hm ?_
      rw [Meaning.perform, hpick1, bind_some]
      exact congrArg (Option.map _) hpick2
    refine ⟨?_, ?_, ?_⟩
    · rw [hf, hs.kernel, halone]
      exact mirrors_open (y := ⟨a.answer.object₂, cloexec⟩) h1 hall2.toEntered
        (names_eq_none.mpr hall2.free) hs.free₂ hs.lt₂ rfl
    · rw [hf, halone]
    · rw [hf, halone]
      rfl

omit hp in
/-- A direct call that fits does the same with the handlers and without them. -/
theorem follows_direct (hdirect : a.call.sys.direct = true)
    (hcage : a.call.argcages = fun _ => w.cage) (hfits : Fits w a)
    (hs : serve w.grate w.fds w.kernel a = some s) : Follows w a s := by
  rcases serve_cases hdirect hcage h.bounded hs with
    hdenied | ⟨req, r, hp⟩
  · exact follows_of_denied h hdenied
  · have havoid : a.call.meaning.refusable = true → w.Avoids a := fun href =>
      hfits.avoids (performed_open hp) (hp.accepted href)
    cases hm : a.call.meaning with
    | use fds | poll | select fds => exact follows_inert h (by rw [hm]; rfl) hp
    | close => exact follows_close h hp hm
    | mark => exact follows_mark h hm hp
    | create =>
      rw [World.Avoids, hm] at havoid
      exact follows_create h hp hm (havoid rfl)
    | dup =>
      rw [World.Avoids, hm] at havoid
      exact follows_dup h hp hm (havoid rfl).1 (havoid rfl).2
    | replace =>
      rw [World.Avoids, hm] at havoid
      exact follows_replace h hp hm (havoid rfl).1 (havoid rfl).2
    | pair =>
      rw [World.Avoids, hm] at havoid
      rcases havoid rfl with ⟨hfree, hread, hwritten⟩
      exact follows_pair h hp hm hfree hread hwritten

end LindGrates.FdSupport
