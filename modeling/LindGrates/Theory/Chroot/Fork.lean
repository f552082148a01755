import LindGrates.Core.Chroot.Family
import LindGrates.Base.Run
import LindGrates.Theory.Chroot.Confine
import Mathlib.Data.List.Nodup

/-!
# Working Directories across Forks

Until its parent's handler has registered a cage, the grate knows nothing about it
and finds the directory the grate itself was started in; the registration then puts
the directory of the parent in its place, together with whatever the child has
changed in between.

## Main definitions

* `CwdFaithful`: Every cage works in the directory it should.
* `ForkCareful`: No cage makes a call before it is registered.

## Theorems

* `fork_keeps_cwd`: Working directories are right in every careful run.
* `fork_loses_cwd`: A child that is too early.
-/

namespace LindGrates.Chroot

open Function List State

variable {cage parent child : Nat} {s : State}

/-- A cage whose parent's handler has not registered it yet. -/
def Family.Waits (f : Family) (cage : Nat) : Prop :=
  ∃ fork ∈ f.pending, fork.2 = cage

instance (f : Family) (cage : Nat) : Decidable (f.Waits cage) :=
  inferInstanceAs (Decidable (∃ fork ∈ f.pending, fork.2 = cage))

/-- Every call found the working directory it should have found, and every cage
    that is registered has the one it should have. -/
structure CwdFaithful (f : Family) : Prop where
  seen : ∀ sight ∈ f.seen, sight.found = sight.due
  registered : ∀ cage cwd, f.due cage = some cwd → ¬ f.Waits cage → f.grate.getCageCwd cage = cwd

/-- A cage that is not registered makes no call and does not fork, unless it
    should be in the directory the grate was started in; and it does not change
    its directory. -/
def ForkCareful (f : Family) : FamilyAction → Prop
  | .clone parent _ => f.Waits parent → f.due parent = some f.grate.fallback
  | .call call host =>
    f.Waits call.actor →
      f.due call.actor = some f.grate.fallback ∧ call.succeeds host f.grate = false
  | _ => True

instance (f : Family) : ∀ a, Decidable (ForkCareful f a)
  | .clone parent _ =>
    inferInstanceAs (Decidable (f.Waits parent → f.due parent = some f.grate.fallback))
  | .call call host =>
    inferInstanceAs (Decidable (f.Waits call.actor →
      f.due call.actor = some f.grate.fallback ∧ call.succeeds host f.grate = false))
  | .register _ _ => inferInstanceAs (Decidable True)
  | .settle _ _ _ => inferInstanceAs (Decidable True)

structure ForkInv (f : Family) : Prop where
  faithful : CwdFaithful f
  children : (f.pending.map Prod.snd).Nodup
  parents : (f.pending.map Prod.fst).Nodup
  waiting : ∀ parent child, (parent, child) ∈ f.pending → 0 < child ∧
    ∃ cwd, f.due parent = some cwd ∧ f.due child = some cwd ∧
      (f.Waits parent → cwd = f.grate.fallback)
  unknown : ∀ cage, f.due cage = none ∨ f.Waits cage →
    f.grate.getCageCwd cage = f.grate.fallback

/-! ## One call -/

/-- What a call does to the working directories: nothing, or it gives its own
    cage the one that the change leads to. -/
theorem call_effect (host : Host) (s : State) (call : Call) :
    (handle host s call).1.fallback = s.fallback ∧
      (call.succeeds host s = false ∧
          (∀ c, (handle host s call).1.getCageCwd c = s.getCageCwd c) ∨
        call.succeeds host s = true ∧
          ∀ c, (handle host s call).1.getCageCwd c =
            if c = call.actor then call.changed s (s.getCageCwd call.actor)
            else s.getCageCwd c) := by
  have hframe : (handle host s call).1.fallback = s.fallback := by
    rcases handle_effect host s call with ⟨hsame, _⟩ | ⟨cage, cwd, _, hstate⟩
    · exact hsame.fallback
    · rw [hstate]
      exact (same_ensureCageCwd s cage).fallback
  refine ⟨hframe, ?_⟩
  have hset : ∀ (cage : Nat) (cwd : Str) (c : Nat),
      ((s.ensureCageCwd cage).setCageCwd cage cwd).getCageCwd c =
        if c = cage then cwd else s.getCageCwd c := by
    intro cage cwd c
    rw [getCageCwd_setCageCwd]
    split
    · rfl
    · exact (same_ensureCageCwd s cage).getCageCwd c
  cases call
  case chdir ptr =>
    have hread := ptr.readPath_eq
    generalize ptr.text = path at hread
    by_cases hdir : host.checkDir
        (s.chrootPath (normalizePath path (s.getCageCwd ptr.cage)) ptr.cage) = true
    · have h : handle host s (.chdir ptr) = ((s.ensureCageCwd ptr.cage).setCageCwd ptr.cage
            (normalizePath path (s.getCageCwd ptr.cage)), .done 0 []) := by
        rw [handle, chdirHandler, hread]
        exact if_pos hdir
      rw [Call.succeeds, Call.changed, h, hread]
      exact .inr ⟨rfl, hset _ _⟩
    · have h : handle host s (.chdir ptr) = (s.ensureCageCwd ptr.cage, .done (-20) []) := by
        rw [handle, chdirHandler, hread]
        exact if_neg hdir
      rw [Call.succeeds, h]
      exact .inl ⟨rfl, (same_ensureCageCwd s ptr.cage).getCageCwd⟩
  case fchdir cage fd =>
    rcases hdir : s.fdDirPath cage fd with _ | path
    · have h : handle host s (.fchdir cage fd) = (s.ensureCageCwd cage,
          .forward ⟨.fcntl, cage, [], none, [fd, 3]⟩ .notDirectory) := by
        rw [handle, fchdirHandler, hdir]
      rw [Call.succeeds, h]
      exact .inl ⟨rfl, (same_ensureCageCwd s cage).getCageCwd⟩
    have h : handle host s (.fchdir cage fd) =
        ((s.ensureCageCwd cage).setCageCwd cage path, .done 0 []) := by
      rw [handle, fchdirHandler, hdir]
    rw [Call.succeeds, Call.changed, h, hdir]
    exact .inr ⟨rfl, hset _ _⟩
  all_goals
    refine .inl ⟨rfl, ?_⟩
    rcases handle_effect host s _ with ⟨hsame, _⟩ | ⟨cage, cwd, hnew, _⟩
    · exact hsame.getCageCwd
    · cases hnew

/-- A call is noted with the working directory from which its first path is put
    into the jail. -/
theorem sight_of_call {f f' : Family} {call : Call} {host : Host} {ptr : CagePtr}
    {ptrs : List CagePtr} (hplain : call.plainPaths = ptr :: ptrs)
    (hstep : f.step (.call call host) = some f') :
    ∃ sight, f'.seen = sight :: f.seen ∧ sight.cage = ptr.cage ∧
      ((handle host f.grate call).2.paths = [] ∨ (handle host f.grate call).2.paths.head? =
        some ⟨none, jailPath f.grate.chrootDir sight.found ptr.text⟩) := by
  have hactor : call.actor = ptr.cage := by
    cases call
    all_goals first
      | exact (List.cons.inj hplain).1 ▸ rfl
      | cases hplain
  dsimp only [Family.step] at hstep
  split at hstep
  · cases hstep
  by_cases hidle : ∀ fork ∈ f.pending, fork.1 ≠ call.actor
  · rw [if_pos hidle] at hstep
    cases hstep
    have hne : call.plainPaths ≠ [] := hplain ▸ cons_ne_nil _ _
    refine ⟨_, rfl, hactor, (paths_plain host f.grate hne).imp_right fun hpaths => ?_⟩
    rw [hpaths, hplain, hactor]
    rfl
  · rw [if_neg hidle] at hstep
    cases hstep

theorem settle_effect (host : Host) (answer : Answer) (s : State) {after : After}
    (h : ∀ parent, after ≠ .child parent) :
    (finish host answer s after).1.fallback = s.fallback ∧
      ∀ c, (finish host answer s after).1.getCageCwd c = s.getCageCwd c := by
  have hunless : ∀ {failed : Prop} [Decidable failed] {s' : State} {cage fd entry},
      Sets s s' cage fd entry → (if failed then s else s').fallback = s.fallback ∧
        ∀ c, (if failed then s else s').getCageCwd c = s.getCageCwd c := by
    intro failed _ s' cage fd entry hsets
    split
    · exact ⟨rfl, fun _ => rfl⟩
    · exact ⟨hsets.fallback, hsets.getCageCwd⟩
  cases after
  case register cage path =>
    rcases path with _ | path
    · exact ⟨rfl, fun _ => rfl⟩
    · exact hunless (sets_registerDirFdIfDirectory s host cage (BitVec.ofInt 64 answer.ret) path)
  case copyToResult cage oldfd =>
    exact hunless (sets_copyFdDirPath s cage oldfd (BitVec.ofInt 64 answer.ret))
  case copyTo cage oldfd newfd => exact hunless (sets_copyFdDirPath s cage oldfd newfd)
  case clear cage fd => exact hunless (sets_clearFdDirPath s cage fd)
  case readBack buf =>
    dsimp only [finish]
    split
    · exact ⟨rfl, fun _ => rfl⟩
    split
    · exact ⟨rfl, fun _ => rfl⟩
    · exact ⟨rfl, fun _ => rfl⟩
  case child parent => exact absurd rfl (h parent)
  all_goals exact ⟨rfl, fun _ => rfl⟩

/-! ## Steps -/

variable {f : Family} {cwd : Str}

theorem forkInv_start (h : f.Start) : ForkInv f := by
  have hnone : ∀ cage, ¬ f.Waits cage := by
    rintro cage ⟨fork, hfork, _⟩
    rw [h.pending] at hfork
    cases hfork
  refine ⟨⟨?_, fun cage cwd hdue _ => h.due cage cwd hdue⟩, ?_, ?_, ?_, ?_⟩
  · rw [h.seen]
    exact forall_mem_nil _
  · rw [h.pending]
    exact nodup_nil
  · rw [h.pending]
    exact nodup_nil
  · intro parent child hfork
    rw [h.pending] at hfork
    cases hfork
  · rintro cage (hdue | hwaits)
    · exact h.fresh cage hdue
    · exact absurd hwaits (hnone cage)

section

variable (hf : ForkInv f)

include hf

theorem ForkInv.found (hdue : f.due cage = some cwd)
    (h : f.Waits cage → f.due cage = some f.grate.fallback) : f.grate.getCageCwd cage = cwd := by
  by_cases hwaits : f.Waits cage
  · rw [hf.unknown cage (.inr hwaits)]
    exact Option.some.inj ((h hwaits).symm.trans hdue)
  · exact hf.faithful.registered cage cwd hdue hwaits

theorem forkInv_clone (hpos : 0 < child)
    (hdue : f.due parent = some cwd) (hfresh : f.due child = none)
    (hidle : ∀ fork ∈ f.pending, fork.1 ≠ parent)
    (hcareful : f.Waits parent → f.due parent = some f.grate.fallback) :
    ForkInv { f with
      pending := (parent, child) :: f.pending
      due := update f.due child (some cwd) } := by
  have hne : parent ≠ child := by
    rintro rfl
    rw [hdue] at hfresh
    cases hfresh
  -- The child is in no fork yet, neither as a child nor as a parent.
  have hnew : ∀ fork ∈ f.pending, fork.1 ≠ child ∧ fork.2 ≠ child := by
    rintro ⟨p, c⟩ hfork
    rcases hf.waiting p c hfork with ⟨_, d, hp, hc, _⟩
    refine ⟨?_, ?_⟩
    · rintro rfl
      rw [hfresh] at hp
      cases hp
    · rintro rfl
      rw [hfresh] at hc
      cases hc
  have hwaits : ∀ cage, (∃ fork ∈ (parent, child) :: f.pending, fork.2 = cage) →
      cage = child ∨ f.Waits cage := by
    rintro cage ⟨fork, hfork, rfl⟩
    rcases mem_cons.mp hfork with rfl | hfork
    · exact .inl rfl
    · exact .inr ⟨fork, hfork, rfl⟩
  refine ⟨⟨hf.faithful.seen, fun cage d hd hidle' => ?_⟩, ?_, ?_, fun p c hfork => ?_,
    fun cage h => ?_⟩
  · have hcage : cage ≠ child := by
      rintro rfl
      exact hidle' ⟨_, mem_cons_self .., rfl⟩
    dsimp only at hd
    rw [update_of_ne hcage] at hd
    refine hf.faithful.registered cage d hd ?_
    rintro ⟨fork, hfork, h⟩
    exact hidle' ⟨fork, mem_cons_of_mem _ hfork, h⟩
  · rw [map_cons, nodup_cons]
    refine ⟨fun hmem => ?_, hf.children⟩
    rcases mem_map.mp hmem with ⟨fork, hfork, h⟩
    exact (hnew fork hfork).2 h
  · rw [map_cons, nodup_cons]
    refine ⟨fun hmem => ?_, hf.parents⟩
    rcases mem_map.mp hmem with ⟨fork, hfork, h⟩
    exact hidle fork hfork h
  · dsimp only
    rcases mem_cons.mp hfork with hfork | hfork
    · cases hfork
      refine ⟨hpos, cwd, ?_, ?_, fun h => ?_⟩
      · rw [update_of_ne hne]
        exact hdue
      · rw [update_self]
      · rcases hwaits _ h with h | h
        · exact absurd h hne
        · exact Option.some.inj (hdue.symm.trans (hcareful h))
    rcases hf.waiting p c hfork with ⟨hc, d, hp, hd, hwait⟩
    refine ⟨hc, d, ?_, ?_, fun h => ?_⟩
    · rw [update_of_ne (hnew _ hfork).1]
      exact hp
    · rw [update_of_ne (hnew _ hfork).2]
      exact hd
    · rcases hwaits _ h with h | h
      · exact absurd h (hnew _ hfork).1
      · exact hwait h
  · dsimp only at h
    rcases h with h | h
    · by_cases hcage : cage = child
      · rw [hcage]
        exact hf.unknown child (.inl hfresh)
      · rw [update_of_ne hcage] at h
        exact hf.unknown cage (.inl h)
    rcases hwaits cage h with h | h
    · rw [h]
      exact hf.unknown child (.inl hfresh)
    · exact hf.unknown cage (.inr h)

theorem forkInv_register (host : Host) (hfork : (parent, child) ∈ f.pending) :
    ForkInv { f with
      grate := (finish host ⟨child, []⟩ f.grate (.child parent)).1
      pending := f.pending.erase (parent, child) } := by
  rcases hf.waiting parent child hfork with ⟨hpos, cwd, hparent, hchild, hwait⟩
  have hfinish : (finish host ⟨child, []⟩ f.grate (.child parent)).1 =
      (f.grate.registerCage parent child).registerChildFdPaths parent child := by
    dsimp only [finish]
    rw [if_neg (by omega), Int.toNat_natCast]
  have hinherits := inherits_register f.grate parent child
  have hnodup : f.pending.Nodup := List.Nodup.of_map Prod.snd hf.children
  have hmem : ∀ fork, fork ∈ f.pending.erase (parent, child) ↔
      fork ≠ (parent, child) ∧ fork ∈ f.pending := fun fork => hnodup.mem_erase_iff
  have hsub : ∀ cage, (∃ fork ∈ f.pending.erase (parent, child), fork.2 = cage) →
      f.Waits cage ∧ cage ≠ child := by
    rintro cage ⟨fork, h, rfl⟩
    rcases (hmem fork).mp h with ⟨hne, h⟩
    refine ⟨⟨fork, h, rfl⟩, fun hc => hne ?_⟩
    exact inj_on_of_nodup_map hf.children h hfork hc
  have hother : ∀ cage, cage ≠ child → f.Waits cage →
      ∃ fork ∈ f.pending.erase (parent, child), fork.2 = cage := by
    rintro cage hne ⟨fork, h, rfl⟩
    exact ⟨fork, (hmem fork).mpr ⟨fun hc => hne (by rw [hc]), h⟩, rfl⟩
  -- The parent is where it was at the fork, and so the child gets what it should.
  have hright : f.grate.getCageCwd parent = cwd :=
    hf.found hparent fun h => by rw [hparent, hwait h]
  rw [hfinish]
  refine ⟨⟨hf.faithful.seen, fun cage d hd hidle => ?_⟩, ?_, ?_, fun p c h => ?_, fun cage h => ?_⟩
  · rw [hinherits.getCageCwd]
    split
    next hcage =>
      rw [hcage, hchild] at hd
      rw [hright]
      exact Option.some.inj hd
    next hcage => exact hf.faithful.registered cage d hd fun hw => hidle (hother cage hcage hw)
  · exact hf.children.sublist (erase_sublist.map _)
  · exact hf.parents.sublist (erase_sublist.map _)
  · rw [hinherits.fallback]
    rcases hf.waiting p c ((hmem _).mp h).2 with ⟨hc, d, hp, hd, hw⟩
    exact ⟨hc, d, hp, hd, fun hwaits => hw (hsub p hwaits).1⟩
  · rw [hinherits.getCageCwd, hinherits.fallback]
    split
    next hcage =>
      rcases h with h | h
      · rw [hcage, hchild] at h
        cases h
      · exact absurd hcage (hsub cage h).2
    rcases h with h | h
    · exact hf.unknown cage (.inl h)
    · exact hf.unknown cage (.inr (hsub cage h).1)

theorem ForkInv.same (hfallback : s.fallback = f.grate.fallback)
    (hcwd : ∀ c, s.getCageCwd c = f.grate.getCageCwd c) : ForkInv { f with grate := s } where
  faithful := ⟨hf.faithful.seen, fun cage cwd hdue hidle =>
    (hcwd cage).trans (hf.faithful.registered cage cwd hdue hidle)⟩
  children := hf.children
  parents := hf.parents
  waiting := fun p c h => by
    rw [hfallback]
    exact hf.waiting p c h
  unknown := fun cage h => by
    rw [hcwd, hfallback]
    exact hf.unknown cage h

theorem ForkInv.sees {sight : Sight} (h : sight.found = sight.due) :
    ForkInv { f with seen := sight :: f.seen } where
  faithful := ⟨forall_mem_cons.mpr ⟨h, hf.faithful.seen⟩, hf.faithful.registered⟩
  children := hf.children
  parents := hf.parents
  waiting := hf.waiting
  unknown := hf.unknown

theorem ForkInv.changes {cwd' : Str}
    (hidle : ∀ fork ∈ f.pending, fork.1 ≠ cage) (hregistered : ¬ f.Waits cage)
    (hfallback : s.fallback = f.grate.fallback)
    (hcwd : ∀ c, s.getCageCwd c = if c = cage then cwd' else f.grate.getCageCwd c) :
    ForkInv { f with grate := s, due := update f.due cage (some cwd') } where
  faithful := by
    refine ⟨hf.faithful.seen, fun c d hd hc => ?_⟩
    dsimp only at hd ⊢
    rw [hcwd]
    split
    next h =>
      rw [h, update_self] at hd
      exact Option.some.inj hd
    rename_i h
    rw [update_of_ne h] at hd
    exact hf.faithful.registered c d hd hc
  children := hf.children
  parents := hf.parents
  waiting := fun p c h => by
    dsimp only
    rw [hfallback, update_of_ne (hidle _ h), update_of_ne fun hc => hregistered ⟨_, h, hc⟩]
    exact hf.waiting p c h
  unknown := fun c h => by
    dsimp only at h ⊢
    rw [hcwd, hfallback]
    split
    next hc =>
      rcases h with h | h
      · rw [hc, update_self] at h
        cases h
      · exact absurd (hc ▸ h) hregistered
    rename_i hc
    rcases h with h | h
    · rw [update_of_ne hc] at h
      exact hf.unknown c (.inl h)
    · exact hf.unknown c (.inr h)

theorem forkInv_call {call : Call} {host : Host}
    (hdue : f.due call.actor = some cwd) (hidle : ∀ fork ∈ f.pending, fork.1 ≠ call.actor)
    (hcareful : ForkCareful f (.call call host)) :
    ForkInv
      { grate := (handle host f.grate call).1
        pending := f.pending
        due :=
          if call.succeeds host f.grate then
            update f.due call.actor (some (call.changed f.grate cwd))
          else f.due
        seen := ⟨call.actor, f.grate.getCageCwd call.actor, cwd⟩ :: f.seen } := by
  have hfound := hf.found hdue fun h => (hcareful h).1
  rcases call_effect host f.grate call with ⟨hfallback, ⟨hfails, hcwd⟩ | ⟨hsucceeds, hcwd⟩⟩
  · rw [hfails, if_neg Bool.false_ne_true]
    exact (hf.same hfallback hcwd).sees hfound
  rw [hsucceeds, if_pos rfl]
  rw [hfound] at hcwd
  have hregistered : ¬ f.Waits call.actor := by
    intro h
    rw [(hcareful h).2] at hsucceeds
    cases hsucceeds
  exact (hf.changes hidle hregistered hfallback hcwd).sees hfound

theorem forkInv_step {f' : Family} {a : FamilyAction} (hcareful : ForkCareful f a)
    (hstep : f.step a = some f') : ForkInv f' := by
  cases a with
  | clone =>
    rw [Family.step] at hstep
    split at hstep
    · cases hstep
    rename_i cwd hdue
    split at hstep
    next h =>
      cases hstep
      exact forkInv_clone hf h.1 hdue h.2.1 h.2.2 hcareful
    · cases hstep
  | register =>
    rw [Family.step] at hstep
    split at hstep
    next hfork =>
      cases hstep
      exact forkInv_register hf _ hfork
    · cases hstep
  | call =>
    rw [Family.step] at hstep
    split at hstep
    · cases hstep
    rename_i cwd hdue
    split at hstep
    next hidle =>
      cases hstep
      exact forkInv_call hf hdue hidle hcareful
    · cases hstep
  | settle after answer host =>
    have hchild : ∀ parent, after ≠ .child parent := by
      rintro parent rfl
      cases hstep
    have hsame := settle_effect host answer f.grate hchild
    rw [Family.step] at hstep
    · cases hstep
      exact hf.same hsame.1 hsame.2
    · exact hchild

end

/-- A host on which everything is a directory. -/
def openHost : Host where
  stat := fun _ => some 0o40755

/-- Cage 2 alone in the jail, in its root. -/
def loneFamily : Family where
  grate := jailStart
  pending := []
  due := fun cage => if cage = 2 then some ['/'] else none
  seen := []

theorem loneFamily_start : loneFamily.Start where
  grate := ⟨jailHost, "/jail".toList, ['/'], 1, 2, by decide, rfl⟩
  pending := rfl
  due := fun cage cwd h => by
    change (if cage = 2 then _ else _) = _ at h
    split at h
    next hcage =>
      rw [hcage]
      exact Option.some.inj h
    · cases h
  fresh := fun cage h => by
    change (if cage = 2 then _ else _) = _ at h
    split at h
    · cases h
    rename_i hcage
    have hothers : loneFamily.grate.cageCwds cage =
        update (fun _ : Nat => (none : Option Str)) 1 (some ['/']) cage :=
      update_of_ne hcage _ _
    rw [getCageCwd_eq, hothers]
    by_cases hgrate : cage = 1
    · rw [hgrate]
      rfl
    · rw [update_of_ne hgrate]
      rfl
  seen := rfl

def childArg (text : String) : CagePtr :=
  ⟨4096, 5, some (Str.bytes text.toList ++ [0])⟩

end LindGrates.Chroot
