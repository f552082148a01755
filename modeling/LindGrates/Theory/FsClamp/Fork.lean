import LindGrates.Base.Run
import LindGrates.Theory.FsClamp.Paths
import LindGrates.Theory.FsClamp.Steps
import LindGrates.Theory.FsClamp.Twins

/-!
# The Policy and the Process Tree

What a cage behind the clamp hands down to its children, and what it leaves behind
when it ends.

A fork copies the descriptors and the working directory. It copies the routes only
from a cage in the set of clamped cages, which a target has left when its handlers
were put in place, and never the mapped ranges; and a fork that failed is treated
as one that made a cage with the error as its number.

## Main definitions

* `Inherits`: A child has what its parent has.
* `Follows`: The condition on forks and exits.
* `Kept`: What the clamp keeps belongs to cages that exist.

## Theorems

* `policy_follows`: The policy follows the process tree under the condition.
* `policy_lost`: Runs in which it does not.
-/

namespace LindGrates.FsClamp

open FdTables ManagedTables Dialogue World Function LawfulFdTables LawfulManagedTables

variable {T : Type}

/-- Nothing is kept for a cage. -/
structure NoEntries [FdTables T] (s : State T) (c : Nat) : Prop where
  routes : ∀ sys, s.routes c sys = none
  cwd : s.cwdByCage c = none
  fds : ∀ fd, translateVirtualFd s.fds c fd = none
  exist : checkCageExists s.fds c = false
  mmaps : s.clampedMmaps c = none

structure SameTables [FdTables T] (s s' : State T) : Prop where
  routes : s'.routes = s.routes
  cwd : s'.cwdByCage = s.cwdByCage
  fds : translateVirtualFd s'.fds = translateVirtualFd s.fds
  exist : checkCageExists s'.fds = checkCageExists s.fds
  mmaps : s'.clampedMmaps = s.clampedMmaps

/-- The child has what the parent has, and every call of the child is passed on as
    the same call of the parent would be. -/
structure Inherits [FdTables T] (s : State T) (cage child : Nat) : Prop where
  routes : s.routes child = s.routes cage
  cwd : s.getCageCwd child = s.getCageCwd cage
  fds : translateVirtualFd s.fds child = translateVirtualFd s.fds cage
  mmaps : s.clampedMmaps child = s.clampedMmaps cage
  calls : ∀ mem mem' sys args, mem' child = mem cage →
    Option.Rel (RoutedAlike child) (nsHandler s mem (ownCall cage sys args))
      (nsHandler s mem' (ownCall child sys args))

/-- A target and its descendants fork as processes only without mapped ranges,
    without routes unless they are among the clamped cages, and successfully; and
    they end without mapped ranges. -/
def Follows (w : World T) : Action → Prop
  | .fork cage _ isThread reply =>
    w.handled cage = true → isThread = true ∨
      (0 < reply ∧ w.state.clampedMmaps cage = none ∧
        (w.state.clampedCages cage = true ∨ ∀ sys ∈ fsCalls, w.state.routes cage sys = none))
  | .exit cage _ _ => w.handled cage = true → w.state.clampedMmaps cage = none
  | _ => True

instance (w : World T) : ∀ a, Decidable (Follows w a)
  | .fork _ _ _ _ => inferInstanceAs (Decidable (_ → _))
  | .exit _ _ _ => inferInstanceAs (Decidable (_ → _))
  | .call _ _ _ _ _ => inferInstanceAs (Decidable True)
  | .exec _ _ _ _ => inferInstanceAs (Decidable True)
  | .register _ _ => inferInstanceAs (Decidable True)

/-! ## What a fork copies -/

variable [ManagedTables T]

theorem copyCage_eq (s : State T) (cage child : Nat) : s.copyCage cage child = { s with
      fds := copyFdtableForCage s.fds cage child
      routes :=
        if s.clampedCages cage = true then
          update s.routes child fun sys => (s.routes cage sys).or (s.routes child sys)
        else s.routes
      cwdByCage :=
        update s.cwdByCage child (some (normalizePath (s.getCageCwd cage))) } := by
  unfold State.copyCage State.isCageClamped
  simp only []
  split
  · rfl
  · rfl

variable {child c cage : Nat} {s : State T} {w w' : World T} {reply : Int}

theorem routes_copyCage_of_ne (s : State T) (cage : Nat) (hc : c ≠ child) :
    (s.copyCage cage child).routes c = s.routes c := by
  rw [copyCage_eq]
  split
  · exact update_of_ne hc _ _
  · rfl

/-- A number that nothing is kept for gets the routes of its parent, unless that
    has some and is not among the clamped cages. -/
theorem routes_copyCage (hchild : ∀ sys, s.routes child sys = none)
    (hcage : s.clampedCages cage = true ∨ ∀ sys, s.routes cage sys = none) :
    (s.copyCage cage child).routes child = s.routes cage := by
  rw [copyCage_eq]
  simp only []
  by_cases hclamped : s.clampedCages cage = true
  · rw [if_pos hclamped, update_self]
    funext sys
    rw [hchild, Option.or_none]
  rw [if_neg hclamped]
  funext sys
  rw [hchild, hcage.resolve_left hclamped]

theorem cwd_copyCage_of_ne (s : State T) (cage : Nat) (hc : c ≠ child) :
    (s.copyCage cage child).cwdByCage c = s.cwdByCage c := by
  rw [copyCage_eq]
  exact update_of_ne hc _ _

theorem cwd_copyCage (s : State T) (cage child : Nat) :
    (s.copyCage cage child).cwdByCage child = some (normalizePath (s.getCageCwd cage)) := by
  rw [copyCage_eq]
  exact update_self ..

theorem fds_copyCage (s : State T) (cage child : Nat) :
    (s.copyCage cage child).fds = copyFdtableForCage s.fds cage child := by
  rw [copyCage_eq]

theorem mmaps_copyCage (s : State T) (cage child : Nat) :
    (s.copyCage cage child).clampedMmaps = s.clampedMmaps := by
  rw [copyCage_eq]

/-! ## What is kept for which cage -/

/-- Nothing is kept for numbers that belong to no cage, and every cage has what it
    needs. Numbers from 2³¹ on belong to no cage, but failed forks leave entries
    there. -/
structure Kept (w : World T) : Prop where
  absent : ∀ c, c < 2 ^ 31 → w.live c = false → NoEntries w.state c
  present : ∀ c, w.live c = true → c < 2 ^ 31 ∧ checkCageExists w.state.fds c = true ∧
    ∃ path, w.state.cwdByCage c = some (normalizePath path)
  unhandled : ∀ c, w.handled c = false → w.state.clampedMmaps c = none
  routed : ∀ c sys, sys ∉ fsCalls → w.state.routes c sys = none

theorem Kept.routes_none (h : Kept w) (hcalls : ∀ sys ∈ fsCalls, w.state.routes cage sys = none)
    (sys : Sys) : w.state.routes cage sys = none := by
  by_cases hsys : sys ∈ fsCalls
  · exact hcalls sys hsys
  · exact h.routed cage sys hsys

theorem toNat_wordOf_neg (h : -2 ^ 31 ≤ reply ∧ reply < 0) : 2 ^ 31 ≤ (wordOf reply).toNat := by
  rw [wordOf, BitVec.toNat_ofInt]
  omega

theorem toNat_wordOf_pos (h : 0 < reply ∧ reply < 2 ^ 31) : (wordOf reply).toNat = reply.toNat := by
  rw [wordOf, BitVec.toNat_ofInt]
  omega

theorem routes_dropCage (s : State T) (cage : Nat) :
    (s.dropCage cage).routes = update s.routes cage fun _ => none :=
  rfl

theorem cwd_dropCage (s : State T) (cage : Nat) :
    (s.dropCage cage).cwdByCage = update s.cwdByCage cage none :=
  rfl

theorem mmaps_dropCage (s : State T) (cage : Nat) :
    (s.dropCage cage).clampedMmaps = s.clampedMmaps :=
  rfl

variable [LawfulManagedTables T]

theorem noEntries_of_exist (hroutes : ∀ sys, s.routes c sys = none) (hcwd : s.cwdByCage c = none)
    (hexist : checkCageExists s.fds c = false) (hmmaps : s.clampedMmaps c = none) :
    NoEntries s c := by
  refine ⟨hroutes, hcwd, fun fd => ?_, hexist, hmmaps⟩
  rcases he : translateVirtualFd s.fds c fd with _ | _
  · rfl
  rw [exists_of_translate _ _ _ _ he] at hexist
  cases hexist

theorem noEntries_copyCage (hc : c ≠ child) (hchild : checkCageExists s.fds child = false)
    (h : NoEntries s c) : NoEntries (s.copyCage cage child) c := by
  refine noEntries_of_exist (fun sys => ?_) ?_ ?_ ?_
  · rw [routes_copyCage_of_ne s cage hc]
    exact h.routes sys
  · rw [cwd_copyCage_of_ne s cage hc]
    exact h.cwd
  · rw [fds_copyCage, exists_copy_dst _ _ _ hchild]
    simp only [hc, decide_false, Bool.false_or, h.exist]
  · rw [mmaps_copyCage]
    exact h.mmaps

theorem kept_start (h : World.Start w) : Kept w := by
  rcases h.state with ⟨ns, pre, t, child, hlt, hempty, hstate, hlive⟩
  -- the three standard descriptors are entered one after the other
  have hexist : ∀ (fds : List Nat) (t' : T),
      checkCageExists (fds.foldl (enterStandard child) t') = checkCageExists t' := by
    intro fds
    induction fds with
    | nil => exact fun _ => rfl
    | cons fd _ ih =>
      intro t'
      rw [List.foldl_cons, ih]
      unfold enterStandard
      cases hget : getSpecificVirtualFd t' child fd ⟨0, fd, false, 0⟩ with
      | none => rfl
      | some => exact (getSpecific_some _ _ _ _ _ hget).2.2.2
  have hfds : checkCageExists w.state.fds = fun c => decide (c = child) := by
    rw [hstate]
    refine (hexist _ _).trans (funext fun c => ?_)
    rw [exists_init _ _ _ (hempty child), hempty, Bool.or_false]
  refine ⟨fun c _ hdead => ?_, fun c hc => ?_, fun c _ => ?_, fun c sys _ => ?_⟩
  · rw [hlive, decide_eq_false_iff_not] at hdead
    refine noEntries_of_exist (fun sys => ?_) ?_ ?_ ?_
    · rw [hstate]
      rfl
    · rw [hstate]
      exact update_of_ne hdead _ _
    · rw [hfds]
      exact decide_eq_false hdead
    · rw [hstate]
      rfl
  · rw [hlive, decide_eq_true_eq] at hc
    refine ⟨hc ▸ hlt, by rw [hfds]; exact decide_eq_true hc, [], ?_⟩
    rw [hstate, hc]
    exact update_self ..
  · rw [hstate]
    rfl
  · rw [hstate]
    rfl

theorem kept_call (h : Kept w) (hlive : w.live cage = true) (hhandled : w.handled cage = true)
    (ht : Touches cage w.state w'.state) (hs : SameCages w w') : Kept w' := by
  refine ⟨fun c hlt hdead => ?_, fun c hc => ?_, fun c hc => ?_, fun c sys hsys => ?_⟩
  · rw [hs.live] at hdead
    have hne : c ≠ cage := fun heq => by rw [heq, hlive] at hdead; cases hdead
    have hold := h.absent c hlt hdead
    exact noEntries_of_exist (by rw [ht.routes]; exact hold.routes)
      (by rw [ht.cwd c hne]; exact hold.cwd) (by rw [ht.exist]; exact hold.exist)
      (by rw [ht.mmaps c hne]; exact hold.mmaps)
  · rw [hs.live] at hc
    rcases h.present c hc with ⟨hlt, hexist, hcwd⟩
    refine ⟨hlt, by rw [ht.exist]; exact hexist, ?_⟩
    by_cases hne : c = cage
    · rw [hne] at hcwd ⊢
      rcases ht.cwd_own with hsame | hnew
      · rw [hsame]
        exact hcwd
      · exact hnew
    · rw [ht.cwd c hne]
      exact hcwd
  · rw [hs.handled] at hc
    have hne : c ≠ cage := fun heq => by rw [heq, hhandled] at hc; cases hc
    rw [ht.mmaps c hne]
    exact h.unhandled c hc
  · rw [ht.routes]
    exact h.routed c sys hsys

theorem kept_copyCage (h : Kept w) (hchild : checkCageExists w.state.fds child = false)
    (hstate : w'.state = w.state.copyCage cage child)
    (hlive : ∀ c, c ≠ child → w'.live c = w.live c)
    (hhandled : ∀ c, c ≠ child → w'.handled c = w.handled c)
    (hnew : (2 ^ 31 ≤ child ∧ w'.live = w.live ∧ w'.handled = w.handled) ∨
      (child < 2 ^ 31 ∧ w.live child = false ∧ w'.live child = true)) : Kept w' := by
  have hexist : checkCageExists w'.state.fds =
      fun c => decide (c = child) || checkCageExists w.state.fds c := by
    rw [hstate, fds_copyCage, exists_copy_dst _ _ _ hchild]
  refine ⟨fun c hlt hdead => ?_, fun c hc => ?_, fun c hc => ?_, fun c sys hsys => ?_⟩
  · have hne : c ≠ child := by
      rcases hnew with ⟨hbig, _⟩ | ⟨_, _, halive⟩
      · omega
      intro heq
      rw [heq, halive] at hdead
      cases hdead
    rw [hlive c hne] at hdead
    rw [hstate]
    exact noEntries_copyCage hne hchild (h.absent c hlt hdead)
  · by_cases hne : c = child
    · subst hne
      refine ⟨?_, by rw [hexist]; exact Bool.or_eq_true_iff.mpr (.inl (decide_eq_true rfl)), ?_⟩
      · rcases hnew with ⟨hbig, hsame, _⟩ | ⟨hlt, _⟩
        · rw [hsame] at hc
          exact (h.present c hc).1
        · exact hlt
      · rw [hstate]
        exact ⟨_, cwd_copyCage ..⟩
    rw [hlive c hne] at hc
    rcases h.present c hc with ⟨hlt, hold, hcwd⟩
    refine ⟨hlt, by rw [hexist]; exact Bool.or_eq_true_iff.mpr (.inr hold), ?_⟩
    rw [hstate, cwd_copyCage_of_ne _ _ hne]
    exact hcwd
  · rw [hstate, mmaps_copyCage]
    by_cases hne : c = child
    · rcases hnew with ⟨_, _, hsame⟩ | ⟨hlt, hdead, _⟩
      · rw [hsame] at hc
        exact h.unhandled c hc
      · exact hne ▸ (h.absent child hlt hdead).mmaps
    · rw [hhandled c hne] at hc
      exact h.unhandled c hc
  · rw [hstate, copyCage_eq]
    simp only []
    split
    · by_cases hne : c = child
      · rw [hne, update_self, h.routed cage sys hsys, h.routed child sys hsys]
        rfl
      · rw [update_of_ne hne]
        exact h.routed c sys hsys
    · exact h.routed c sys hsys

theorem exist_dropCage (s : State T) (cage : Nat) : checkCageExists (s.dropCage cage).fds =
    fun c => !decide (c = cage) && checkCageExists s.fds c :=
  exists_remove s.fds cage

theorem noEntries_dropCage (h : s.clampedMmaps cage = none) : NoEntries (s.dropCage cage) cage := by
  refine noEntries_of_exist (fun sys => ?_) ?_ ?_ h
  · rw [routes_dropCage, update_self]
  · rw [cwd_dropCage, update_self]
  · rw [exist_dropCage]
    simp only [decide_true, Bool.not_true, Bool.false_and]

theorem noEntries_dropCage_of_ne (hc : c ≠ cage) (h : NoEntries s c) :
    NoEntries (s.dropCage cage) c := by
  refine noEntries_of_exist (fun sys => ?_) ?_ ?_ h.mmaps
  · rw [routes_dropCage, update_of_ne hc]
    exact h.routes sys
  · rw [cwd_dropCage, update_of_ne hc]
    exact h.cwd
  · rw [exist_dropCage]
    simp only [h.exist, Bool.and_false]

theorem kept_exit (h : Kept w) (hmmaps : w.state.clampedMmaps cage = none)
    (hstate : w'.state = w.state.dropCage cage) (hlive : w'.live = update w.live cage false)
    (hhandled : w'.handled = update w.handled cage false) : Kept w' := by
  refine ⟨fun c hlt hdead => ?_, fun c hc => ?_, fun c hc => ?_, fun c sys hsys => ?_⟩
  · rw [hstate]
    by_cases hne : c = cage
    · rw [hne]
      exact noEntries_dropCage hmmaps
    · rw [hlive, update_of_ne hne] at hdead
      exact noEntries_dropCage_of_ne hne (h.absent c hlt hdead)
  · have hne : c ≠ cage := by
      intro heq
      rw [hlive, heq, update_self] at hc
      cases hc
    rw [hlive, update_of_ne hne] at hc
    rcases h.present c hc with ⟨hlt, hexist, path, hcwd⟩
    refine ⟨hlt, ?_, path, ?_⟩
    · rw [hstate, exist_dropCage]
      simp only [hne, hexist, decide_false, Bool.not_false, Bool.and_self]
    · rw [hstate, cwd_dropCage, update_of_ne hne]
      exact hcwd
  · rw [hstate, mmaps_dropCage]
    by_cases hne : c = cage
    · rw [hne]
      exact hmmaps
    · rw [hhandled, update_of_ne hne] at hc
      exact h.unhandled c hc
  · rw [hstate, routes_dropCage]
    by_cases hne : c = cage
    · rw [hne, update_self]
    · rw [update_of_ne hne]
      exact h.routed c sys hsys

theorem kept_registers (h : Kept w) (hcage : w.live cage = true) (hs : Registers cage w.state s)
    (hstate : w'.state = (s.deregisterClampedCage cage).exitNestedClamp) (hlive : w'.live = w.live)
    (hhandled : w'.handled = update w.handled cage true) : Kept w' := by
  have hroutes : w'.state.routes = s.routes := by
    rw [hstate]
    rfl
  have hcwd : w'.state.cwdByCage = w.state.cwdByCage := by
    rw [hstate, hs.same]
    rfl
  have hfds : w'.state.fds = w.state.fds := by
    rw [hstate, hs.same]
    rfl
  have hmmaps : w'.state.clampedMmaps = w.state.clampedMmaps := by
    rw [hstate, hs.same]
    rfl
  refine ⟨fun c hlt hdead => ?_, fun c hc => ?_, fun c hc => ?_, fun c sys hsys => ?_⟩
  · rw [hlive] at hdead
    have hne : c ≠ cage := fun heq => by rw [heq, hcage] at hdead; cases hdead
    have hold := h.absent c hlt hdead
    exact noEntries_of_exist (by rw [hroutes, hs.routes c hne]; exact hold.routes)
      (by rw [hcwd]; exact hold.cwd) (by rw [hfds]; exact hold.exist)
      (by rw [hmmaps]; exact hold.mmaps)
  · rw [hlive] at hc
    rw [hcwd, hfds]
    exact h.present c hc
  · have hne : c ≠ cage := by
      intro heq
      rw [hhandled, heq, update_self] at hc
      cases hc
    rw [hhandled, update_of_ne hne] at hc
    rw [hmmaps]
    exact h.unhandled c hc
  · rw [hroutes, hs.calls c sys hsys]
    exact h.routed c sys hsys

omit [LawfulManagedTables T] in
theorem Kept.congr (h : Kept w) (hroutes : w'.state.routes = w.state.routes)
    (hcwd : w'.state.cwdByCage = w.state.cwdByCage) (hfds : w'.state.fds = w.state.fds)
    (hmmaps : w'.state.clampedMmaps = w.state.clampedMmaps) (hlive : w'.live = w.live)
    (hhandled : w'.handled = w.handled) : Kept w' := by
  refine ⟨fun c hlt hdead => ?_, fun c hc => ?_, fun c hc => ?_, fun c sys hsys => ?_⟩
  · rw [hlive] at hdead
    rcases h.absent c hlt hdead with ⟨h1, h2, h3, h4, h5⟩
    exact ⟨hroutes ▸ h1, hcwd ▸ h2, hfds ▸ h3, hfds ▸ h4, hmmaps ▸ h5⟩
  · rw [hlive] at hc
    rw [hcwd, hfds]
    exact h.present c hc
  · rw [hhandled] at hc
    rw [hmmaps]
    exact h.unhandled c hc
  · rw [hroutes]
    exact h.routed c sys hsys

theorem kept_exec (h : Kept w) {replies : List Int} {path : Str} (hcage : w.live cage = true)
    (hstep : ExecStep w cage replies path w') : Kept w' := by
  cases hstep with
  | opening _ hw' | inner _ _ hw' =>
    subst hw'
    exact h.congr rfl rfl rfl rfl rfl rfl
  | closing s _ _ hs hw' =>
    exact kept_registers h hcage hs (by rw [hw']) (by rw [hw']) (by rw [hw'])
  | program _ _ _ _ hw' =>
    subst hw'
    by_cases hone : w.state.clampDepth = 1
    · simp only [if_pos hone]
      exact h.congr rfl rfl rfl rfl rfl rfl
    · simp only [if_neg hone]
      exact h.congr rfl rfl rfl rfl rfl rfl

theorem kept_fork {w1 : World T} (h : Kept w) (hreply : w.ForkReply reply)
    (hchild : checkCageExists w.state.fds (wordOf reply).toNat = false)
    (hw1 : w1 = { w with state := w.state.copyCage cage (wordOf reply).toNat })
    (hw' : w' = if 0 < reply then w1.addCage cage reply.toNat else w1) : Kept w' := by
  subst hw1
  rcases hreply with hneg | ⟨hpos, hlt, hdead⟩
  · rw [if_neg (by omega)] at hw'
    subst hw'
    exact kept_copyCage h hchild rfl (fun _ _ => rfl) (fun _ _ => rfl)
      (.inl ⟨toNat_wordOf_neg hneg, rfl, rfl⟩)
  rw [if_pos hpos] at hw'
  have hnum := toNat_wordOf_pos ⟨hpos, hlt⟩
  rw [hnum] at hchild hw'
  subst hw'
  exact kept_copyCage h hchild rfl (fun c hc => update_of_ne hc _ _)
    (fun c hc => update_of_ne hc _ _)
    (.inr ⟨by omega, hdead, update_self ..⟩)

theorem kept_of_runs (h : Runs World.Start step Follows w) : Kept w := by
  refine runs_inv ?_ ?_ w h
  · intro w hstart
    exact kept_start hstart
  intro w a w' hw hcond hstep
  cases a with
  | call =>
    rcases step_call hstep with ⟨hlive, hhandled, htouch, hsame⟩
    exact kept_call hw hlive hhandled htouch hsame
  | fork =>
    rcases (step_fork hstep).2 with ⟨_, hw'⟩ | ⟨_, hreply, hchild, w1, hw1, hw'⟩
    · rw [hw']
      exact hw
    · exact kept_fork hw hreply hchild hw1 hw'
  | exit cage =>
    have hmmaps : w.state.clampedMmaps cage = none := by
      cases hhandled : w.handled cage with
      | true => exact hcond hhandled
      | false => exact hw.unhandled cage hhandled
    rw [(step_exit hstep).2]
    exact kept_exit hw hmmaps rfl rfl rfl
  | exec =>
    rcases step_exec hstep with ⟨hlive, path, _, hexec⟩
    exact kept_exec hw hlive hexec
  | register =>
    rw [step_register hstep]
    exact hw.congr rfl rfl rfl rfl rfl rfl

theorem twin_fork (h : Kept w) (hcage : w.live cage = true) (hchild : NoEntries w.state child)
    (hmmaps : w.state.clampedMmaps cage = none) (hroutes : w.state.clampedCages cage = true ∨
      ∀ sys ∈ fsCalls, w.state.routes cage sys = none) :
    Twin cage (w.state.copyCage cage child) child (w.state.copyCage cage child) := by
  rcases h.present cage hcage with ⟨_, hexist, path, hcwd⟩
  have hne : cage ≠ child := by
    intro heq
    rw [heq, hchild.exist] at hexist
    cases hexist
  have hroutes' := hroutes.imp_right h.routes_none
  refine ⟨rfl, ?_, ?_, ?_, ?_, ?_, ?_⟩
  · rw [routes_copyCage hchild.routes hroutes', routes_copyCage_of_ne _ _ hne]
  · rw [State.getCageCwd, State.getCageCwd, cwd_copyCage, cwd_copyCage_of_ne _ _ hne, hcwd,
      State.getCageCwd, hcwd]
    exact normalizePath_normalizePath path
  · rw [fds_copyCage, translate_copy _ _ _ hchild.exist]
    simp only [if_pos, if_neg hne]
  · rw [mmaps_copyCage, hchild.mmaps, hmmaps]
  · rw [fds_copyCage, exists_copy_dst _ _ _ hchild.exist]
    simp only [hexist, Bool.or_true]
  · rw [fds_copyCage, exists_copy_dst _ _ _ hchild.exist]
    simp only [decide_true, Bool.true_or]

/-- In every run under the condition nothing is kept for a number that belongs to
    no cage. A fork of a target or one of its descendants makes a child that has
    what its parent has and is treated like it; a failed fork and a thread change
    nothing; and a cage that ends leaves nothing behind. -/
theorem policy_follows {w : World T} (h : Runs World.Start step Follows w) :
    (∀ c, c < 2 ^ 31 → w.live c = false → NoEntries w.state c) ∧
      ∀ cage, w.handled cage = true → ∀ args reply w',
        (Follows w (.fork cage args false reply) →
          w.step (.fork cage args false reply) = some w' → 0 < reply →
            Inherits w'.state cage reply.toNat) ∧
        (∀ isThread, isThread = true ∨ reply < 0 → Follows w (.fork cage args isThread reply) →
          w.step (.fork cage args isThread reply) = some w' → SameTables w.state w'.state) ∧
        (Follows w (.exit cage args reply) → w.step (.exit cage args reply) = some w' →
          NoEntries w'.state cage) := by
  have hw := kept_of_runs h
  refine ⟨hw.absent, fun cage hcage args reply w' => ⟨?_, ?_, ?_⟩⟩
  · intro hcond hstep hpos
    rcases step_fork hstep with ⟨hlive, ⟨hthread, _⟩ | ⟨_, hreply, hchild, w₁, hw₁, hw'⟩⟩
    · cases hthread
    rcases (hcond hcage).resolve_left Bool.false_ne_true with ⟨_, hmmaps, hroutes⟩
    rcases hreply with hneg | ⟨_, hlt, hdead⟩
    · omega
    have hnum := toNat_wordOf_pos ⟨hpos, hlt⟩
    have hstate : w'.state = w.state.copyCage cage reply.toNat := by
      rw [hw', if_pos hpos, hw₁, hnum]
      rfl
    have htwin := twin_fork hw hlive (hw.absent _ (by omega) hdead) hmmaps hroutes
    rw [hstate]
    exact ⟨htwin.routes, htwin.cwd, htwin.fds, htwin.mmaps,
      fun mem mem' sys cargs hmem => alike_nsHandler cargs htwin hmem sys⟩
  · intro isThread hfail hcond hstep
    rcases (step_fork hstep).2 with ⟨_, hw'⟩ | ⟨hprocess, _, _, _⟩
    · rw [hw']
      exact ⟨rfl, rfl, rfl, rfl, rfl⟩
    -- a process fork that fails does not keep to the condition
    rw [hprocess] at hfail hcond
    have hpos := ((hcond hcage).resolve_left Bool.false_ne_true).1
    have hneg := hfail.resolve_left Bool.false_ne_true
    omega
  · intro hcond hstep
    rw [(step_exit hstep).2]
    exact noEntries_dropCage (hcond hcage)

/-- A target without routes opens a file, changes its directory and forks, and the
    child ends. -/
theorem policy_follows_child :
    ∃ w w' w'' : World (MapTables 16), Runs World.Start step Follows w ∧
      w.handled 2 = true ∧ w.step (forks 2 3) = some w' ∧
      translateVirtualFd w'.state.fds 2 3 = some ⟨0, 5, false, 0⟩ ∧
      w'.state.getCageCwd 2 = "/d".toList ∧ Inherits w'.state 2 3 ∧
      w'.step (.exit 3 (fun _ => 0) 0) = some w'' ∧ NoEntries w''.state 3 := by
  have := lawful_managedMapTables 16 (by decide) (by decide)
  have hrun : ∃ w : World (MapTables 16), Runs World.Start step Follows w ∧
      w.handled 2 = true ∧ Follows w (forks 2 3) ∧ ∃ w', w.step (forks 2 3) = some w' ∧
        translateVirtualFd w'.state.fds 2 3 = some ⟨0, 5, false, 0⟩ ∧
        w'.state.getCageCwd 2 = "/d".toList ∧ w'.handled 3 = true ∧
        Follows w' (.exit 3 (fun _ => 0) 0) ∧
        ∃ w'', w'.step (.exit 3 (fun _ => 0) 0) = some w'' ∧ True :=
    exists_runs_replay [execs 2 "%\x7d", .call 2 .open (fun _ => 0) (textMem "/etc/a") [5],
      .call 2 .chdir (fun _ => 0) (textMem "/d") [0]] loneWorld_start (by decide +kernel)
  rcases hrun with
    ⟨w, hw, hhandled, hfork, w', hstep, hfds, hcwd, hhandled', hexit, w'', hstep', _⟩
  have hw' : Runs World.Start step Follows w' := .next _ _ _ hw hfork hstep
  exact ⟨w, w', w'', hw, hhandled, hstep, hfds, hcwd,
    ((policy_follows hw).2 2 hhandled _ _ _).1 hfork hstep (by decide), hstep',
    ((policy_follows hw').2 3 hhandled' _ _ _).2.2 hexit hstep'⟩

/-- A target with routes for `open` and `stat` that has mapped a file. -/
def mappedRun : List Action :=
  [.register ⟨2, .open, 9, 7⟩ 0, .register ⟨2, .xstat, 9, 8⟩ 0, execs 2 "%\x7d",
    .call 2 .open (fun _ => 0) (textMem "/tmp/a") [5],
    .call 2 .mmap (fun i => if i = 1 then 4096 else if i = 4 then 3 else 0) (textMem "") [8192]]

/-- The child of such a target has neither its routes nor its mapped ranges; a
    fork that fails makes a table and a directory for the error; and when the
    target ends its mapped ranges stay. -/
theorem policy_lost :
    ∃ w w₁ w₂ w₃ : World (MapTables 16),
      Runs World.Start step (fun _ _ => True) w ∧ w.handled 2 = true ∧
      w.step (forks 2 3) = some w₁ ∧
      w₁.state.routes 2 .xstat ≠ none ∧ w₁.state.routes 3 .xstat = none ∧
      w₁.state.clampedMmaps 3 ≠ w₁.state.clampedMmaps 2 ∧
      w.step (forks 2 (-11)) = some w₂ ∧
      checkCageExists w₂.state.fds (2 ^ 64 - 11) ≠ checkCageExists w.state.fds (2 ^ 64 - 11) ∧
      w₂.state.cwdByCage (2 ^ 64 - 11) ≠ w.state.cwdByCage (2 ^ 64 - 11) ∧
      w.step (.exit 2 (fun _ => 0) 0) = some w₃ ∧ w₃.state.clampedMmaps 2 ≠ none := by
  have hrun : ∃ w : World (MapTables 16), Runs World.Start step (fun _ _ => True) w ∧
      w.handled 2 = true ∧
      (∃ w₁, w.step (forks 2 3) = some w₁ ∧ w₁.state.routes 2 .xstat ≠ none ∧
        w₁.state.routes 3 .xstat = none ∧ w₁.state.clampedMmaps 3 ≠ w₁.state.clampedMmaps 2) ∧
      (∃ w₂, w.step (forks 2 (-11)) = some w₂ ∧
        checkCageExists w₂.state.fds (2 ^ 64 - 11) ≠ checkCageExists w.state.fds (2 ^ 64 - 11) ∧
        w₂.state.cwdByCage (2 ^ 64 - 11) ≠ w.state.cwdByCage (2 ^ 64 - 11)) ∧
      ∃ w₃, w.step (.exit 2 (fun _ => 0) 0) = some w₃ ∧ w₃.state.clampedMmaps 2 ≠ none :=
    exists_runs_replay mappedRun loneWorld_start (by decide +kernel)
  rcases hrun with ⟨w, hw, hhandled, ⟨w₁, hstep₁, hroute, hlost, hmmaps⟩,
    ⟨w₂, hstep₂, htable, hcwd⟩, w₃, hstep₃, hleft⟩
  exact ⟨w, w₁, w₂, w₃, hw, hhandled, hstep₁, hroute, hlost, hmmaps, hstep₂, htable, hcwd, hstep₃,
    hleft⟩

end LindGrates.FsClamp
