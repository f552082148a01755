import LindGrates.Theory.FdSupport.Transparent

/-!
# What Every Run Keeps

## Main definitions

* `Grounded`: The cage has a table, which leads to numbers the kernel can have given.

## Theorems

* `grounded_of_runs`: All calls keep that, whether they fit or not.
-/

namespace LindGrates.FdSupport

open FdTables LawfulFdTables Posix Function

variable {T : Type} [FdTables T] {w w' : World T} {a : Action} {s : Served T} {req : Request}
  {r : Result}

/-- The tables of a cage lead to numbers the kernel can have given. -/
structure Grounded (t : T) (cage : Nat) : Prop where
  registered : checkCageExists t cage = true
  bounded : Bounded t cage

variable {t t' : T} {cage fd k : Nat} {cloexec : Bool}

theorem grounded_entered (h : Grounded t cage) (hent : Entered t cage fd (kernelEntry k cloexec) t')
    (hk : k < 2 ^ 31) : Grounded t' cage := by
  refine ⟨hent.registered, fun fd' k' hk' => ?_⟩
  rw [nameOf_of_entered hent hk] at hk'
  by_cases hfd : fd' = fd
  · rw [hfd, update_self] at hk'
    cases hk'
    exact hk
  · rw [update_of_ne hfd] at hk'
    exact h.bounded fd' k' hk'

variable [LawfulFdTables T]

theorem grounded_close (h : Grounded t cage) :
    Grounded ((closeVirtualfd t cage fd).getD t) cage := by
  rcases hclose : closeVirtualfd t cage fd with _ | _
  · exact h
  have hex := (close_some _ _ _ _ hclose).2.2
  refine ⟨by rw [Option.getD_some, hex, h.registered], fun fd' k' hk' => ?_⟩
  rw [Option.getD_some, nameOf_of_update (translate_of_close hclose)] at hk'
  by_cases hfd : fd' = fd
  · rw [hfd, update_self] at hk'
    cases hk'
  · rw [update_of_ne hfd] at hk'
    exact h.bounded fd' k' hk'

theorem grounded_enterOne (h : Grounded t cage) (hk : k < 2 ^ 31) :
    Grounded (enterOne t cage k cloexec).fds cage := by
  rcases enterOne_cases h.registered with ⟨fd, t', hent, hall⟩ | ⟨hent, -⟩
  · rw [hent]
    exact grounded_entered h hall.toEntered hk
  · rw [hent]
    exact h

theorem grounded_enterAt (h : Grounded t cage) (hk : k < 2 ^ 31) :
    Grounded (enterAt t cage k k cloexec).fds cage := by
  rcases enterAt_cases h.registered with ⟨t', hent, hat⟩ | ⟨hent, -⟩
  · rw [hent]
    exact grounded_entered h hat hk
  · rw [hent]
    exact h

theorem grounded_enterPair {k1 k2 : Nat} {copied : Bool} {ret : Int} (h : Grounded t cage)
    (hk1 : k1 < 2 ^ 31) (hk2 : k2 < 2 ^ 31) :
    Grounded (enterPair t cage (k1, k2) cloexec copied ret).fds cage := by
  have hpair := enterPair_cases h.registered (k1, k2) cloexec copied ret
  generalize enterPair t cage (k1, k2) cloexec copied ret = final at hpair
  cases hpair with
  | neither => exact h
  | first _ _ hall => exact grounded_entered h hall.toEntered hk1
  | both _ _ _ _ hall1 hall2 =>
    exact grounded_entered (grounded_entered h hall1.toEntered hk1) hall2.toEntered hk2

theorem grounded_performed (h : Grounded w.fds w.cage)
    (hp : Performed w.fds w.kernel w.cage a req r s) : Grounded s.final.fds w.cage := by
  cases hm : a.call.meaning with
  | use fds | poll | select fds =>
    rw [(performed_inert hp (by rw [hm]; rfl)).1]
    exact h
  | close =>
    rcases performed_close hp hm with ⟨k, -, -, -, hfinal⟩
    rw [hfinal]
    exact grounded_close h
  | create =>
    rcases performed_create hp hm with ⟨k, hs⟩
    rw [hs.final]
    exact grounded_enterOne h hs.lt
  | dup =>
    rcases performed_dup hp hm with ⟨kold, x, k, -, -, hs⟩
    rw [hs.final]
    exact grounded_enterOne h hs.lt
  | replace =>
    rcases performed_replace hp hm with ⟨k, x, -, -, hs⟩
    cases hs with
    | refused _ hfinal =>
      rw [hfinal]
      exact h
    | kept hfinal _ _ hlt | placed hfinal _ _ hlt =>
      rw [hfinal]
      exact grounded_enterAt h hlt
  | mark =>
    rcases performed_mark hp hm with ⟨k, x, -, -, -, -, hfinal⟩
    rw [hfinal]
    exact h
  | pair =>
    rcases performed_pair hp hm with ⟨k1, k2, hs⟩
    rw [hs.final, Request.seenPair]
    split
    · exact grounded_enterPair h hs.lt₁ hs.lt₂
    · exact grounded_enterPair h (by decide) (by decide)

theorem grounded_serve (h : Grounded w.fds w.cage) (hcage : a.call.argcages = fun _ => w.cage)
    (hs : serve w.grate w.fds w.kernel a = some s) : Grounded s.final.fds w.cage := by
  cases hdirect : a.call.sys.direct with
  | true =>
    rcases serve_cases hdirect hcage h.bounded hs with hdenied | ⟨req, r, hp⟩
    · rw [hdenied.fds]
      exact h
    · exact grounded_performed h hp
  | false =>
    rw [(serve_indirect hdirect hs).1]
    exact h

theorem grounded_of_runs {cond : World T → Action → Prop} (h : Runs World.Start World.step cond w) :
    Grounded w.fds w.cage := by
  refine runs_inv (I := fun w => Grounded w.fds w.cage) (fun w hw => ?_)
    (fun w a w' hi _ hstep => ?_) w h
  · have hm := mirrors_start hw
    exact ⟨hm.registered, hm.bounded⟩
  · rcases step_cases hstep with ⟨hcage, s, hs, rfl⟩
    have hg := grounded_serve hi hcage hs
    exact hg

end LindGrates.FdSupport
