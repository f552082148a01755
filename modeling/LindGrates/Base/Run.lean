import Mathlib.Data.Nat.Notation

/-!
# Runs of a Transition System

A system is a set of initial states and a partial function that says what an
action does. Each action of a run meets a condition when its turn comes, so that a
property of all runs and a property of the runs that avoid some situation are stated
alike.

## Main definitions

* `Runs`: The states that runs lead to.
* `replay`: The state a list of actions leads to.

## Theorems

* `runs_inv`: What holds initially and is kept by every step holds of every run.
* `exists_runs_replay`: A list of actions as a run.
-/

namespace LindGrates

variable {S A : Type} {init : S → Prop} {step : S → A → Option S} {cond cond' : S → A → Prop}

/-- The states a run leads to when each of its actions meets the condition. -/
inductive Runs (init : S → Prop) (step : S → A → Option S) (cond : S → A → Prop) : S → Prop
  | start (s : S) (h : init s) : Runs init step cond s
  | next (s : S) (a : A) (s' : S) (hs : Runs init step cond s) (hcond : cond s a)
      (hstep : step s a = some s') : Runs init step cond s'

theorem runs_inv {I : S → Prop} (hstart : ∀ s, init s → I s)
    (hnext : ∀ s a s', I s → cond s a → step s a = some s' → I s') :
    ∀ s, Runs init step cond s → I s := by
  intro s hs
  induction hs with
  | start s h => exact hstart s h
  | next s a s' _ hcond hstep ih => exact hnext s a s' ih hcond hstep

theorem runs_mono (h : ∀ s a, cond s a → cond' s a) (s : S) (hs : Runs init step cond s) :
    Runs init step cond' s := by
  induction hs with
  | start s hi => exact .start s hi
  | next s a s' _ hcond hstep ih => exact .next s a s' ih (h s a hcond) hstep

/-- The state a list of actions leads to, if each of them is possible and meets
    the condition when its turn comes. -/
def replay (step : S → A → Option S) (cond : S → A → Prop) [∀ s a, Decidable (cond s a)] :
    S → List A → Option S
  | s, [] => some s
  | s, a :: as => if cond s a then (step s a).bind fun s' => replay step cond s' as else none

instance decidableExistsSome {o : Option S} {P : S → Prop} [DecidablePred P] :
    Decidable (∃ s, o = some s ∧ P s) :=
  inferInstanceAs (Decidable (∃ s ∈ o, P s))

variable {s : S}

theorem runs_replay [∀ s a, Decidable (cond s a)] {as : List A} {s' : S}
    (hs : Runs init step cond s) (h : replay step cond s as = some s') :
    Runs init step cond s' := by
  induction as generalizing s with
  | nil =>
    cases h
    exact hs
  | cons a as ih =>
    rw [replay] at h
    split at h
    next hcond =>
      rcases Option.bind_eq_some_iff.mp h with ⟨s1, hstep, hrest⟩
      exact ih (.next s a s1 hs hcond hstep) hrest
    · cases h

/-- A run is no longer than what each of its actions lowers. -/
theorem length_le_of_replay [∀ s a, Decidable (cond s a)] {I : S → Prop} {rank : S → Nat}
    (hrank : ∀ s a s', I s → step s a = some s' → I s' ∧ rank s' < rank s) {as : List A}
    {s' : S} (hs : I s) (h : replay step cond s as = some s') : as.length + rank s' ≤ rank s := by
  induction as generalizing s with
  | nil =>
    cases h
    exact Nat.le_of_eq (Nat.zero_add _)
  | cons a as ih =>
    rw [replay] at h
    split at h
    · rcases Option.bind_eq_some_iff.mp h with ⟨s1, hstep, hrest⟩
      rcases hrank s a s1 hs hstep with ⟨hs1, hlt⟩
      have hle := ih hs1 hrest
      rw [List.length_cons]
      omega
    · cases h

/-- A property of the state a list of actions leads to holds at the end of some
    run. -/
theorem exists_runs_replay [∀ s a, Decidable (cond s a)] {P : S → Prop} [DecidablePred P]
    (as : List A) (hs : init s) (h : (replay step cond s as).any (fun s => decide (P s)) = true) :
    ∃ s', Runs init step cond s' ∧ P s' := by
  rcases hr : replay step cond s as with _ | s'
  · rw [hr] at h
    cases h
  rw [hr] at h
  exact ⟨s', runs_replay (.start s hs) hr, of_decide_eq_true h⟩

theorem exists_runs_of_forall {P : S → Prop} [DecidablePred P] {as : List A}
    (hcond : ∀ a ∈ as, ∀ s, cond s a) (hs : Runs init step cond s)
    (h : (replay step (fun _ _ => True) s as).any (fun s => decide (P s)) = true) :
    ∃ s', Runs init step cond s' ∧ P s' := by
  induction as generalizing s with
  | nil => exact ⟨s, hs, of_decide_eq_true h⟩
  | cons a _ ih =>
    rw [replay, if_pos trivial] at h
    rcases hstep : step s a with _ | s1
    · rw [hstep] at h
      cases h
    rw [hstep] at h
    exact ih (fun b hb => hcond b (List.mem_cons_of_mem _ hb))
      (.next s a s1 hs (hcond a (List.mem_cons_self ..) s) hstep) h

end LindGrates
