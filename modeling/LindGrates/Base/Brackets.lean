import Mathlib.Data.List.Basic

/-!
# Nested Blocks

A sequence of elements some of which open and close blocks, and the counter that
finds the end of the outermost block.

## Main definitions

* `Outline`: What is in a sequence apart from nested blocks. It does not count.
* `Gauge`: The counter.

## Theorems

* `scan_of_outline`: The counter over a well-matched sequence.
* `scan_closed`: The counter behind the outermost block.
-/

namespace LindGrates

/-- What an element does to the nesting. -/
inductive Bracket
  | opening
  | closing
  | other
  deriving DecidableEq, Repr

variable {A : Type} (kind : A → Bracket)

/-- A well-matched sequence, and its elements outside all of its blocks. -/
inductive Outline : List A → List A → Prop
  | nil : Outline [] []
  | other (a : A) (as tops : List A) (ha : kind a = .other) (has : Outline as tops) :
      Outline (a :: as) (a :: tops)
  | block (a : A) (as inner : List A) (b : A) (bs tops : List A) (ha : kind a = .opening)
      (has : Outline as inner) (hb : kind b = .closing) (hbs : Outline bs tops) :
      Outline (a :: (as ++ b :: bs)) tops

/-- The counter: the depth, the last element directly inside the outermost block,
    and the elements that closed that block. -/
structure Gauge (A : Type) where
  depth : Nat
  last : Option A
  ends : List A

namespace Gauge

/-- The counter moves on by one element. -/
def step (g : Gauge A) (a : A) : Gauge A :=
  match kind a with
  | .opening => { g with depth := g.depth + 1 }
  | .closing =>
    if 1 < g.depth then { g with depth := g.depth - 1 }
    else { g with depth := g.depth - 1, ends := g.ends ++ [a] }
  | .other => if g.depth = 1 then { g with last := some a } else g

/-- The counter goes over a sequence. -/
def scan (g : Gauge A) (as : List A) : Gauge A :=
  as.foldl (step kind) g

variable {kind}

theorem scan_cons (g : Gauge A) (a : A) (as : List A) :
    g.scan kind (a :: as) = (g.step kind a).scan kind as :=
  rfl

theorem scan_append (g : Gauge A) (as bs : List A) :
    g.scan kind (as ++ bs) = (g.scan kind as).scan kind bs :=
  List.foldl_append

variable {a : A}

theorem step_opening (h : kind a = .opening) (g : Gauge A) :
    g.step kind a = { g with depth := g.depth + 1 } := by
  rw [step, h]

theorem step_closing_inner (h : kind a = .closing) {g : Gauge A} (hg : 1 < g.depth) :
    g.step kind a = { g with depth := g.depth - 1 } := by
  rw [step, h]
  exact if_pos hg

theorem step_closing_outer (h : kind a = .closing) {g : Gauge A} (hg : ¬1 < g.depth) :
    g.step kind a = { g with depth := g.depth - 1, ends := g.ends ++ [a] } := by
  rw [step, h]
  exact if_neg hg

theorem step_other (h : kind a = .other) (g : Gauge A) :
    g.step kind a = if g.depth = 1 then { g with last := some a } else g := by
  rw [step, h]

/-- A well-matched sequence leaves the depth alone, and what was seen last changes
    only directly inside the outermost block. -/
theorem scan_of_outline {as tops : List A} (h : Outline kind as tops) :
    ∀ g : Gauge A, 0 < g.depth → g.scan kind as =
      if g.depth = 1 then { g with last := tops.getLast?.or g.last } else g := by
  induction h with
  | nil =>
    intro g _
    rw [show g.scan kind [] = g from rfl]
    split
    · rfl
    · rfl
  | other a _ tops ha _ ih =>
    intro g hg
    rw [scan_cons, step_other ha]
    by_cases hone : g.depth = 1
    · rw [if_pos hone, if_pos hone, ih { g with last := some a } hg]
      rw [if_pos hone, List.getLast?_cons]
      cases tops.getLast? with
      | none | some => rfl
    · rw [if_neg hone, if_neg hone, ih g hg, if_neg hone]
  | block a as inner b bs tops ha _ hb _ ihas ihbs =>
    intro g hg
    -- inside the block the depth is at least two, so nothing is seen there
    have hinner : { g with depth := g.depth + 1 }.scan kind as =
        { g with depth := g.depth + 1 } := by
      rw [ihas _ (Nat.succ_pos _)]
      exact if_neg (by simp only []; omega)
    rw [scan_cons, step_opening ha, scan_append, hinner, scan_cons,
      step_closing_inner hb (by simp only []; omega)]
    exact ihbs g hg

/-- Behind the element that closes the outermost block nothing changes, as long
    as no further blocks are opened or closed. -/
theorem scan_closed {as tops bs : List A} {b : A} (has : Outline kind as tops)
    (hb : kind b = .closing) (hbs : ∀ a ∈ bs, kind a = .other) (g : Gauge A) (hg : g.depth = 1) :
    g.scan kind (as ++ b :: bs) = ⟨0, tops.getLast?.or g.last, g.ends ++ [b]⟩ := by
  rw [scan_append, scan_of_outline has g (by omega), if_pos hg, scan_cons,
    step_closing_outer hb (by simp only []; omega)]
  simp only [hg, Nat.sub_self]
  induction bs with
  | nil => rfl
  | cons a bs ih =>
    rw [scan_cons, step_other (hbs a (List.mem_cons_self ..)), if_neg (by simp only []; omega)]
    exact ih fun c hc => hbs c (List.mem_cons_of_mem _ hc)

end Gauge

end LindGrates
