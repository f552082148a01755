import Mathlib.Data.Nat.Notation

/-!
# Bounded Loops

A `while` loop with an explicit bound on its passes, which answers `none` when they
run out, so a model that uses it says nothing about termination by itself.

## Main definitions

* `loop`: Run a loop body for at most the given number of passes.

## Theorems

* `loop_spec`: An invariant the body keeps, a measure it lowers, and a bound above the
  measure give a result, and what leaving under the invariant guarantees.
* `loop_inv`: The same for any bound, without the result.
-/

namespace LindGrates

/-- What one pass of a loop body decides: go round again, or leave. -/
inductive Pass (σ α : Type)
  | again (s : σ)
  | leave (a : α)

/-- Run a loop body for at most the given number of passes. -/
def loop {σ α : Type} (body : σ → Pass σ α) : Nat → σ → Option α
  | 0, _ => none
  | n + 1, s => match body s with
    | .again s' => loop body n s'
    | .leave a => some a

/-- Total correctness of a loop. The invariant is kept and the measure lowered
    by every pass that goes round, so a bound above the measure is enough. -/
theorem loop_spec {σ α : Type} (body : σ → Pass σ α) (I : σ → Prop) (μ : σ → Nat) (Q : α → Prop)
    (hagain : ∀ s s', I s → body s = .again s' → I s' ∧ μ s' < μ s)
    (hleave : ∀ s a, I s → body s = .leave a → Q a) :
    ∀ (n : Nat) (s : σ), I s → μ s < n → ∃ a, loop body n s = some a ∧ Q a := by
  intro n
  induction n with
  | zero => intro s _ hn; omega
  | succ k ih =>
    intro s hI hn
    cases hb : body s with
    | again s' =>
      rcases hagain s s' hI hb with ⟨hI', hlt⟩
      rcases ih s' hI' (by omega) with ⟨a, ha, hQ⟩
      exact ⟨a, by simp only [loop, hb]; exact ha, hQ⟩
    | leave a => exact ⟨a, by simp only [loop, hb], hleave s a hI hb⟩

/-- Partial correctness of a loop, for a bound that need not be large enough. -/
theorem loop_inv {σ α : Type} (body : σ → Pass σ α) (I : σ → Prop) (Q : α → Prop)
    (hagain : ∀ s s', I s → body s = .again s' → I s')
    (hleave : ∀ s a, I s → body s = .leave a → Q a) :
    ∀ (n : Nat) (s : σ) (a : α), I s → loop body n s = some a → Q a := by
  intro n
  induction n with
  | zero => intro s a _ h; simp only [loop, reduceCtorEq] at h
  | succ k ih =>
    intro s a hI h
    simp only [loop] at h
    cases hb : body s with
    | again s' =>
      rw [hb] at h
      exact ih s' a (hagain s s' hI hb) h
    | leave b =>
      rw [hb] at h
      simp only [Option.some.injEq] at h
      rw [← h]
      exact hleave s b hI hb

end LindGrates
