import Mathlib.Data.Nat.Notation
import Mathlib.Logic.Function.Basic

/-!
# Labellings that Group Alike

Two ways of labelling some of the keys of a type, compared by which keys they
give the same label.

## Main definitions

* `Alike`: The same keys have labels, drawn from below two bounds, and are grouped alike.

## Theorems

* `alike_drop`, `alike_fresh`: A label is taken away, or a new one given.
-/

namespace LindGrates

open Function

variable {K : Type} {f g : K → Option Nat} {m n : Nat}

/-- `f` and `g` label the same keys, and give two keys the same label together. -/
structure Alike (f g : K → Option Nat) (m n : Nat) : Prop where
  dom : ∀ k, f k = none ↔ g k = none
  same : ∀ k₁ k₂, f k₁ = f k₂ ↔ g k₁ = g k₂
  lt_left : ∀ k x, f k = some x → x < m
  lt_right : ∀ k x, g k = some x → x < n

theorem alike_none : Alike (fun _ : K => none) (fun _ => none) m n :=
  ⟨fun _ => Iff.rfl, fun _ _ => Iff.rfl, nofun, nofun⟩

theorem alike_comp (h : Alike f g m n) (r : K → K) :
    Alike (fun k => f (r k)) (fun k => g (r k)) m n :=
  ⟨fun k => h.dom (r k), fun k1 k2 => h.same (r k1) (r k2), fun k => h.lt_left (r k),
    fun k => h.lt_right (r k)⟩

variable [DecidableEq K]

theorem alike_drop (h : Alike f g m n) (k0 : K) :
    Alike (update f k0 none) (update g k0 none) m n := by
  refine ⟨fun k => ?_, fun k1 k2 => ?_, fun k x hx => ?_, fun k x hx => ?_⟩
  · simp only [update_apply]
    split
    · exact Iff.rfl
    · exact h.dom k
  · simp only [update_apply]
    by_cases h1 : k1 = k0
    · by_cases h2 : k2 = k0
      · simp only [h1, h2]
      · rw [if_pos h1, if_pos h1, if_neg h2, if_neg h2, eq_comm, h.dom k2, eq_comm]
    by_cases h2 : k2 = k0
    · simp only [if_neg h1, if_pos h2, h.dom k1]
    · simp only [if_neg h1, if_neg h2, h.same k1 k2]
  · rw [update_apply] at hx
    split at hx
    · cases hx
    · exact h.lt_left k x hx
  · rw [update_apply] at hx
    split at hx
    · cases hx
    · exact h.lt_right k x hx

theorem alike_fresh (h : Alike f g m n) (k0 : K) :
    Alike (update f k0 (some m)) (update g k0 (some n)) (m + 1) (n + 1) := by
  have hf : ∀ k, some m ≠ f k := fun k hk => Nat.lt_irrefl m (h.lt_left k m hk.symm)
  have hg : ∀ k, some n ≠ g k := fun k hk => Nat.lt_irrefl n (h.lt_right k n hk.symm)
  refine ⟨fun k => ?_, fun k1 k2 => ?_, fun k x hx => ?_, fun k x hx => ?_⟩
  · simp only [update_apply]
    split
    · simp only [reduceCtorEq]
    · exact h.dom k
  · simp only [update_apply]
    by_cases h1 : k1 = k0
    · by_cases h2 : k2 = k0
      · simp only [h1, h2]
      · simp only [if_pos h1, if_neg h2, hf k2, hg k2]
    by_cases h2 : k2 = k0
    · simp only [if_neg h1, if_pos h2, (hf k1).symm, (hg k1).symm]
    · simp only [if_neg h1, if_neg h2, h.same k1 k2]
  · rw [update_apply] at hx
    split at hx
    · cases hx
      exact Nat.lt_succ_self m
    · exact Nat.lt_succ_of_lt (h.lt_left k x hx)
  · rw [update_apply] at hx
    split at hx
    · cases hx
      exact Nat.lt_succ_self n
    · exact Nat.lt_succ_of_lt (h.lt_right k x hx)

end LindGrates
