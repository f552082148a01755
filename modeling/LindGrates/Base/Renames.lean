import Mathlib.Data.Set.Function

/-!
# One-to-one Renamings

Two tables give values to names of two kinds, and a partial map leads from the
names of the outer table to those of the inner one.

## Main definitions

* `Renames`: The outer table is the inner one read through a one-to-one map.
* `Covers`: Nothing in the inner table is out of reach.

## Theorems

* `bijOn_of_renames`: A covering renaming is a bijection between the names in use.
* `renames_insert`, `renames_erase`, `renames_assign`: Both tables change together.
-/

namespace LindGrates

open Function Option

variable {α β γ : Type} {names : α → Option β} {outer : α → Option γ} {inner : β → Option γ}
  {a : α} {b : β} {c : γ}

/-- The outer table is the inner one read through a one-to-one map. -/
structure Renames (names : α → Option β) (outer : α → Option γ) (inner : β → Option γ) :
    Prop where
  denotes : ∀ a, outer a = (names a).bind inner
  backed : ∀ a b, names a = some b → inner b ≠ none
  injective : ∀ a a' b, names a = some b → names a' = some b → a = a'

/-- Every inner name in use is reached from an outer one. -/
def Covers (names : α → Option β) (inner : β → Option γ) : Prop :=
  ∀ b, inner b ≠ none → ∃ a, names a = some b

section

variable (h : Renames names outer inner)

include h

theorem outer_of_names (hab : names a = some b) :
    outer a = inner b := by
  rw [h.denotes, hab, bind_some]

theorem outer_eq_none_iff (a : α) :
    outer a = none ↔ names a = none := by
  cases hab : names a with
  | none => simp only [h.denotes, hab, bind_none]
  | some b => simp only [outer_of_names h hab, h.backed a b hab, reduceCtorEq]

theorem ne_of_inner_eq_none (hb : inner b = none) (a : α) :
    names a ≠ some b :=
  fun hab => h.backed a b hab hb

/-- A covering renaming is a bijection between the names in use that keeps
    their values. -/
theorem bijOn_of_renames [Inhabited β] (hcov : Covers names inner) :
    Set.BijOn (fun a => (names a).getD default) {a | outer a ≠ none} {b | inner b ≠ none} ∧
      ∀ a, outer a ≠ none → outer a = inner ((names a).getD default) := by
  have hused : ∀ a, outer a ≠ none → ∃ b, names a = some b := fun a ha =>
    ne_none_iff_exists'.mp fun hn => ha ((outer_eq_none_iff h a).mpr hn)
  refine ⟨⟨fun a ha => ?_, fun a ha a' ha' heq => ?_, fun b hb => ?_⟩, fun a ha => ?_⟩
  · rcases hused a ha with ⟨b, hab⟩
    change inner ((names a).getD default) ≠ none
    rw [hab]
    exact h.backed a b hab
  · rcases hused a ha with ⟨b, hab⟩
    rcases hused a' ha' with ⟨b', hab'⟩
    dsimp only at heq
    rw [hab, hab', getD_some, getD_some] at heq
    exact h.injective a a' b hab (heq ▸ hab')
  · rcases hcov b hb with ⟨a, hab⟩
    refine ⟨a, fun hnone => ?_, by simp only [hab, getD_some]⟩
    rw [(outer_eq_none_iff h a).mp hnone] at hab
    cases hab
  · rcases hused a ha with ⟨b, hab⟩
    rw [hab, getD_some]
    exact outer_of_names h hab

variable [DecidableEq β]

theorem renames_spare (hb : ∀ a, names a ≠ some b) :
    Renames names outer (update inner b (some c)) := by
  have hne : ∀ x y, names x = some y → y ≠ b := by
    rintro x y hx rfl
    exact hb x hx
  refine ⟨fun x => ?_, fun x y hx => ?_, h.injective⟩
  · rw [h.denotes]
    cases hn : names x with
    | none => rfl
    | some y => rw [bind_some, bind_some, update_of_ne (hne x y hn)]
  · rw [update_of_ne (hne x y hx)]
    exact h.backed x y hx

variable [DecidableEq α]

theorem renames_insert (hb : ∀ a' ≠ a, names a' ≠ some b) :
    Renames (update names a (some b)) (update outer a (some c))
      (update inner b (some c)) := by
  refine ⟨fun x => ?_, fun x y hx => ?_, fun x x' y hx hx' => ?_⟩
  · by_cases hxa : x = a
    · rw [hxa, update_self, update_self, bind_some, update_self]
    rw [update_of_ne hxa, update_of_ne hxa, h.denotes]
    rcases hn : names x with _ | y
    · rfl
    have hyb : y ≠ b := by
      rintro rfl
      exact hb x hxa hn
    rw [bind_some, bind_some, update_of_ne hyb]
  · by_cases hyb : y = b
    · rw [hyb, update_self]
      exact some_ne_none c
    rw [update_of_ne hyb]
    by_cases hxa : x = a
    · rw [hxa, update_self] at hx
      exact absurd (Option.some.inj hx).symm hyb
    · rw [update_of_ne hxa] at hx
      exact h.backed x y hx
  · -- the new pair meets no old one, since the inner name was behind nothing else
    by_cases hxa : x = a
    · by_cases hxa' : x' = a
      · rw [hxa, hxa']
      rw [hxa, update_self] at hx
      rw [update_of_ne hxa', ← hx] at hx'
      exact absurd hx' (hb x' hxa')
    rw [update_of_ne hxa] at hx
    by_cases hxa' : x' = a
    · rw [hxa', update_self] at hx'
      rw [← hx'] at hx
      exact absurd hx (hb x hxa)
    · rw [update_of_ne hxa'] at hx'
      exact h.injective x x' y hx hx'

theorem renames_erase (hab : names a = some b) :
    Renames (update names a none) (update outer a none)
      (update inner b none) := by
  have hother : ∀ x y, update names a none x = some y → names x = some y ∧ y ≠ b := by
    intro x y hx
    have hxa : x ≠ a := by
      rintro rfl
      rw [update_self] at hx
      cases hx
    rw [update_of_ne hxa] at hx
    refine ⟨hx, ?_⟩
    rintro rfl
    exact hxa (h.injective x a y hx hab)
  refine ⟨fun x => ?_, fun x y hx => ?_, fun x x' y hx hx' => ?_⟩
  · by_cases hxa : x = a
    · rw [hxa, update_self, update_self, bind_none]
    rcases hn : update names a none x with _ | y
    · rw [update_of_ne hxa] at hn ⊢
      rw [h.denotes, hn]
      rfl
    rcases hother x y hn with ⟨hx, hyb⟩
    rw [update_of_ne hxa, outer_of_names h hx, bind_some, update_of_ne hyb]
  · rcases hother x y hx with ⟨hx, hyb⟩
    rw [update_of_ne hyb]
    exact h.backed x y hx
  · exact h.injective x x' y (hother x y hx).1 (hother x' y hx').1

theorem renames_assign (hab : names a = some b) :
    Renames names (update outer a (some c)) (update inner b (some c)) := by
  have hself : update names a (some b) = names := by rw [← hab, update_eq_self]
  have := renames_insert (c := c) h
    fun a' hne ha' => hne (h.injective a' a b ha' hab)
  rwa [hself] at this

end

variable [DecidableEq β] (h : Covers names inner)

include h

theorem covers_assign (hab : names a = some b) :
    Covers names (update inner b (some c)) := by
  intro y hy
  by_cases hyb : y = b
  · exact ⟨a, by rw [hab, hyb]⟩
  · rw [update_of_ne hyb] at hy
    exact h y hy

variable [DecidableEq α]

theorem covers_insert (hfresh : ∀ b', names a = some b' → b' = b) :
    Covers (update names a (some b)) (update inner b (some c)) := by
  intro y hy
  by_cases hyb : y = b
  · exact ⟨a, by rw [hyb, update_self]⟩
  rw [update_of_ne hyb] at hy
  rcases h y hy with ⟨x, hx⟩
  have hxa : x ≠ a := by
    rintro rfl
    exact hyb (hfresh y hx)
  exact ⟨x, by rw [update_of_ne hxa, hx]⟩

theorem covers_erase (hab : names a = some b) :
    Covers (update names a none) (update inner b none) := by
  intro y hy
  have hyb : y ≠ b := by
    rintro rfl
    rw [update_self] at hy
    exact hy rfl
  rw [update_of_ne hyb] at hy
  rcases h y hy with ⟨x, hx⟩
  have hxa : x ≠ a := by
    rintro rfl
    exact hyb (Option.some.inj (hx.symm.trans hab))
  exact ⟨x, by rw [update_of_ne hxa, hx]⟩

end LindGrates
