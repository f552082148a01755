import Mathlib.Algebra.Order.Field.Basic
import Mathlib.Tactic.Linarith

/-!
# Floating Point Numbers

As much of floating point arithmetic as can be relied on without looking at bits.

## Main definitions

* `Val`: What a floating point number stands for.
* `LawfulDouble`: A rounded result is not negative where the exact one is not, not more
  than twice the exact one, and not more than a number the exact one is not more than.
-/

namespace LindGrates

/-- What a floating point number stands for. -/
inductive Val
  | nan
  | negInf
  | posInf
  | real (x : ℚ)
  deriving DecidableEq

namespace Val

/-- The order, in which what is not a number has no place. -/
def less : Val → Val → Bool
  | nan, _ | _, nan | posInf, _ | _, negInf => false
  | negInf, _ | _, posInf => true
  | real x, real y => decide (x < y)

instance : LT Val := ⟨fun a b => less a b = true⟩

instance : DecidableLT Val := fun a b => inferInstanceAs (Decidable (less a b = true))

instance : Zero Val := ⟨real 0⟩

/-- An infinity with the sign of a number, or nothing for zero. -/
def infinity (x : ℚ) : Val :=
  if 0 < x then posInf else if x < 0 then negInf else nan

instance : Neg Val where
  neg
    | nan => nan
    | negInf => posInf
    | posInf => negInf
    | real x => real (-x)

instance : Add Val where
  add
    | nan, _ | _, nan | posInf, negInf | negInf, posInf => nan
    | posInf, _ | _, posInf => posInf
    | negInf, _ | _, negInf => negInf
    | real x, real y => real (x + y)

instance : Sub Val := ⟨fun a b => a + -b⟩

instance : Mul Val where
  mul
    | nan, _ | _, nan => nan
    | posInf, posInf | negInf, negInf => posInf
    | posInf, negInf | negInf, posInf => negInf
    | posInf, real x | real x, posInf => infinity x
    | negInf, real x | real x, negInf => infinity (-x)
    | real x, real y => real (x * y)

/-- The quotient, with the zeros taken as positive. -/
instance : Div Val where
  div
    | nan, _ | _, nan => nan
    | posInf, posInf | negInf, negInf | posInf, negInf | negInf, posInf => nan
    | posInf, real y => if y < 0 then negInf else posInf
    | negInf, real y => if y < 0 then posInf else negInf
    | real _, posInf | real _, negInf => real 0
    | real x, real y => if y = 0 then infinity x else real (x / y)

end Val

/-- An arithmetic that rounds. -/
class LawfulDouble (F : Type) [Zero F] [Add F] [Sub F] [Mul F] [Div F] [LT F] where
  val : F → Val
  val_zero : val 0 = .real 0
  lt_iff : ∀ {a b : F}, a < b ↔ val a < val b
  add : ∀ {a b : F} {x y : ℚ}, val a = .real x → val b = .real y → 0 ≤ x → 0 ≤ y →
    x + y ≤ 2 ^ 1000 → ∃ z, val (a + b) = .real z ∧ 0 ≤ z ∧ z ≤ 2 * (x + y)
  sub : ∀ {a b : F} {x y : ℚ}, val a = .real x → val b = .real y → 0 ≤ x → 0 ≤ y →
    ∃ z, val (a - b) = .real z ∧ z ≤ x ∧ (y ≤ x → 0 ≤ z)
  sub_posInf : ∀ {a b : F} {x : ℚ}, val a = .real x → val b = .posInf → val (a - b) = .negInf
  mul : ∀ {a b : F} {x y : ℚ}, val a = .real x → val b = .real y → 0 ≤ x → 0 ≤ y →
    val (a * b) = .posInf ∨ ∃ z, val (a * b) = .real z ∧ 0 ≤ z
  div : ∀ {a b : F} {x y : ℚ}, val a = .real x → val b = .real y → 0 ≤ x → 0 < y →
    x / y ≤ 2 ^ 1000 → ∃ z, val (a / b) = .real z ∧ 0 ≤ z ∧ z ≤ 2 * (x / y)

instance : LawfulDouble Val where
  val := id
  val_zero := rfl
  lt_iff := Iff.rfl
  add := by
    rintro _ _ x y rfl rfl hx hy _
    exact ⟨x + y, rfl, by linarith, by linarith⟩
  sub := by
    rintro _ _ x y rfl rfl _ hy
    exact ⟨x + -y, rfl, by linarith, fun h => by linarith⟩
  sub_posInf := by
    rintro _ _ x rfl rfl
    rfl
  mul := by
    rintro _ _ x y rfl rfl hx hy
    exact .inr ⟨x * y, rfl, mul_nonneg hx hy⟩
  div := by
    rintro _ _ x y rfl rfl hx hy _
    have hpos := div_nonneg hx hy.le
    exact ⟨x / y, if_neg hy.ne', hpos, by linarith⟩

end LindGrates
