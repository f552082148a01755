import Mathlib.Algebra.Ring.Int.Defs
import Mathlib.Algebra.Ring.Nat

/-!
# Rust Values

A Rust function either returns, panics, or runs forever. A grate holds a global mutex
while it runs: a panic poisons the lock and a loop that never ends keeps it, so in
either case no later call is served.

A Rust `str` is a sequence of Unicode scalar values whose `len` counts UTF-8
bytes. Lean's `Char` is exactly a Unicode scalar value.

Casts are written out. The grates are compiled for a 32-bit WebAssembly target
in release mode, so `as i32` and `as usize` keep the low 32 bits and `i64`
addition wraps.

## Main definitions

* `Outcome`: A call that returns or does not, which is no error code the caller receives.
* `Str`: A string, as a list of its scalar values.
* `asI32`, `asUsize`, `asU64`, `wrapI64`: The casts.
-/

namespace LindGrates

/-- The ways a call does not return: a panic, or a loop without an end. -/
inductive Fault
  | panic
  | hang
  deriving DecidableEq, Repr

/-- A call that returns a value, or does not return. -/
abbrev Outcome (α : Type) := Except Fault α

variable {α : Type}

theorem ok_bind {ε β : Type} (a : α) (f : α → Except ε β) : (Except.ok a >>= f) = f a :=
  rfl

/-- A sequence of two computations succeeds exactly when both do. -/
theorem bind_eq_ok {ε β : Type} (x : Except ε α) (f : α → Except ε β) (b : β) :
    (x >>= f) = .ok b ↔ ∃ a, x = .ok a ∧ f a = .ok b := by
  cases x with
  | error e =>
    constructor
    · intro h
      cases h
    · rintro ⟨a, h, _⟩
      cases h
  | ok a => simp only [ok_bind, Except.ok.injEq, exists_eq_left']

/-- Whatever the call returns satisfies `Q`. A call that does not return
    satisfies every `Q`. -/
def Returns {α : Type} (x : Outcome α) (Q : α → Prop) : Prop :=
  ∀ a, x = .ok a → Q a

theorem returns_ok {a : α} {Q : α → Prop} (h : Q a) : Returns (.ok a) Q := by
  intro b hb
  cases hb
  exact h

theorem returns_error (e : Fault) (Q : α → Prop) : Returns (.error e) Q := by
  intro b hb
  cases hb

/-- The second half of a sequenced call may use that the first half returned. -/
theorem returns_bind {β : Type} {x : Outcome α} {f : α → Outcome β} {Q : β → Prop}
    (h : ∀ a, x = .ok a → Returns (f a) Q) : Returns (x >>= f) Q := by
  intro b hb
  rcases (bind_eq_ok x f b).mp hb with ⟨a, ha, hf⟩
  exact h a ha b hf

theorem returns_ite {p : Prop} [Decidable p] {x y : Outcome α} {Q : α → Prop} (hx : p → Returns x Q)
    (hy : ¬ p → Returns y Q) : Returns (if p then x else y) Q := by
  by_cases hp : p
  · rw [if_pos hp]
    exact hx hp
  · rw [if_neg hp]
    exact hy hp

/-- `Option::ok_or`: the value of an option, or a given error. -/
def okOr {ε α : Type} (e : ε) : Option α → Except ε α
  | some a => .ok a
  | none => .error e

theorem okOr_eq_ok {ε : Type} (e : ε) (o : Option α) (a : α) : okOr e o = .ok a ↔ o = some a := by
  cases o with
  | none => simp only [okOr, reduceCtorEq]
  | some b => simp only [okOr, Except.ok.injEq, Option.some.injEq]

/-- A Rust string, as its sequence of Unicode scalar values. -/
abbrev Str := List Char

/-- `str::len`: the number of UTF-8 bytes. -/
def Str.len (s : Str) : Nat :=
  (s.map Char.utf8Size).sum

/-- `str::split('/')`. -/
def Str.split (s : Str) : List Str :=
  s.splitOn '/'

/-- `parts.join("/")`. -/
def Str.join (parts : List Str) : Str :=
  ['/'].intercalate parts

/-- `str::starts_with('/')`. -/
def Str.isAbsolute (s : Str) : Bool :=
  s.head? = some '/'

/-- `str::parse` for an unsigned integer type whose values are below the
    bound. -/
def parseUnsigned (bound : Nat) (s : Str) : Option Nat :=
  let digits := if s.head? = some '+' then s.tail else s
  if digits ≠ [] ∧ digits.all Char.isDigit ∧ Nat.ofDigitChars 10 digits 0 < bound then
    some (Nat.ofDigitChars 10 digits 0)
  else none

/-- `x as i32` for a wider integer: the low 32 bits, read as signed. -/
def asI32 (x : Int) : Int :=
  x.bmod (2 ^ 32)

theorem asI32_natCast {n : Nat} (h : n < 2 ^ 31) : asI32 (n : Int) = n := by
  rw [asI32, Int.bmod_def]
  omega

/-- `x as usize` on the 32-bit target. -/
def asUsize (x : Int) : Nat :=
  (x % 2 ^ 32).toNat

/-- `x as u64` for a signed integer. -/
def asU64 (x : Int) : Nat :=
  (x % 2 ^ 64).toNat

/-- The `i64` an addition leaves behind in release mode. -/
def wrapI64 (x : Int) : Int :=
  x.bmod (2 ^ 64)

/-- A byte buffer a caller passes in. An allocation holds at most
    `isize::MAX` bytes, so on the 32-bit target a length fits in an `i32`. -/
structure Slice where
  bytes : List UInt8
  length_lt : bytes.length < 2 ^ 31

end LindGrates
