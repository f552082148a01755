import LindGrates.Core.Rust
import Mathlib.Data.List.Basic

/-!
# Bytes as Text

One replacement character stands for the longest piece that could have begun a
character: the bytes up to the first one that cannot continue it.

## Main definitions

* `fromUtf8Lossy`: `String::from_utf8_lossy`, which reads bytes as UTF-8 and puts the
  replacement character where they are not.
* `Str.bytes`: `str::as_bytes`, its inverse on text.
-/

namespace LindGrates

def Str.bytes (s : Str) : List UInt8 :=
  s.flatMap String.utf8EncodeChar

/-- Whether a byte can continue a character. -/
def isContinuation (b : UInt8) : Bool :=
  0x80 ≤ b ∧ b ≤ 0xBF

/-- Whether the second byte fits the first one of a character of three or four
    bytes. -/
def secondFits (b₀ b₁ : UInt8) : Bool :=
  if b₀ = 0xE0 then 0xA0 ≤ b₁ ∧ b₁ ≤ 0xBF
  else if b₀ = 0xED then 0x80 ≤ b₁ ∧ b₁ ≤ 0x9F
  else if b₀ = 0xF0 then 0x90 ≤ b₁ ∧ b₁ ≤ 0xBF
  else if b₀ = 0xF4 then 0x80 ≤ b₁ ∧ b₁ ≤ 0x8F
  else isContinuation b₁

/-- How many bytes one replacement character stands for, where no character can
    be read. -/
def invalidLength (bs : List UInt8) : Nat :=
  let b₀ := bs.getD 0 0
  if 0xE0 ≤ b₀ ∧ b₀ ≤ 0xF4 ∧ secondFits b₀ (bs.getD 1 0) then
    if 0xF0 ≤ b₀ ∧ isContinuation (bs.getD 2 0) then 3 else 2
  else 1

/-- `from_utf8_lossy`, for at most so many characters. -/
def decodeLossy : Nat → List UInt8 → Str
  | 0, _ => []
  | n + 1, bs =>
    if bs = [] then []
    else
      match bs.toByteArray.utf8DecodeChar? 0 with
      | some c => c :: decodeLossy n (bs.drop c.utf8Size)
      | none => '�' :: decodeLossy n (bs.drop (invalidLength bs))

def fromUtf8Lossy (bs : List UInt8) : Str :=
  decodeLossy bs.length bs

/-- `String::from_utf8`. Bytes are text if reading them loses nothing. -/
def fromUtf8 (bs : List UInt8) : Option Str :=
  let s := fromUtf8Lossy bs
  if s.bytes = bs then some s else none

end LindGrates
