import Mathlib.Data.List.GetD

/-!
# Plain Byte-Array Files

A file as the list of its bytes.

## Main definitions

* `fileWrite`: Fill the gap before the start with zeros, then replace bytes.
* `fileTruncate`: Cut the list or fill it up with zeros.

## Theorems

* `getD_fileWrite`, `getD_fileTruncate`: The bytes afterwards.
* `fileWrite_zero`: Writing a zero at the end is a truncation.
-/

namespace LindGrates

open List

/-- Fill a list up with zeros to the length `n`. -/
def zeroPad (l : List UInt8) (n : Nat) : List UInt8 :=
  l ++ List.replicate (n - l.length) 0

/-- Fill up to `off`, then overwrite from there on. -/
def fileWrite (l : List UInt8) (off : Nat) (buf : List UInt8) : List UInt8 :=
  (zeroPad l off).take off ++ buf ++ (zeroPad l off).drop (off + buf.length)

/-- Cut at `n`, or fill up to it. -/
def fileTruncate (l : List UInt8) (n : Nat) : List UInt8 :=
  zeroPad (l.take n) n

variable {l : List UInt8}

theorem eq_of_getD {l' : List UInt8} (hlen : l.length = l'.length)
    (h : ∀ p, p < l.length → l.getD p 0 = l'.getD p 0) : l = l' := by
  refine ext_getElem hlen fun p hp hp' => ?_
  have := h p hp
  rwa [getD_eq_getElem _ _ hp, getD_eq_getElem _ _ hp'] at this

@[simp] theorem length_zeroPad (l : List UInt8) (n : Nat) :
    (zeroPad l n).length = max l.length n := by
  rw [zeroPad, length_append, length_replicate]
  omega

@[simp] theorem getD_zeroPad (l : List UInt8) (n p : Nat) :
    (zeroPad l n).getD p 0 = l.getD p 0 := by
  unfold zeroPad
  by_cases hp : p < l.length
  · rw [getD_append _ _ _ _ hp]
  rw [getD_append_right _ _ _ _ (Nat.le_of_not_lt hp),
    getD_eq_default l _ (Nat.le_of_not_lt hp), getD_eq_getElem?_getD,
    List.getElem?_getD_replicate_default_eq]

@[simp] theorem length_fileWrite (l : List UInt8) (off : Nat) (buf : List UInt8) :
    (fileWrite l off buf).length = max l.length (off + buf.length) := by
  simp only [fileWrite, length_append, length_take, length_drop, length_zeroPad]
  omega

theorem getD_fileWrite (l : List UInt8) (off : Nat) (buf : List UInt8) (p : Nat) :
    (fileWrite l off buf).getD p 0 =
      if off ≤ p ∧ p < off + buf.length then buf.getD (p - off) 0 else l.getD p 0 := by
  have hhead : ((zeroPad l off).take off).length = off := by
    rw [length_take, length_zeroPad]
    omega
  have hbody : ((zeroPad l off).take off ++ buf).length = off + buf.length := by
    rw [length_append, hhead]
  unfold fileWrite
  by_cases hlow : p < off
  · rw [if_neg (by omega), getD_append _ _ _ _ (by omega),
      getD_append _ _ _ _ (by omega), ← getD_zeroPad l off p]
    simp only [getD_eq_getElem?_getD, List.getElem?_take_of_lt hlow]
  by_cases hmid : p < off + buf.length
  · rw [if_pos ⟨Nat.le_of_not_lt hlow, hmid⟩, getD_append _ _ _ _ (by omega),
      getD_append_right _ _ _ _ (by omega), hhead]
  rw [if_neg (by omega), getD_append_right _ _ _ _ (by omega), hbody, ← getD_zeroPad l off p]
  simp only [getD_eq_getElem?_getD, List.getElem?_drop]
  rw [show off + buf.length + (p - (off + buf.length)) = p by omega]

theorem fileWrite_nil {off : Nat} (h : off ≤ l.length) : fileWrite l off [] = l := by
  refine eq_of_getD ?_ fun p _ => ?_
  · rw [length_fileWrite, length_nil]
    omega
  · rw [getD_fileWrite, length_nil, if_neg (by omega)]

@[simp] theorem length_fileTruncate (l : List UInt8) (n : Nat) :
    (fileTruncate l n).length = n := by
  rw [fileTruncate, length_zeroPad, length_take]
  omega

theorem getD_fileTruncate (l : List UInt8) (n p : Nat) :
    (fileTruncate l n).getD p 0 = if p < n then l.getD p 0 else 0 := by
  rw [fileTruncate, getD_zeroPad]
  by_cases hp : p < n
  · rw [if_pos hp]
    simp only [getD_eq_getElem?_getD, List.getElem?_take_of_lt hp]
  rw [if_neg hp, getD_eq_default]
  rw [length_take]
  omega

theorem fileWrite_zero {n : Nat} (h : l.length < n) :
    fileWrite l (n - 1) [0] = fileTruncate l n := by
  have hlen : (fileWrite l (n - 1) [0]).length = n := by
    rw [length_fileWrite, length_singleton]
    omega
  refine eq_of_getD (by rw [hlen, length_fileTruncate]) fun p hp => ?_
  rw [hlen] at hp
  rw [getD_fileWrite, getD_fileTruncate, if_pos hp, length_singleton]
  by_cases hlast : p = n - 1
  · rw [if_pos (by omega), hlast, Nat.sub_self, getD_eq_default l _ (by omega)]
    rfl
  · rw [if_neg (by omega)]

end LindGrates
