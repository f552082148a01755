import Mathlib.Data.List.Nodup

/-!
# Linked Lists in an Arena

A list threaded through an arena by successor pointers. Cells are numbers, the
successor of a cell is optional, and a head pointer says where the list starts.

## Main definitions

* `Linked`: Following the pointers visits exactly the cells of a list and then stops.

## Theorems

* `linked_snoc`, `linked_take`: A cell is put behind the last one, or the list is cut.
-/

namespace LindGrates

open List

/-- Following `next` from `head` visits exactly the cells of `L`, in order. -/
structure Linked (next : Nat → Option Nat) (head : Option Nat) (L : List Nat) : Prop where
  head_eq : head = L[0]?
  next_eq : ∀ k c, L[k]? = some c → next c = L[k + 1]?

theorem linked_nil (next : Nat → Option Nat) : Linked next none [] :=
  ⟨rfl, fun k c h => by simp only [getElem?_nil, reduceCtorEq] at h⟩

variable {next next' : Nat → Option Nat} {head : Option Nat} {L : List Nat} (h : Linked next head L)

include h

theorem linked_shift {head' : Option Nat} {L' : List Nat}
    (h' : Linked next head' L') {i j : Nat} (hij : L[i]? = L'[j]?) :
    ∀ t, L[i + t]? = L'[j + t]? := by
  intro t
  induction t with
  | zero => exact hij
  | succ t ih =>
    rw [← Nat.add_assoc, ← Nat.add_assoc]
    cases hc : L[i + t]? with
    | none =>
      have hl : L.length ≤ i + t := getElem?_eq_none_iff.mp hc
      have hl' : L'.length ≤ j + t := getElem?_eq_none_iff.mp (ih ▸ hc)
      rw [getElem?_eq_none_iff.mpr (by omega), getElem?_eq_none_iff.mpr (by omega)]
    | some c => rw [← h.next_eq _ c hc, ← h'.next_eq _ c (ih ▸ hc)]

theorem linked_nodup : L.Nodup := by
  rw [nodup_iff_getElem?_ne_getElem?]
  intro i j hij hj heq
  -- Both positions run on alike, but the later one reaches the end first.
  have hend := linked_shift h h heq (L.length - j)
  rw [getElem?_eq_none_iff.mpr (show L.length ≤ j + (L.length - j) by omega),
    getElem?_eq_none_iff] at hend
  omega

theorem linked_congr (hnext : ∀ c ∈ L, next' c = next c) : Linked next' head L := by
  refine ⟨h.head_eq, fun k c hc => ?_⟩
  rw [hnext c (mem_of_getElem? hc)]
  exact h.next_eq k c hc

/-- Put the cell `n` behind the last one. Only the last cell's pointer and the
    new cell's own change, and an empty list gets a new head. -/
theorem linked_snoc {n : Nat} (hnew : next' n = none)
    (hlast : ∀ t, L.getLast? = some t → next' t = some n)
    (hrest : ∀ k c, L[k]? = some c → k + 1 < L.length → next' c = next c) :
    Linked next' (if head = none then some n else head) (L ++ [n]) := by
  constructor
  · rcases L with _ | _
    · have hn : head = none := h.head_eq
      rw [if_pos hn]
      rfl
    rw [h.head_eq]
    rfl
  · intro k c hc
    by_cases hk : k < L.length
    · rw [getElem?_append_left hk] at hc
      by_cases hk1 : k + 1 < L.length
      · rw [hrest k c hc hk1, getElem?_append_left hk1]
        exact h.next_eq k c hc
      have hkl : k = L.length - 1 := by omega
      have hl : L.getLast? = some c := by
        rw [getLast?_eq_getElem?, ← hkl]
        exact hc
      rw [hlast c hl, getElem?_append_right (by omega)]
      have hz : k + 1 - L.length = 0 := by omega
      rw [hz]
      rfl
    · have hkl : k < (L ++ [n]).length := (List.getElem?_eq_some_iff.mp hc).1
      rw [List.length_append, List.length_singleton] at hkl
      rw [List.getElem?_append_right (by omega)] at hc
      have hz : k - L.length = 0 := by omega
      rw [hz] at hc
      cases hc
      rw [hnew, getElem?_eq_none_iff.mpr (by
        rw [length_append, length_singleton]; omega)]

/-- Cut a list after position `m`: the cell there loses its pointer. -/
theorem linked_take {m : Nat} (hcut : ∀ c, L[m]? = some c → next' c = none)
    (hrest : ∀ k c, L[k]? = some c → k < m → next' c = next c) :
    Linked next' head (L.take (m + 1)) := by
  constructor
  · rw [h.head_eq, getElem?_take_of_lt (by omega)]
  · intro k c hc
    by_cases hk : k < m + 1
    · rw [getElem?_take_of_lt hk] at hc
      by_cases hkm : k < m
      · rw [hrest k c hc hkm, getElem?_take_of_lt (by omega)]
        exact h.next_eq k c hc
      have hkm' : k = m := by omega
      rw [hkm'] at hc
      rw [hcut c hc, getElem?_take_eq_none (by omega)]
    · rw [getElem?_take_eq_none (by omega)] at hc
      cases hc

theorem linked_drop (m : Nat) : Linked next L[m]? (L.drop m) := by
  constructor
  · rw [getElem?_drop, Nat.add_zero]
  · intro k c hc
    rw [getElem?_drop] at hc ⊢
    exact h.next_eq (m + k) c hc

end LindGrates
