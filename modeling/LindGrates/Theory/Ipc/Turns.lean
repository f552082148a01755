import LindGrates.Core.Ipc.Transfer
import LindGrates.Theory.Ipc.Stream

/-!
# Results of Reading and Writing

What a turn of a reading call returns, and what writing a single byte without
blocking returns. A copy that fails changes neither.

## Theorems

* `readTurn_eq`: The result of a turn of a reading call.
* `eof_of_readTurn`, `readTurn_of_eof`: Zero is returned at the end, and only there.
* `writeTurn_one`: The result for a single byte.
-/

namespace LindGrates.Ipc

open RingBuffer PipeBuffer List

variable {R : Type} [RingBuffer R] [LawfulRingBuffer R] {p : PipeBuffer R} {mem : List UInt8}
  {nonblocking interrupted okLeft okRight : Bool}

theorem popToCage_fst (p : PipeBuffer R) (mem : List UInt8) (okLeft okRight : Bool) :
    (p.popToCage mem mem.length okLeft okRight).1 = min mem.length (len p.ring) :=
  (pops_popToCage p mem).1.count_eq

theorem readTurn_eq (hmem : mem.length < 2 ^ 31) :
    (p.readTurn mem nonblocking interrupted okLeft okRight).1 =
      if 0 < min mem.length (len p.ring) then some ((min mem.length (len p.ring) : Nat) : Int)
      else p.drained nonblocking interrupted := by
  rw [readTurn, popToCage_fst]
  split
  · rw [asI32_natCast (by omega)]
  · rfl

theorem eof_of_readTurn (hne : mem ≠ []) (hmem : mem.length < 2 ^ 31)
    (h : (p.readTurn mem nonblocking interrupted okLeft okRight).1 = some 0) :
    p.eof = true ∧ len p.ring = 0 := by
  have hlen : 0 < mem.length := length_pos_iff.mpr hne
  rw [readTurn_eq hmem] at h
  split at h
  · have := Option.some.inj h
    omega
  refine ⟨?_, by omega⟩
  rw [drained] at h
  split at h
  · assumption
  split at h
  · cases h
  split at h
  · cases h
  · cases h

theorem readTurn_of_eof (hmem : mem.length < 2 ^ 31) (heof : p.eof = true)
    (hempty : len p.ring = 0) :
    (p.readTurn mem nonblocking interrupted okLeft okRight).1 = some 0 := by
  rw [readTurn_eq hmem, if_neg (by omega), drained, if_pos heof]

omit [RingBuffer R] [LawfulRingBuffer R] in
theorem length_landed (bytes : List UInt8) (copy : Option (List UInt8)) :
    (landed bytes copy).length = bytes.length := by
  rcases copy with _ | _
  · rfl
  rw [landed, length_take, length_append, length_replicate]
  omega

theorem writeTurn_one (p : PipeBuffer R) (b : UInt8) (interrupted : Bool)
    (copyLeft copyRight : Option (List UInt8)) :
    (p.writeTurn [b] 0 true interrupted copyLeft copyRight).1 =
      if len p.ring < capacity p.ring then some 1
      else if p.readRefs = 0 then some (-32) else some (-11) := by
  have hvacant := LawfulRingBuffer.vacant_add p.ring
  set fill : Nat → Nat → List UInt8 := fun left right =>
    let nLeft := min (1 - 0) left
    let nRight := min (1 - 0 - nLeft) right
    landed (([b].drop 0).take nLeft) copyLeft ++
      landed (([b].drop (0 + nLeft)).take nRight) copyRight
  have hlen : (fill (vacant p.ring).1 (vacant p.ring).2).length =
      min 1 (capacity p.ring - len p.ring) := by
    simp only [fill, length_append, length_landed, length_take, length_drop,
      length_singleton]
    omega
  have hfst : (p.pushFromCage [b] 0 copyLeft copyRight).1 = min 1 (capacity p.ring - len p.ring) :=
    (LawfulRingBuffer.pushAccess_fst p.ring fill (by omega)).trans hlen
  rw [writeTurn, hfst]
  simp only [length_singleton, Nat.zero_add]
  by_cases hroom : len p.ring < capacity p.ring
  · have hone : min 1 (capacity p.ring - len p.ring) = 1 := by omega
    rw [if_pos hroom, hone, if_pos (Nat.le_refl 1)]
    rfl
  have hzero : min 1 (capacity p.ring - len p.ring) = 0 := by omega
  rw [if_neg hroom, hzero, if_neg (by omega), stalled]
  rfl

end LindGrates.Ipc
