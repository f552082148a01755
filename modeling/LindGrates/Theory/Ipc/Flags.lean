import LindGrates.Core.Ipc.Descriptor

/-!
# Flags

The flags of a descriptor are an `i32` stored in a `u64`.

## Theorems

* `ofNat_flagsToU64`: Storing and reading back gives the same flags.
* `accmode_setflFlags`, `accmode_fionbio`: `F_SETFL` and `FIONBIO` leave the access
  mode alone.
-/

namespace LindGrates.Ipc

open BitVec

theorem ofNat_flagsToU64 (f : BitVec 32) : BitVec.ofNat 32 (flagsToU64 f) = f := by
  rw [flagsToU64, BitVec.ofNat_toNat]
  ext i hi
  have : i < 64 := by omega
  simp [getElem_signExtend, hi, this]

theorem entryFlags_dupEntry (e : FDTableEntry) (cloexec : Bool) :
    entryFlags (dupEntry e cloexec) = entryFlags e :=
  ofNat_flagsToU64 (entryFlags e)

theorem ofNat_fionbioInfo (f : BitVec 32) (value : Int) :
    BitVec.ofNat 32 (World.fionbioInfo f value) =
      if value ≠ 0 then f ||| oNonblock else f &&& ~~~oNonblock := by
  rw [World.fionbioInfo]
  split
  · rw [BitVec.ofNat_toNat]
    ext i hi
    have : i < 64 := by omega
    simp [getElem_signExtend, hi, this]
  rw [ofNat_toNat]
  ext i hi
  have : i < 64 := by omega
  simp [getElem_signExtend, hi, this]

theorem accmode_setflFlags (f arg : BitVec 32) :
    World.setflFlags f arg &&& oAccmode = f &&& oAccmode := by
  rw [World.setflFlags]
  ext i hi
  simp only [getElem_and, getElem_or, getElem_not]
  cases oAccmode[i] <;> simp

theorem accmode_fionbio (f : BitVec 32) (value : Int) :
    BitVec.ofNat 32 (World.fionbioInfo f value) &&& oAccmode = f &&& oAccmode := by
  -- The bit for non-blocking is none of the access mode's.
  have hmask : ∀ i (hi : i < 32), oNonblock[i] = true → oAccmode[i] = false := by decide
  rw [ofNat_fionbioInfo]
  split
  · ext i hi
    have := hmask i hi
    simp only [BitVec.getElem_and, BitVec.getElem_or]
    cases hn : oNonblock[i] <;> simp_all
  ext i hi
  have := hmask i hi
  simp only [getElem_and, getElem_not]
  cases hn : oNonblock[i] <;> simp_all

end LindGrates.Ipc
