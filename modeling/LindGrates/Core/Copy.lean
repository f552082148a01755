import LindGrates.Core.Rust

/-!
# Copies between Cages

`copy_data_between_cages`, through which a grate reads and writes the memory of
a cage. The runtime answers a `c_int`, which is `ELINDAPIABORTED` for every
failure. The library compares the answer with that constant `as u64`: the sign
is extended, the constant has bit 31 and no bit above it, and so the two are
never equal. A failed copy is never reported. The grate goes on with what its
buffer held before, and a buffer of the cage stays as it was.

The code that handles a reported failure is kept in the models, behind this
function.

## Main definitions

* `copyDataBetweenCages`: Whether the library says that a copy succeeded.
* `copyInto`: What a buffer of the grate holds after a copy.
* `copyOut`: What a copy to the cage has written there.

## Theorems

* `copyDataBetweenCages_eq`: Every copy is said to have succeeded.
* `copyInto_eq`, `copyOut_eq`: A failed copy leaves what was there.
-/

namespace LindGrates

/-- `ELINDAPIABORTED`, a `u64`. -/
def elindApiAborted : BitVec 64 :=
  0xE0010001

/-- What the runtime answers to a copy, as a `c_int`. -/
def copyAnswer (copied : Bool) : BitVec 32 :=
  if copied then 0 else elindApiAborted.setWidth 32

/-- `copy_data_between_cages`: whether the library returns `Ok` for what the
    runtime answers. -/
@[irreducible] def copyDataBetweenCages (ret : BitVec 32) : Bool :=
  ret.signExtend 64 ≠ elindApiAborted

@[simp] theorem copyDataBetweenCages_eq (ret : BitVec 32) : copyDataBetweenCages ret = true := by
  unfold copyDataBetweenCages
  refine decide_eq_true fun h => ?_
  -- as signed numbers: an `i32` is below the constant
  have hint := congrArg BitVec.toInt h
  rw [BitVec.toInt_signExtend_of_le (by decide)] at hint
  have hlt : 2 * ret.toInt < 2 ^ 32 := BitVec.two_mul_toInt_lt
  have hbig : elindApiAborted.toInt = 0xE0010001 := by decide
  omega

/-- A buffer of the grate after data was copied into it, given what it held
    before; `none` if the failure of the copy is reported. -/
def copyInto {α : Type} (data : Option α) (before : α) : Option α :=
  if copyDataBetweenCages (copyAnswer data.isSome) then some (data.getD before) else none

@[simp] theorem copyInto_eq {α : Type} (data : Option α) (before : α) :
    copyInto data before = some (data.getD before) := by
  rw [copyInto, copyDataBetweenCages_eq, if_pos rfl]

/-- What a copy of some data to the cage has written there; `none` if the failure
    of the copy is reported. -/
def copyOut {α : Type} (copied : Bool) (data : α) : Option (Option α) :=
  if copyDataBetweenCages (copyAnswer copied) then some (if copied then some data else none)
  else none

@[simp] theorem copyOut_eq {α : Type} (copied : Bool) (data : α) :
    copyOut copied data = some (if copied then some data else none) := by
  rw [copyOut, copyDataBetweenCages_eq, if_pos rfl]

end LindGrates
