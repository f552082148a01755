import Mathlib.Algebra.Ring.Nat
import Mathlib.Data.Set.Finite.Basic

/-!
# Descriptor Tables

The interface of the `fdtables` crate, which every grate uses to map a cage's
descriptor numbers to something of its own. The crate is not part of this
repository, so its tables are an abstract type.

A failed call returns an error and leaves the table alone, which the signatures
express by giving back no table at all. `init_empty_cage` on a cage that already has
a table panics, so its law speaks of new cages only, and so does the law for a copy.

## Main definitions

* `FdTables`: The calls of the crate.
* `LawfulFdTables`: What the grates rely on.
-/

namespace LindGrates

/-- What a descriptor number maps to. -/
structure FDTableEntry where
  fdkind : Nat
  underfd : Nat
  shouldCloexec : Bool
  perfdinfo : Nat
  deriving DecidableEq, Repr

/-- The calls of the `fdtables` crate. -/
class FdTables (T : Type) where
  /-- The number of descriptors a cage can have. -/
  fdLimit : Nat
  translateVirtualFd : T → (cage fd : Nat) → Option FDTableEntry
  getUnusedVirtualFd : T → (cage : Nat) → FDTableEntry → Option (Nat × T)
  getUnusedVirtualFdFromStartfd :
    T → (cage : Nat) → FDTableEntry → (startfd : Nat) → Option (Nat × T)
  getSpecificVirtualFd : T → (cage fd : Nat) → FDTableEntry → Option T
  closeVirtualfd : T → (cage fd : Nat) → Option T
  setCloexec : T → (cage fd : Nat) → Bool → Option T
  copyFdtableForCage : T → (src dst : Nat) → T
  emptyFdsForExec : T → (cage : Nat) → T
  checkCageExists : T → (cage : Nat) → Bool
  initEmptyCage : T → (cage : Nat) → T

open FdTables

/-- A table with one entry replaced, removed or added. -/
def lookupUpdate (f : Nat → Nat → Option FDTableEntry) (cage fd : Nat)
    (e : Option FDTableEntry) : Nat → Nat → Option FDTableEntry :=
  fun c x => if c = cage ∧ x = fd then e else f c x

theorem lookupUpdate_cases {f : Nat → Nat → Option FDTableEntry} {cage fd x : Nat}
    {e : FDTableEntry} {o : Option FDTableEntry} (h : lookupUpdate f cage fd o cage x = some e) :
    (x = fd ∧ o = some e) ∨ x ≠ fd ∧ f cage x = some e := by
  rw [lookupUpdate] at h
  split at h
  next hx => exact .inl ⟨hx.2, h⟩
  next hx => exact .inr ⟨fun heq => hx ⟨rfl, heq⟩, h⟩

/-- The documented behaviour of the `fdtables` crate. -/
class LawfulFdTables (T : Type) [FdTables T] : Prop where
  finite : ∀ t : T, {k : Nat × Nat | translateVirtualFd t k.1 k.2 ≠ none}.Finite
  limit_gt : 2 < fdLimit T
  limit_le : fdLimit T ≤ 2 ^ 31
  lt_limit : ∀ (t : T) c fd e, translateVirtualFd t c fd = some e → fd < fdLimit T
  exists_of_translate : ∀ (t : T) c fd e, translateVirtualFd t c fd = some e →
    checkCageExists t c = true
  getUnused_some : ∀ (t t' : T) c e fd, getUnusedVirtualFd t c e = some (fd, t') →
    checkCageExists t c = true ∧ fd < fdLimit T ∧
      translateVirtualFd t c fd = none ∧
      (∀ fd', fd' < fd → translateVirtualFd t c fd' ≠ none) ∧
      translateVirtualFd t' = lookupUpdate (translateVirtualFd t) c fd (some e) ∧
      checkCageExists t' = checkCageExists t
  getUnused_none : ∀ (t : T) c e, checkCageExists t c = true → getUnusedVirtualFd t c e = none →
    ∀ fd, fd < fdLimit T → translateVirtualFd t c fd ≠ none
  getUnusedFrom_some : ∀ (t t' : T) c e start fd,
    getUnusedVirtualFdFromStartfd t c e start = some (fd, t') →
    checkCageExists t c = true ∧ fd < fdLimit T ∧ start ≤ fd ∧
      translateVirtualFd t c fd = none ∧
      (∀ fd', start ≤ fd' → fd' < fd → translateVirtualFd t c fd' ≠ none) ∧
      translateVirtualFd t' = lookupUpdate (translateVirtualFd t) c fd (some e) ∧
      checkCageExists t' = checkCageExists t
  getUnusedFrom_none : ∀ (t : T) c e start, checkCageExists t c = true →
    getUnusedVirtualFdFromStartfd t c e start = none →
    ∀ fd, start ≤ fd → fd < fdLimit T → translateVirtualFd t c fd ≠ none
  getSpecific_some : ∀ (t t' : T) c fd e, getSpecificVirtualFd t c fd e = some t' →
    checkCageExists t c = true ∧ fd < fdLimit T ∧
      translateVirtualFd t' = lookupUpdate (translateVirtualFd t) c fd (some e) ∧
      checkCageExists t' = checkCageExists t
  getSpecific_none : ∀ (t : T) c fd e, checkCageExists t c = true →
    getSpecificVirtualFd t c fd e = none → fdLimit T ≤ fd
  close_some : ∀ (t t' : T) c fd, closeVirtualfd t c fd = some t' →
    translateVirtualFd t c fd ≠ none ∧
      translateVirtualFd t' = lookupUpdate (translateVirtualFd t) c fd none ∧
      checkCageExists t' = checkCageExists t
  close_none : ∀ (t : T) c fd, closeVirtualfd t c fd = none → translateVirtualFd t c fd = none
  setCloexec_some : ∀ (t t' : T) c fd b, setCloexec t c fd b = some t' →
    ∃ e, translateVirtualFd t c fd = some e ∧
      translateVirtualFd t' = lookupUpdate (translateVirtualFd t) c fd
        (some { e with shouldCloexec := b }) ∧
      checkCageExists t' = checkCageExists t
  translate_copy : ∀ (t : T) src dst, checkCageExists t dst = false →
    translateVirtualFd (copyFdtableForCage t src dst) =
      fun c fd => if c = dst then translateVirtualFd t src fd else translateVirtualFd t c fd
  exists_copy : ∀ (t : T) src dst c, checkCageExists t dst = false →
    checkCageExists (copyFdtableForCage t src dst) c = true →
      c = dst ∨ checkCageExists t c = true
  translate_empty : ∀ (t : T) cage, translateVirtualFd (emptyFdsForExec t cage) =
    fun c fd => if c = cage
      then (translateVirtualFd t c fd).filter fun e => !e.shouldCloexec
      else translateVirtualFd t c fd
  exists_empty : ∀ (t : T) cage, checkCageExists (emptyFdsForExec t cage) = checkCageExists t
  translate_init : ∀ (t : T) cage, checkCageExists t cage = false →
    translateVirtualFd (initEmptyCage t cage) = translateVirtualFd t
  exists_init : ∀ (t : T) cage c, checkCageExists t cage = false →
    checkCageExists (initEmptyCage t cage) c = (decide (c = cage) || checkCageExists t c)

end LindGrates
