import LindGrates.Core.MapTables

/-!
# Descriptor Tables with Close Handlers

More of the interface of the `fdtables` crate. The IPC grate registers close
handlers with its tables: whenever an entry is removed or overwritten, the
handler for its kind is called with it, once, and a copy of a table calls none.

## Main definitions

* `ManagedTables`: Calls that change the information stored with an entry, take a
  snapshot of a cage's entries and drop a cage altogether.
* `entries`: What a cage has. A model runs its handlers over what a call takes away.
* `LawfulManagedTables`: What the grate relies on.
-/

namespace LindGrates

open FdTables

/-- Further calls of the `fdtables` crate. -/
class ManagedTables (T : Type) extends FdTables T where
  setPerfdinfo : T → (cage fd : Nat) → (perfdinfo : Nat) → Option T
  removeCageFromFdtable : T → (cage : Nat) → T

open ManagedTables

/-- `return_fdtable_copy`: the entries of a cage. -/
def entries {T : Type} [FdTables T] (t : T) (cage : Nat) : List (Nat × FDTableEntry) :=
  (List.range (fdLimit T)).filterMap fun fd =>
    (translateVirtualFd t cage fd).map fun e => (fd, e)

/-- The documented behaviour of the `fdtables` crate, including these calls. -/
class LawfulManagedTables (T : Type) [ManagedTables T] : Prop extends LawfulFdTables T where
  setPerfdinfo_some : ∀ (t t' : T) c fd info, setPerfdinfo t c fd info = some t' →
    ∃ e, translateVirtualFd t c fd = some e ∧
      translateVirtualFd t' = lookupUpdate (translateVirtualFd t) c fd
        (some { e with perfdinfo := info }) ∧
      checkCageExists t' = checkCageExists t
  setPerfdinfo_none : ∀ (t : T) c fd info, setPerfdinfo t c fd info = none →
    translateVirtualFd t c fd = none
  setCloexec_none : ∀ (t : T) c fd b, setCloexec t c fd b = none →
    translateVirtualFd t c fd = none
  exists_copy_dst : ∀ (t : T) src dst, checkCageExists t dst = false →
    checkCageExists (copyFdtableForCage t src dst) =
      fun c => decide (c = dst) || checkCageExists t c
  translate_remove : ∀ (t : T) cage, translateVirtualFd (removeCageFromFdtable t cage) =
    fun c fd => if c = cage then none else translateVirtualFd t c fd
  exists_remove : ∀ (t : T) cage, checkCageExists (removeCageFromFdtable t cage) =
    fun c => !decide (c = cage) && checkCageExists t c

section Entries

variable {T : Type} [FdTables T]

theorem mem_entries [LawfulFdTables T] {t : T} {cage fd : Nat} {e : FDTableEntry} :
    (fd, e) ∈ entries t cage ↔ translateVirtualFd t cage fd = some e := by
  simp only [entries, List.mem_filterMap, List.mem_range, Option.map_eq_some_iff, Prod.mk.injEq]
  constructor
  · rintro ⟨fd', _, e', h, rfl, rfl⟩
    exact h
  · intro h
    exact ⟨fd, LawfulFdTables.lt_limit t cage fd e h, e, h, rfl, rfl⟩

theorem nodup_entries (t : T) (cage : Nat) : ((entries t cage).map Prod.fst).Nodup := by
  have hsub : ((entries t cage).map Prod.fst).Sublist (List.range (fdLimit T)) := by
    rw [entries, List.map_filterMap]
    have hid : (fun fd => ((translateVirtualFd t cage fd).map fun e => (fd, e)).map Prod.fst) =
        fun fd => if (translateVirtualFd t cage fd).isSome then some fd else none := by
      funext fd
      cases translateVirtualFd t cage fd with
      | none | some e => rfl
    rw [hid]
    exact List.filterMap_eq_filter ▸ List.filter_sublist
  exact hsub.nodup List.nodup_range

end Entries

namespace MapTables

variable {limit : Nat}

def remove (t : MapTables limit) (cage : Nat) : MapTables limit :=
  { look := fun c fd => if c = cage then none else t.look c fd
    cages := fun c => !decide (c = cage) && t.cages c
    bounded := by
      rcases t.bounded with ⟨n, hn⟩
      exact ⟨n, fun c hc => by rw [hn c hc, Bool.and_false]⟩
    inRange := by
      intro c fd e h
      split at h
      · cases h
      rename_i hc
      rcases t.inRange c fd e h with ⟨hcage, hfd⟩
      exact ⟨by simp only [hc, hcage, decide_false, Bool.not_false, Bool.and_self], hfd⟩ }

instance : ManagedTables (MapTables limit) where
  setPerfdinfo t cage fd info := t.update cage fd fun e => some { e with perfdinfo := info }
  removeCageFromFdtable := remove

end MapTables

open MapTables

theorem lawful_managedMapTables (limit : Nat) (hlow : 2 < limit) (hle : limit ≤ 2 ^ 31) :
    LawfulManagedTables (MapTables limit) where
  toLawfulFdTables := lawful_mapTables limit hlow hle
  setPerfdinfo_some _ _ _ _ _ h := update_eq_some h
  setPerfdinfo_none _ _ _ _ h := update_eq_none h
  setCloexec_none _ _ _ _ h := update_eq_none h
  exists_copy_dst _ _ _ _ := rfl
  translate_remove _ _ := rfl
  exists_remove _ _ := rfl

end LindGrates
