import LindGrates.Core.FdTables
import Mathlib.Data.Finite.Prod
import Mathlib.Data.Set.Finite.Lattice

/-!
# Reference Descriptor Tables

`Core.FdTables` assumes the behaviour of code that is not here. These tables
show that the assumptions can be met together, and runs of a grate on concrete
inputs use them.

## Main definitions

* `MapTables`: A map from a cage and a number to an entry, and the registered cages.
-/

namespace LindGrates

open FdTables

/-- Descriptor tables as a map, for at most `limit` descriptors a cage. -/
structure MapTables (limit : Nat) where
  look : Nat → Nat → Option FDTableEntry
  cages : Nat → Bool
  bounded : ∃ n, ∀ c, n ≤ c → cages c = false
  inRange : ∀ c fd e, look c fd = some e → cages c = true ∧ fd < limit

namespace MapTables

variable {limit : Nat}

/-- No cage is registered. -/
def unregistered (limit : Nat) : MapTables limit :=
  { look := fun _ _ => none
    cages := fun _ => false
    bounded := ⟨0, fun _ _ => rfl⟩
    inRange := nofun }

def put (t : MapTables limit) (cage fd : Nat) (e : Option FDTableEntry)
    (hcage : t.cages cage = true) (hfd : fd < limit) : MapTables limit :=
  { t with
    look := lookupUpdate t.look cage fd e
    inRange := by
      intro c x e' h
      rw [lookupUpdate] at h
      split at h
      next hk =>
        rw [hk.1, hk.2]
        exact ⟨hcage, hfd⟩
      · exact t.inRange c x e' h }

def lowestFree (t : MapTables limit) (cage start : Nat) : Option Nat :=
  (List.range limit).find? fun fd => decide (start ≤ fd) && (t.look cage fd).isNone

def allocate (t : MapTables limit) (cage : Nat) (e : FDTableEntry) (start : Nat) :
    Option (Nat × MapTables limit) :=
  match t.lowestFree cage start with
  | some fd =>
    if h : t.cages cage = true ∧ fd < limit then some (fd, t.put cage fd (some e) h.1 h.2)
    else none
  | none => none

def update (t : MapTables limit) (cage fd : Nat) (f : FDTableEntry → Option FDTableEntry) :
    Option (MapTables limit) :=
  match h : t.look cage fd with
  | some e => some (t.put cage fd (f e) (t.inRange cage fd e h).1 (t.inRange cage fd e h).2)
  | none => none

def register (t : MapTables limit) (cage : Nat) : MapTables limit :=
  { t with
    cages := fun c => decide (c = cage) || t.cages c
    bounded := by
      rcases t.bounded with ⟨n, hn⟩
      refine ⟨max n (cage + 1), fun c hc => ?_⟩
      rw [hn c (by omega), Bool.or_false]
      exact decide_eq_false (by omega)
    inRange := by
      intro c fd e h
      rcases t.inRange c fd e h with ⟨hc, hfd⟩
      exact ⟨by rw [hc, Bool.or_true], hfd⟩ }

/-- Give one cage the entries of another. -/
def copy (t : MapTables limit) (src dst : Nat) : MapTables limit :=
  { look := fun c fd => if c = dst then t.look src fd else t.look c fd
    cages := (t.register dst).cages
    bounded := (t.register dst).bounded
    inRange := by
      intro c fd e h
      split at h
      next hc =>
        exact ⟨by simp only [register, hc, decide_true, Bool.true_or], (t.inRange src fd e h).2⟩
      · exact (t.register dst).inRange c fd e h }

def emptyForExec (t : MapTables limit) (cage : Nat) : MapTables limit :=
  { t with
    look := fun c fd => if c = cage then (t.look c fd).filter fun e => !e.shouldCloexec
      else t.look c fd
    inRange := by
      intro c fd e h
      split at h
      · exact t.inRange c fd e (Option.filter_eq_some_iff.mp h).1
      · exact t.inRange c fd e h }

instance : FdTables (MapTables limit) where
  fdLimit := limit
  translateVirtualFd t cage fd := t.look cage fd
  getUnusedVirtualFd t cage e := t.allocate cage e 0
  getUnusedVirtualFdFromStartfd t cage e start := t.allocate cage e start
  getSpecificVirtualFd t cage fd e :=
    if h : t.cages cage = true ∧ fd < limit then some (t.put cage fd (some e) h.1 h.2) else none
  closeVirtualfd t cage fd := t.update cage fd fun _ => none
  setCloexec t cage fd b := t.update cage fd fun e => some { e with shouldCloexec := b }
  copyFdtableForCage := copy
  emptyFdsForExec := emptyForExec
  checkCageExists t cage := t.cages cage
  initEmptyCage := register

variable {t : MapTables limit} {cage start fd : Nat}

theorem lowestFree_eq_some (h : t.lowestFree cage start = some fd) :
    fd < limit ∧ start ≤ fd ∧ t.look cage fd = none ∧
      ∀ fd', start ≤ fd' → fd' < fd → t.look cage fd' ≠ none := by
  unfold lowestFree at h
  rcases List.find?_range_eq_some.mp h with ⟨hp, hmem, hmin⟩
  simp only [Bool.and_eq_true, decide_eq_true_eq, Option.isNone_iff_eq_none] at hp
  refine ⟨List.mem_range.mp hmem, hp.1, hp.2, fun fd' hs hlt hnone => ?_⟩
  have := hmin fd' hlt
  simp only [hs, hnone, decide_true, Option.isNone_none, Bool.and_self, Bool.not_true,
    Bool.false_eq_true] at this

theorem lowestFree_eq_none (h : t.lowestFree cage start = none) (hs : start ≤ fd)
    (hfd : fd < limit) : t.look cage fd ≠ none := by
  intro hnone
  have := List.find?_eq_none.mp h fd (List.mem_range.mpr hfd)
  simp only [hs, hnone, decide_true, Option.isNone_none, Bool.and_self, not_true_eq_false] at this

theorem allocate_eq_some {t' : MapTables limit} {e : FDTableEntry}
    (h : t.allocate cage e start = some (fd, t')) :
    t.cages cage = true ∧ fd < limit ∧ start ≤ fd ∧ t.look cage fd = none ∧
      (∀ fd', start ≤ fd' → fd' < fd → t.look cage fd' ≠ none) ∧
      t'.look = lookupUpdate t.look cage fd (some e) ∧ t'.cages = t.cages := by
  unfold allocate at h
  split at h
  next fd0 hfree =>
    rcases lowestFree_eq_some hfree with ⟨hlt, hs, hnone, hmin⟩
    split at h
    next hc =>
      cases h
      exact ⟨hc.1, hlt, hs, hnone, hmin, rfl, rfl⟩
    · cases h
  · cases h

theorem allocate_eq_none {e : FDTableEntry} (hc : t.cages cage = true)
    (h : t.allocate cage e start = none) (hs : start ≤ fd) (hfd : fd < limit) :
    t.look cage fd ≠ none := by
  unfold allocate at h
  split at h
  next fd0 hfree =>
    rw [dif_pos ⟨hc, (lowestFree_eq_some hfree).1⟩] at h
    cases h
  next hfree => exact lowestFree_eq_none hfree hs hfd

theorem update_eq_some {t' : MapTables limit} {f : FDTableEntry → Option FDTableEntry}
    (h : t.update cage fd f = some t') :
    ∃ e, t.look cage fd = some e ∧ t'.look = lookupUpdate t.look cage fd (f e) ∧
      t'.cages = t.cages := by
  unfold update at h
  split at h
  next e he =>
    cases h
    exact ⟨e, he, rfl, rfl⟩
  · cases h

theorem update_eq_none {f : FDTableEntry → Option FDTableEntry} (h : t.update cage fd f = none) :
    t.look cage fd = none := by
  unfold update at h
  split at h
  · cases h
  · assumption

end MapTables

open MapTables

theorem lawful_mapTables (limit : Nat) (hlow : 2 < limit) (hle : limit ≤ 2 ^ 31) :
    LawfulFdTables (MapTables limit) where
  finite t := by
    rcases t.bounded with ⟨n, hn⟩
    have hbox : ({c | c < n} ×ˢ {fd | fd < limit} : Set (Nat × Nat)).Finite :=
      Set.Finite.prod (Set.finite_lt_nat n) (Set.finite_lt_nat limit)
    refine hbox.subset ?_
    rintro ⟨c, fd⟩ hk
    rcases Option.ne_none_iff_exists'.mp hk with ⟨e, he⟩
    rcases t.inRange c fd e he with ⟨hc, hfd⟩
    refine ⟨Nat.lt_of_not_le fun hnc => ?_, hfd⟩
    rw [hn c hnc] at hc
    cases hc
  limit_gt := hlow
  limit_le := hle
  lt_limit t c fd e h := (t.inRange c fd e h).2
  exists_of_translate t c fd e h := (t.inRange c fd e h).1
  getUnused_some t t' c e fd h := by
    rcases allocate_eq_some h with ⟨hc, hlt, _, hnone, hmin, hlook, hcages⟩
    exact ⟨hc, hlt, hnone, fun fd' => hmin fd' (Nat.zero_le _), hlook, hcages⟩
  getUnused_none t c e hc h fd hfd := allocate_eq_none hc h (Nat.zero_le fd) hfd
  getUnusedFrom_some t t' c e start fd h := allocate_eq_some h
  getUnusedFrom_none t c e start hc h fd hs hfd := allocate_eq_none hc h hs hfd
  getSpecific_some t t' c fd e h := by
    have h : (if h : t.cages c = true ∧ fd < limit then some (t.put c fd (some e) h.1 h.2)
        else none) = some t' := h
    split at h
    next hc =>
      cases h
      exact ⟨hc.1, hc.2, rfl, rfl⟩
    · cases h
  getSpecific_none t c fd e hc h := by
    have h : (if h : t.cages c = true ∧ fd < limit then some (t.put c fd (some e) h.1 h.2)
        else none) = none := h
    split at h
    · cases h
    next hn => exact Nat.le_of_not_lt fun hlt => hn ⟨hc, hlt⟩
  close_some t t' c fd h := by
    rcases update_eq_some h with ⟨e, he, hlook, hcages⟩
    have hne : t.look c fd ≠ none := by
      rw [he]
      exact nofun
    exact ⟨hne, hlook, hcages⟩
  close_none t c fd h := update_eq_none h
  setCloexec_some t t' c fd b h := update_eq_some h
  translate_copy t src dst _ := rfl
  exists_copy t src dst c _ h := by
    have h : (decide (c = dst) || t.cages c) = true := h
    rw [Bool.or_eq_true, decide_eq_true_eq] at h
    exact h
  translate_empty t cage := rfl
  exists_empty t cage := rfl
  translate_init t cage _ := rfl
  exists_init t cage c _ := rfl

end LindGrates
