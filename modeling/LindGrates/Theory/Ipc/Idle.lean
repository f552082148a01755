import LindGrates.Core.Ipc.System

/-!
# Tables Without a Fork in Progress

While no snapshot is pending a lookup only looks, and what a handler does to the
tables is one of a few things.

## Main definitions

* `Idle`: No snapshot is pending.
* `Puts`, `Sets`, `Drops`, `Retags`: What happens to one descriptor.
* `Ensured`: A cage has a table.

## Theorems

* `lookupIpcFd_idle`, `translateToUnderfd_idle`: What the lookups give.
* `getSpecific_cases`: A number is set, or there is no such number.
* `ensured_ensureCageFdtable`: A cage gets a table if it has none.
-/

namespace LindGrates.Ipc

open FdTables ManagedTables LawfulFdTables Function List

namespace World

variable {T R : Type} [ManagedTables T] {k : Nat × Nat} {e : FDTableEntry} {cage fd : Nat}

def look (w : World T R) (k : Nat × Nat) : Option FDTableEntry :=
  translateVirtualFd w.fds k.1 k.2

/-- The entry of a descriptor that is one of the grate's own. -/
def ipcEntry (w : World T R) (k : Nat × Nat) : Option FDTableEntry :=
  (w.look k).filter fun e => e.fdkind = ipcPipe ∨ e.fdkind = ipcSocket

def hasTable (w : World T R) (cage : Nat) : Bool :=
  checkCageExists w.fds cage

/-- No snapshot is pending. -/
def Idle (w : World T R) : Prop :=
  w.pending = []

theorem ipcEntry_eq_some {w : World T R} :
    w.ipcEntry k = some e ↔ w.look k = some e ∧ (e.fdkind = ipcPipe ∨ e.fdkind = ipcSocket) := by
  rw [ipcEntry, Option.filter_eq_some_iff, decide_eq_true_iff]

end World

open World

variable {T R : Type} [ManagedTables T] {w w' w1 : World T R}

section Lookup

theorem installPendingFdtable_idle (hw : Idle w) (cage : Nat) :
    w.installPendingFdtable cage = (false, w) := by
  rw [installPendingFdtable, show w.pending = [] from hw]
  rfl

theorem waitForCage_idle (hw : Idle w) (cage n : Nat) :
    w.waitForCage cage n = (w.hasTable cage, w) := by
  induction n with
  | zero => rfl
  | succ n ih =>
    rw [waitForCage, installPendingFdtable_idle hw]
    by_cases hc : checkCageExists w.fds cage = true
    · rw [if_pos hc, hasTable, hc]
    · rw [if_neg hc, if_neg Bool.false_ne_true, ih]

theorem waitForEntry_idle (hw : Idle w) (cage fd n : Nat) :
    w.waitForEntry cage fd n = (w.look (cage, fd), w) := by
  induction n with
  | zero => rfl
  | succ n ih =>
    rw [waitForEntry, installPendingFdtable_idle hw]
    cases hl : translateVirtualFd w.fds cage fd with
    | some => simp only [look, hl]
    | none =>
      simp only
      exact ih

variable [LawfulManagedTables T]

theorem hasTable_of_look (h : w.look k = some e) :
    w.hasTable k.1 = true :=
  exists_of_translate _ _ _ _ h

theorem look_of_hasTable_eq_false (h : w.hasTable cage = false) :
    w.look (cage, fd) = none := by
  cases hl : w.look (cage, fd) with
  | none => rfl
  | some => rw [hasTable_of_look hl] at h; cases h

theorem lookupIpcFd_idle (hw : Idle w) (cage fd : Nat) :
    w.lookupIpcFd cage fd = (w.ipcEntry (cage, fd), w) := by
  simp only [lookupIpcFd, waitForCageFdtable, waitForFdtableEntry, waitForCage_idle hw,
    waitForEntry_idle hw]
  by_cases hc : w.hasTable cage = true
  · rw [if_pos hc]
    rfl
  · rw [if_neg hc, ipcEntry, look_of_hasTable_eq_false (Bool.eq_false_iff.mpr hc)]
    rfl

omit [LawfulManagedTables T] in
theorem translateToUnderfd_idle (hw : Idle w) (cage fd : Nat) :
    w.translateToUnderfd cage fd =
      (if w.hasTable cage then (w.look (cage, fd)).map FDTableEntry.underfd else some fd, w) := by
  simp only [translateToUnderfd, waitForCageFdtable, waitForFdtableEntry, waitForCage_idle hw,
    waitForEntry_idle hw]
  split <;> rfl

omit [LawfulManagedTables T] in
theorem forwardWithFd1_idle (hw : Idle w) {answer : Int} {r : Option Int}
    (h : w.forwardWithFd1 cage fd answer = .ok (r, w')) : w' = w := by
  rw [forwardWithFd1, translateToUnderfd_idle hw] at h
  simp only [reply] at h
  generalize (if w.hasTable cage then _ else _ : Option Nat) = o at h
  split at h <;> (cases h; rfl)

end Lookup

/-- An entry is put under a free number. -/
structure Puts (w : World T R) (k : Nat × Nat) (e : FDTableEntry) (w' : World T R) : Prop where
  free : w.look k = none
  lt : k.2 < fdLimit T
  look : w'.look = update w.look k (some e)
  hasTable : w'.hasTable = w.hasTable
  ipc : w'.ipc = w.ipc
  pending : w'.pending = w.pending

structure Sets (w : World T R) (k : Nat × Nat) (e : FDTableEntry) (w' : World T R) : Prop where
  look : w'.look = update w.look k (some e)
  hasTable : w'.hasTable = w.hasTable
  ipc : w'.ipc = (w.fire (w.look k)).ipc
  pending : w'.pending = w.pending

structure Drops (w : World T R) (k : Nat × Nat) (e : FDTableEntry) (w' : World T R) : Prop where
  entry : w.look k = some e
  look : w'.look = update w.look k none
  ipc : w'.ipc = w.ipc.closeHandler e
  pending : w'.pending = w.pending

/-- What is stored with a descriptor changes. -/
structure Retags (w : World T R) (k : Nat × Nat) (e e' : FDTableEntry) (w' : World T R) : Prop where
  entry : w.look k = some e
  look : w'.look = update w.look k (some e')
  ipc : w'.ipc = w.ipc
  pending : w'.pending = w.pending

/-- A cage has a table: it had one, or it gets one with the three standard
    descriptors. -/
structure Ensured (w : World T R) (cage : Nat) (w' : World T R) : Prop where
  table : w'.hasTable cage = true
  ipc : w'.ipc = w.ipc
  pending : w'.pending = w.pending
  or : w' = w ∨ w.hasTable cage = false ∧
    w'.look = fun k => if k.1 = cage ∧ k.2 < 3 then some ⟨fdkindKernel, k.2, false, 0⟩
      else w.look k

theorem look_of_translate {t t' : T} {e : Option FDTableEntry}
    {ipc ipc' : IpcState R} {pending pending' : List PendingFdTable}
    (h : translateVirtualFd t' = lookupUpdate (translateVirtualFd t) cage fd e) :
    (⟨t', ipc', pending'⟩ : World T R).look =
      update (⟨t, ipc, pending⟩ : World T R).look (cage, fd) e := by
  funext k
  rw [World.look, h, lookupUpdate, update_apply]
  simp only [World.look, Prod.ext_iff]

variable [LawfulManagedTables T] {cage fd n : Nat} {e : FDTableEntry} {fds : T}

theorem put_of_getUnused (h : getUnusedVirtualFd w.fds cage e = some (fd, fds)) :
    Puts w (cage, fd) e { w with fds := fds } := by
  rcases getUnused_some w.fds fds cage e fd h with ⟨_, hlt, hfree, _, hlook, hex⟩
  exact ⟨hfree, hlt, look_of_translate hlook, hex, rfl, rfl⟩

theorem put_of_getUnusedFrom {start : Nat}
    (h : getUnusedVirtualFdFromStartfd w.fds cage e start = some (fd, fds)) :
    Puts w (cage, fd) e { w with fds := fds } := by
  rcases getUnusedFrom_some w.fds fds cage e start fd h with ⟨_, hlt, _, hfree, _, hlook, hex⟩
  exact ⟨hfree, hlt, look_of_translate hlook, hex, rfl, rfl⟩

theorem set_of_getSpecific (htable : w.hasTable cage = true) (hlt : fd < fdLimit T) :
    Sets w (cage, fd) e (w.getSpecific cage fd e) := by
  rw [getSpecific]
  rcases h : getSpecificVirtualFd w.fds cage fd e with _ | fds
  · exact absurd (getSpecific_none w.fds cage fd e htable h) (by omega)
  rcases getSpecific_some w.fds fds cage fd e h with ⟨_, _, hlook, hex⟩
  refine ⟨look_of_translate hlook, hex, rfl, ?_⟩
  simp only [fire]
  split <;> rfl

/-- Setting a free number overwrites nothing, so no close handler runs. -/
theorem put_of_getSpecific (htable : w.hasTable cage = true) (hlt : fd < fdLimit T)
    (hfree : w.look (cage, fd) = none) : Puts w (cage, fd) e (w.getSpecific cage fd e) := by
  have hset := set_of_getSpecific (e := e) htable hlt
  refine ⟨hfree, hlt, hset.look, hset.hasTable, ?_, hset.pending⟩
  rw [hset.ipc, hfree]
  rfl

theorem getSpecific_of_le (hle : fdLimit T ≤ fd) : w.getSpecific cage fd e = w := by
  rw [getSpecific]
  rcases h : getSpecificVirtualFd w.fds cage fd e with _ | fds
  · rfl
  have := (getSpecific_some w.fds fds cage fd e h).2.1
  omega

theorem getSpecific_cases (htable : w.hasTable cage = true) (fd : Nat) (e : FDTableEntry) :
    Sets w (cage, fd) e (w.getSpecific cage fd e) ∨
      fdLimit T ≤ fd ∧ w.getSpecific cage fd e = w := by
  by_cases hlt : fd < fdLimit T
  · exact .inl (set_of_getSpecific htable hlt)
  · exact .inr ⟨by omega, getSpecific_of_le (by omega)⟩

theorem drop_of_closeFd (h : w.look (cage, fd) = some e) :
    Drops w (cage, fd) e (w.closeFd cage fd) := by
  rw [closeFd]
  rcases hc : closeVirtualfd w.fds cage fd with _ | fds
  · exact absurd (h.symm.trans (close_none w.fds cage fd hc)) (by simp)
  rcases close_some w.fds fds cage fd hc with ⟨_, hlook, _⟩
  refine ⟨h, look_of_translate hlook, ?_, ?_⟩
  · simp only [show translateVirtualFd w.fds cage fd = some e from h, fire]
  · simp only [fire]
    split <;> rfl

theorem retag_of_setPerfdinfo {info : Nat} (h : setPerfdinfo w.fds cage fd info = some fds) :
    ∃ e, Retags w (cage, fd) e { e with perfdinfo := info } { w with fds := fds } := by
  rcases LawfulManagedTables.setPerfdinfo_some w.fds fds cage fd info h with ⟨e, he, hlook, _⟩
  exact ⟨e, he, look_of_translate hlook, rfl, rfl⟩

theorem retag_of_setCloexec {b : Bool} (h : setCloexec w.fds cage fd b = some fds) :
    ∃ e, Retags w (cage, fd) e { e with shouldCloexec := b } { w with fds := fds } := by
  rcases setCloexec_some w.fds fds cage fd b h with ⟨e, he, hlook, _⟩
  exact ⟨e, he, look_of_translate hlook, rfl, rfl⟩

theorem below_succ_iff (hk : k ≠ (cage, n)) :
    k.1 = cage ∧ k.2 < n ↔ k.1 = cage ∧ k.2 < n + 1 := by
  simp only [ne_eq, Prod.ext_iff, not_and] at hk
  constructor
  · rintro ⟨h, hlt⟩
    exact ⟨h, by omega⟩
  · rintro ⟨h, hlt⟩
    have := hk h
    exact ⟨h, by omega⟩

/-- The first descriptors of a table, where there are none, one after another.
    The induction is on how many have been looked at. -/
theorem reserve_fold (cage : Nat) (htable : w.hasTable cage = true) (hn : n ≤ fdLimit T) :
    let w' := (range n).foldl (reserve cage) w
    w'.look = (fun k => if (k.1 = cage ∧ k.2 < n) ∧ w.look k = none
      then some ⟨fdkindKernel, k.2, false, 0⟩ else w.look k) ∧
    w'.hasTable = w.hasTable ∧ w'.ipc = w.ipc ∧ w'.pending = w.pending := by
  induction n with
  | zero => simp
  | succ n ih =>
    rw [range_succ, foldl_concat]
    rcases ih (by omega) with ⟨hlook, hex, hipc, hpending⟩
    set v := (range n).foldl (reserve cage) w
    have hv : v.look (cage, n) = w.look (cage, n) := by
      rw [hlook]
      simp only [Nat.lt_irrefl, and_false, false_and, if_false]
    cases hw : w.look (cage, n) with
    | none =>
      have hfree : translateVirtualFd v.fds cage n = none := hv.trans hw
      have hput : Puts v (cage, n) ⟨fdkindKernel, n, false, 0⟩ (reserve cage v n) := by
        rw [reserve, hfree, if_pos Option.isNone_none]
        exact put_of_getSpecific (by rw [hex]; exact htable) (by omega) hfree
      refine ⟨?_, hput.hasTable.trans hex, hput.ipc.trans hipc, hput.pending.trans hpending⟩
      rw [hput.look, hlook]
      funext k
      rw [update_apply]
      by_cases hk : k = (cage, n)
      · simp [hk, hw]
      · rw [if_neg hk]
        simp only [below_succ_iff hk]
    | some e =>
      have htaken : translateVirtualFd v.fds cage n = some e := hv.trans hw
      rw [reserve, htaken, if_neg (by simp)]
      refine ⟨?_, hex, hipc, hpending⟩
      rw [hlook]
      funext k
      by_cases hk : k = (cage, n)
      · simp [hk, hw]
      · simp only [below_succ_iff hk]

theorem getSpecific_fold (cage : Nat) (htable : w.hasTable cage = true)
    (hfree : ∀ fd, w.look (cage, fd) = none) (hn : n ≤ fdLimit T) :
    (range n).foldl (fun w fd => w.getSpecific cage fd ⟨fdkindKernel, fd, false, 0⟩) w =
      (range n).foldl (reserve cage) w := by
  induction n with
  | zero => rfl
  | succ n ih =>
    rw [range_succ, foldl_concat, foldl_concat, ih (by omega), reserve, if_pos]
    rw [Option.isNone_iff_eq_none]
    change ((range n).foldl (reserve cage) w).look (cage, n) = none
    rw [(reserve_fold cage htable (by omega)).1]
    simp only [Nat.lt_irrefl, and_false, false_and, if_false, hfree]

theorem ensured_newFdtable (h : w.hasTable cage = false) : Ensured w cage (w.newFdtable cage) := by
  set v : World T R := { w with fds := initEmptyCage w.fds cage }
  have hlook : v.look = w.look := by
    funext k
    simp only [World.look, v, translate_init w.fds cage h]
  have hex : v.hasTable = fun c => decide (c = cage) || w.hasTable c := by
    funext c
    exact exists_init w.fds cage c h
  have hfree : ∀ fd, v.look (cage, fd) = none := by
    intro fd
    rw [hlook]
    exact look_of_hasTable_eq_false h
  have ht : v.hasTable cage = true := by
    rw [hex]
    simp
  have hnew : w.newFdtable cage = (range 3).foldl (reserve cage) v :=
    getSpecific_fold cage ht hfree limit_gt
  rcases reserve_fold (n := 3) cage ht limit_gt with ⟨hlook', hex', hipc', hpending'⟩
  rw [hnew]
  refine ⟨by rw [hex', ht], hipc', hpending', .inr ⟨h, ?_⟩⟩
  rw [hlook', hlook]
  funext k
  rcases k with ⟨c, fd⟩
  by_cases hc : c = cage
  · rw [hc, look_of_hasTable_eq_false h]
    simp only [and_true]
  · simp only [hc, false_and, if_false]

theorem ensured_ensureCageFdtable (hw : Idle w) (cage : Nat) :
    Ensured w cage (w.ensureCageFdtable cage) := by
  simp only [ensureCageFdtable, waitForCageFdtable, waitForCage_idle hw]
  by_cases hc : w.hasTable cage = true
  · rw [if_pos hc]
    exact ⟨hc, rfl, rfl, .inl rfl⟩
  · rw [if_neg hc]
    exact ensured_newFdtable (Bool.eq_false_iff.mpr hc)

end LindGrates.Ipc
