import LindGrates.Theory.Imfs.Listing
import Mathlib.Algebra.Order.BigOperators.Group.List
import Mathlib.Algebra.Order.Group.Nat

/-!
# Seeking

On a regular file `lseek` stores the position it returns. On a directory it returns
the offset it was given and stores nothing, so the next `getdents` goes on where the
last one stopped, whatever cookie was asked for.

## Main definitions

* `SeekLaw`: A position can be gone back to.

## Theorems

* `seekLaw_iff`: It can exactly when the descriptor is there already.
* `rewind_ignored`: A seek to the start that does nothing.
-/

namespace LindGrates.Imfs

open FdTables ImfsState List World

variable {T : Type} [FdTables T] {w : World T} {cage fd k c : Nat} {children : List DirEntry}

/-- After a seek to a cookie that returns it, a call whose buffer holds any
    record lists the entries behind that cookie. -/
def SeeksTo (w : World T) (cage fd : Nat) (children : List DirEntry) (c : Nat) : Prop :=
  ∀ w', w.lseek cage fd c 0 = .ok (c, w') → ∀ len, (∀ e ∈ children, e.reclen ≤ len) →
    ∃ n out w'', (children.drop c ≠ [] → 0 < n) ∧
      out = records w.fs c ((children.drop c).take n) ∧
      w'.getdentsData cage fd len = .ok (asI32 out.length, out, w'')

/-- A directory can be gone back to any cookie that was returned, and to its
    start, and the position of a file that a seek returned is found by the next. -/
def SeekLaw (w : World T) (cage fd c : Nat) : Prop :=
  (∀ children k, OnDir w cage fd children k → c ≤ k → SeeksTo w cage fd children c) ∧
  ∀ entry a i, translateVirtualFd w.fds cage fd = some entry → w.fs.fdInfo (cage, fd) = some a →
    w.fs.followHardLinks entry.underfd = .ok i → (w.fs.node i).nodeType = .reg →
    ∀ offset whence ret w', offset < 2 ^ 63 → w.lseek cage fd offset whence = .ok (ret, w') →
      0 ≤ ret → ∃ w'', w'.lseek cage fd 0 1 = .ok (ret, w'')

theorem lseek_dir (h : OnDir w cage fd children k) (offset whence : Int) :
    w.lseek cage fd offset whence = .ok (asI32 offset, w) := by
  rcases h.node with ⟨i, flags, hn, hch, _⟩
  have hdir : (w.fs.node i).nodeType = .dir := by
    rw [Node.nodeType, children?_eq_some.mp hch]
    rfl
  simp only [lseek, hn, bind, Except.bind, hdir, fail]

theorem seekTarget_lt {current size offset whence target : Int} (hoff : offset < 2 ^ 63)
    (h : seekTarget current size offset whence = some target) : target < 2 ^ 63 := by
  have hwrap : ∀ x, wrapI64 x < 2 ^ 63 := fun x => by
    have := Int.bmod_lt (x := x) (m := 2 ^ 64) (by decide)
    rw [wrapI64]
    omega
  unfold seekTarget at h
  split_ifs at h <;> cases h
  exacts [hoff, hwrap _, hwrap _]

section File

variable {entry : FDTableEntry} {a i : Nat} {offset whence p : Int}
  (htr : translateVirtualFd w.fds cage fd = some entry) (hfd : w.fs.fdInfo (cage, fd) = some a)
  (hi : w.fs.followHardLinks entry.underfd = .ok i) (hreg : (w.fs.node i).nodeType = .reg)

include htr hfd hi hreg

theorem lseek_reg
    (ht : seekTarget (w.fs.arc a).offset (w.fs.node i).totalSize offset whence = some p)
    (hp : 0 ≤ p) :
    w.lseek cage fd offset whence = .ok (asI32 p, { w with fs := { w.fs with
      arcs := w.fs.arcs.modify a fun r => { r with offset := p } } }) := by
  simp only [lseek, getNodeAndFlags, htr, hfd, hi, hreg, getOffset, ht, if_neg (Int.not_lt.mpr hp),
    setOffset, bind, Except.bind, pure, Except.pure, reply]

theorem lseek_tells (hrange : InRange w) {ret : Int} {w' : World T} (hoff : offset < 2 ^ 63)
    (hr : w.lseek cage fd offset whence = .ok (ret, w')) (hret : 0 ≤ ret) :
    ∃ w'', w'.lseek cage fd 0 1 = .ok (ret, w'') := by
  have hrun := hr
  simp only [lseek, getNodeAndFlags, htr, hfd, hi, hreg, getOffset, bind, Except.bind, pure,
    Except.pure] at hr
  split at hr
  · cases hr
    exact absurd hret (by decide)
  rename_i p ht
  split at hr
  · cases hr
    exact absurd hret (by decide)
  rename_i hneg
  have hp := Int.not_lt.mp hneg
  have hlt := seekTarget_lt hoff ht
  rw [lseek_reg htr hfd hi hreg ht hp] at hrun
  cases hrun
  refine ⟨_, lseek_reg htr hfd hi hreg ?_ hp⟩
  simp only [arc, getD_eq_getElem?_getD, getElem?_modify_eq,
    getElem?_eq_getElem (hrange.arcs _ _ hfd), Option.map_eq_map, Option.map_some, Option.getD_some]
  rw [seekTarget, if_neg (by decide), if_pos rfl, Int.add_zero]
  refine congrArg some ?_
  rw [wrapI64, Int.bmod_def]
  omega

end File

variable {s : ImfsState} {len u : Nat} {es : List DirEntry}

theorem clear_of_ends (hlen : ∀ e ∈ es, e.reclen ≤ len) (h : ∀ e ∈ es, Ends s e) :
    Clear s len u es := by
  induction es generalizing u with
  | nil => trivial
  | cons e _ ih =>
    exact ⟨hlen e (mem_cons_self ..), fun _ => ⟨h e (mem_cons_self ..),
      ih (fun e' he => hlen e' (mem_cons_of_mem _ he)) fun e' he => h e' (mem_cons_of_mem _ he)⟩⟩

theorem ends_of_direntLoop {out : List UInt8} {x : Except Int (Nat × List UInt8)}
    (hroom : out.length + (es.map DirEntry.reclen).sum ≤ len)
    (h : s.direntLoop len k es out = .ok x) : ∀ e ∈ es, Ends s e := by
  induction es generalizing k out with
  | nil => nofun
  | cons e es ih =>
    -- There is room for all records, so the loop comes to every entry.
    rw [map_cons, sum_cons] at hroom
    rw [direntLoop_cons, if_neg (by omega), if_neg (by omega)] at h
    rcases (bind_eq_ok _ _ _).mp h with ⟨ty, hty, h⟩
    have hends : Ends s e := by
      rcases (bind_eq_ok _ _ _).mp hty with ⟨i, hi, _⟩
      exact ⟨i, hi⟩
    rw [direntType_of_ends hends] at hty
    cases hty
    refine forall_mem_cons.mpr ⟨hends, ih ?_ h⟩
    rw [length_append, ← record, length_record]
    omega

theorem reclen_le_sum {e : DirEntry} (he : e ∈ es) : e.reclen ≤ (es.map DirEntry.reclen).sum :=
  single_le_sum (fun _ _ => Nat.zero_le _) _ (mem_map_of_mem he)

theorem ends_of_getdentsData (h : OnDir w cage fd children k) {r : Int × List UInt8 × World T}
    (hr : w.getdentsData cage fd (children.map DirEntry.reclen).sum = .ok r) :
    ∀ e ∈ children.drop k, Ends w.fs e := by
  rw [getdentsData_eq h] at hr
  rcases (bind_eq_ok _ _ _).mp hr with ⟨x, hx, _⟩
  refine ends_of_direntLoop ?_ hx
  rw [length_nil, Nat.zero_add]
  exact ((drop_sublist k children).map _).sum_le_sum fun _ _ => Nat.zero_le _

theorem eq_of_records_eq {es' : List DirEntry} (hc : c < 2 ^ 32) (hk : k < 2 ^ 32)
    (h : records s c es = records s k es') (hne : records s c es ≠ []) : c = k := by
  rcases es with _ | ⟨e, es⟩
  · exact absurd rfl hne
  rcases es' with _ | ⟨e', es'⟩
  · exact absurd h hne
  have hoff := (fields_record s c e (records s (c + 1) es)).2.1
  rw [show record s c e ++ records s (c + 1) es = _ from h] at hoff
  have := hoff.symm.trans (fields_record s k e' (records s (k + 1) es')).2.1
  omega

/-- Seeking agrees with reading for a cookie exactly when the descriptor is there
    already and can go on, or nothing lies behind the cookie. -/
theorem seekLaw_iff [LawfulFdTables T] (hw : Reachable Unrestricted w) :
    SeekLaw w cage fd c ↔ ∀ children k, OnDir w cage fd children k → c ≤ k → asI32 c = c →
      (c = k ∧ ∀ e ∈ children.drop c, Ends w.fs e) ∨ children.length ≤ c := by
  constructor
  · rintro ⟨hdir, _⟩ children k h hle hc
    by_cases hd : children.drop c = []
    · exact .inr (drop_eq_nil_iff.mp hd)
    rcases hdir children k h hle w (by rw [lseek_dir h, hc]) _ fun e => reclen_le_sum with
      ⟨n, out, w', hn, hout, hr⟩
    have hne : out ≠ [] := by
      rw [hout]
      cases hes : children.drop c with
      | nil => exact absurd hes hd
      | cons e es => exact records_ne_nil w.fs c e es (hn hd)
    -- What the call lists starts at `k`, and each record tells where it stands.
    have hends := ends_of_getdentsData h hr
    have hclear := clear_of_ends (u := 0) (fun e he => reclen_le_sum (mem_of_mem_drop he)) hends
    rcases getdentsData_clear h hclear with ⟨out', w'', hout', hr', _⟩
    rw [hr] at hr'
    have hsame : out = out' := (Prod.mk.inj (Prod.mk.inj (Except.ok.inj hr')).2).1
    rcases h.position with ⟨a, _, _, _, hk⟩
    have hlt : k < 2 ^ 32 := by rw [← hk, asUsize]; omega
    have heq : c = k := eq_of_records_eq (Nat.lt_of_le_of_lt hle hlt) hlt
      (hout.symm.trans (hsame.trans hout')) (hout ▸ hne)
    exact .inl ⟨heq, heq ▸ hends⟩
  · intro hcond
    refine ⟨fun children k h hle w' hr len hlen => ?_, fun entry a i htr hfd hi hreg offset
      whence ret w' => lseek_tells htr hfd hi hreg (inRange_of_reachable hw)⟩
    -- The seek has left everything as it was, the position too.
    rw [lseek_dir h] at hr
    simp only [Except.ok.injEq, Prod.mk.injEq] at hr
    rcases hr with ⟨hc, rfl⟩
    rcases hcond children k h hle hc with ⟨rfl, hends⟩ | hend
    · have hclear := clear_of_ends (u := 0) (fun e he => hlen e (mem_of_mem_drop he)) hends
      rcases getdentsData_clear h hclear with ⟨out, w', hout, hr, _⟩
      refine ⟨_, out, w', fun hne => ?_, hout, hr⟩
      cases hes : children.drop c with
      | nil => exact absurd hes hne
      | cons e => exact fitting_pos (hlen e (mem_of_mem_drop (hes ▸ mem_cons_self ..)))
    have hnil := drop_eq_nil_iff.mpr (hend.trans hle)
    rcases getdentsData_clear h (by rw [hnil]; trivial) with ⟨out, w', hout, hr, _⟩
    refine ⟨0, out, w', fun hne => absurd (drop_eq_nil_iff.mpr hend) hne, ?_, hr⟩
    rw [hout, hnil]
    rfl

/-- The root is opened, and listed to its end. -/
def listRun : List Call :=
  [.preexec 1, .openPath 1 ['/'] oRdonly 0, .getdents 1 3 48]

theorem onDir_listRun :
    OnDir (listRun.foldl serve (boot 8)) 1 3 [⟨['.'], 1⟩, ⟨['.', '.'], 2⟩] 2 :=
  onDir_root 3 (by decide +kernel)

theorem reachable_listRun : Reachable Unrestricted (listRun.foldl serve (boot 8)) :=
  reachable_foldl_serve _ (.start _ (initial_boot 8)) (by decide +kernel)

theorem seekLaw_iff_listRun : SeekLaw (listRun.foldl serve (boot 8)) 1 3 2 := by
  refine (seekLaw_iff reachable_listRun).mpr fun children k h _ _ => ?_
  rcases h.node with ⟨i, flags, hn, hch, _⟩
  have hroot : (listRun.foldl serve (boot 8)).getNodeAndFlags 1 3 = .ok (.ok (0, oRdonly)) := by
    decide +kernel
  rw [hroot] at hn
  cases hn
  have hentries : ((listRun.foldl serve (boot 8)).fs.node 0).children? =
      some [⟨['.'], 1⟩, ⟨['.', '.'], 2⟩] := by decide +kernel
  rw [hentries] at hch
  cases hch
  exact .inr (by decide)

/-- After a seek to its start, the root is still at its end. -/
theorem rewind_ignored :
    Reachable Unrestricted (listRun.foldl serve (boot 8)) ∧
      ¬ SeekLaw (listRun.foldl serve (boot 8)) 1 3 0 := by
  refine ⟨reachable_listRun, fun h => ?_⟩
  rcases h.1 _ 2 onDir_listRun (by decide) _ (lseek_dir onDir_listRun 0 0) 24 (by decide) with
    ⟨n, out, w', hn, hout, hr⟩
  have hnone : ((listRun.foldl serve (boot 8)).getdentsData 1 3 24).map (fun r => r.2.1) =
      .ok [] := by decide +kernel
  rw [hr] at hnone
  cases hnone
  exact records_ne_nil _ 0 _ _ (hn (by decide)) hout.symm

end LindGrates.Imfs
