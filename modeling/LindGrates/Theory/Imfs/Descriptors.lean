import LindGrates.Theory.Imfs.Range

/-!
# What a Call Does to the Descriptors

A descriptor is an entry of two maps, one for the node it is open on and one for the
handle of its record.

## Main definitions

* `World.under`: The first map.
* `DescEffect`: Positions move, a descriptor is added, copied or dropped, or the tables
  of a whole cage change.

## Theorems

* `step_descEffect`: Every call has one of these effects.
-/

namespace LindGrates.Imfs

open FdTables ImfsState Function LawfulFdTables World

variable {k : Nat × Nat} {ret : Int} {s' : ImfsState} {newfd : Nat} {T : Type} [FdTables T]

def World.under (w : World T) (k : Nat × Nat) : Option Nat :=
  (translateVirtualFd w.fds k.1 k.2).map FDTableEntry.underfd

variable {w : World T} {cage fd : Nat} {call : Call}

theorem under_eq_none :
    w.under k = none ↔ translateVirtualFd w.fds k.1 k.2 = none :=
  Option.map_eq_none_iff

theorem under_of_translate {e : FDTableEntry} (h : translateVirtualFd w.fds cage fd = some e) :
    w.under (cage, fd) = some e.underfd := by
  simp only [under, h, Option.map_some]

theorem fdInfo_insertFdInfo (s : ImfsState) (cage fd h : Nat) :
    (s.insertFdInfo cage fd h).fdInfo = update s.fdInfo (cage, fd) (some h) := by
  funext k
  rw [update_apply]
  rfl

theorem fdInfo_removeFdInfo (s : ImfsState) (cage fd : Nat) :
    (s.removeFdInfo cage fd).fdInfo = update s.fdInfo (cage, fd) none := by
  funext k
  rw [update_apply]
  rfl

theorem fdInfo_insertPerfdinfo (s : ImfsState) (cage fd : Nat) (flags : BitVec 32) :
    (s.insertPerfdinfo cage fd flags).fdInfo =
      update s.fdInfo (cage, fd) (some s.arcs.length) :=
  fdInfo_insertFdInfo _ cage fd s.arcs.length

theorem under_update {s : ImfsState} {t : T} (e : Option FDTableEntry)
    (h : translateVirtualFd t = lookupUpdate (translateVirtualFd w.fds) cage fd e) :
    under ⟨s, t⟩ = update w.under (cage, fd) (e.map FDTableEntry.underfd) := by
  funext k
  rw [update_apply]
  simp only [under, h, lookupUpdate, Prod.ext_iff]
  split <;> rfl

/-- The records after a call moved one position, or left all alone. -/
def Moves (s : ImfsState) (call : Call) (arcs' : List FDInfo) : Prop :=
  arcs' = s.arcs ∨ ∃ k h off, call.seeks = some k ∧ s.fdInfo k = some h ∧
    arcs' = s.arcs.modify h fun r => { r with offset := off }

inductive DescEffect (w : World T) (call : Call) (ret : Int) (w' : World T) : Prop
  | quiet (hret : call.Idles ret) (hunder : w'.under = w.under)
      (hinfo : w'.fs.fdInfo = w.fs.fdInfo) (harcs : Moves w.fs call w'.fs.arcs)
  | opened (cage vfd idx : Nat) (flags mode : BitVec 32)
      (hcall : call.opens = some (cage, flags, mode)) (hret : ret = vfd)
      (hfree : w.under (cage, vfd) = none)
      (hunder : w'.under = update w.under (cage, vfd) (some idx))
      (hinfo : w'.fs.fdInfo =
        update w.fs.fdInfo (cage, vfd) (some w.fs.arcs.length))
      (harcs : w'.fs.arcs = w.fs.arcs ++ [⟨flags, 0⟩])
  | copied (cage oldfd newfd idx h : Nat)
      (hcall : call.dups = some (cage, oldfd) ∧ w.under (cage, newfd) = none ∨
        call.dups2 = some (cage, oldfd, newfd) ∧ oldfd ≠ newfd)
      (hret : ret = newfd) (hold : w.under (cage, oldfd) = some idx)
      (hold_info : w.fs.fdInfo (cage, oldfd) = some h)
      (hunder : w'.under = update w.under (cage, newfd) (some idx))
      (hinfo : w'.fs.fdInfo = update w.fs.fdInfo (cage, newfd) (some h))
      (harcs : w'.fs.arcs = w.fs.arcs)
  | closed (cage fd : Nat) (hcall : call = .close cage fd)
      (hunder : w'.under = update w.under (cage, fd) none)
      (hinfo : w'.fs.fdInfo = update w.fs.fdInfo (cage, fd) none)
      (harcs : w'.fs.arcs = w.fs.arcs)
  | forked (parent child : Nat) (hcall : call = .fork parent child false)
      (hnew : ∀ fd, w.under (child, fd) = none)
      (hunder : w'.under = fun k => if k.1 = child then w.under (parent, k.2) else w.under k)
      (hinfo : w'.fs.fdInfo = fun k => if k.1 = child
        then (w.fs.fdInfo (parent, k.2)).orElse fun _ => w.fs.fdInfo k else w.fs.fdInfo k)
      (harcs : w'.fs.arcs = w.fs.arcs)
  | executed (cage : Nat) (hcall : call = .exec cage ret)
      (hexec : w.execHook cage ret = .ok (ret, w'))
  | started (cage : Nat) (hcall : call = .preexec cage)
      (hnew : ∀ fd, w.under (cage, fd) = none)
      (hunder : w'.under = update (update (update w.under
        (cage, 0) (some 0)) (cage, 1) (some 0)) (cage, 2) (some 0))
      (hinfo : w'.fs.fdInfo = update (update (update w.fs.fdInfo
        (cage, 0) (some w.fs.arcs.length)) (cage, 1) (some (w.fs.arcs.length + 1)))
        (cage, 2) (some (w.fs.arcs.length + 2)))
      (harcs : w'.fs.arcs = w.fs.arcs ++ List.replicate 3 ⟨oRdwr, 0⟩)

theorem idles_of_seeks (hcall : call.seeks = some k) (ret : Int) :
    call.Idles ret := by
  cases call <;> first | exact trivial | cases hcall

theorem descEffect_extends (hret : call.Idles ret)
    (h : Extends w.fs s') : DescEffect w call ret { w with fs := s' } :=
  .quiet hret rfl h.fdInfo_eq (.inl h.arcs_eq)

theorem descEffect_setOffset {s₁ : ImfsState} {off : Int}
    (hcall : call.seeks = some (cage, fd)) (hfd : s₁.fdInfo = w.fs.fdInfo)
    (harcs : s₁.arcs = w.fs.arcs) (hset : s₁.setOffset cage fd off = .ok s') :
    DescEffect w call ret { w with fs := s' } := by
  rcases setOffset_ok hset with ⟨a, ha, hs'⟩
  refine .quiet (idles_of_seeks hcall ret) rfl ?_ (.inr ⟨_, a, off, hcall, ?_, ?_⟩)
  · rw [hs']
    exact hfd
  · rw [← hfd]
    exact ha
  · rw [hs', harcs]

variable [LawfulFdTables T] {w w' : World T} {cage fd : Nat} {ret : Int} {s : ImfsState}

theorem under_of_not_exists (h : checkCageExists w.fds cage = false) (fd : Nat) :
    w.under (cage, fd) = none := by
  rw [under_eq_none]
  rcases htr : translateVirtualFd w.fds cage fd with _ | e
  · rfl
  have := exists_of_translate w.fds cage fd e htr
  rw [h] at this
  cases this

theorem close_desc (h : InRange w) (hclose : w.close cage fd = .ok (ret, w')) :
    w'.under = update w.under (cage, fd) none ∧
      w'.fs.fdInfo = update w.fs.fdInfo (cage, fd) none ∧ w'.fs.arcs = w.fs.arcs := by
  rcases close_ok hclose with ⟨s', hdrop, hfs, hfds⟩
  have hext := extends_dropDescriptor h.fit hdrop
  refine ⟨?_, ?_, by rw [hfs]; exact hext.arcs_eq⟩
  · rcases hfds with ⟨fds, hcl, hw, _⟩ | ⟨hcl, hw, _⟩
    · have htr := (close_some w.fds fds cage fd hcl).2.1
      rw [← hw] at htr
      exact under_update none htr
    have hnone := close_none w.fds cage fd hcl
    rw [update_eq_self_iff.mpr (under_eq_none.mpr hnone).symm]
    unfold under
    rw [hw]
  · rw [hfs, fdInfo_removeFdInfo, hext.fdInfo_eq]

theorem preexecFd_desc (hex : checkCageExists w.fds cage = true) (hfd : fd < 3) :
    (w.preexecFd cage fd).under = update w.under (cage, fd) (some 0) ∧
      (w.preexecFd cage fd).fs.fdInfo =
        update w.fs.fdInfo (cage, fd) (some w.fs.arcs.length) ∧
      (w.preexecFd cage fd).fs.arcs = w.fs.arcs ++ [⟨oRdwr, 0⟩] ∧
      checkCageExists (w.preexecFd cage fd).fds cage = true := by
  have hlim : 2 < fdLimit T := limit_gt
  unfold preexecFd
  rcases hsp : getSpecificVirtualFd w.fds cage fd (imfsEntry 0 false) with _ | t
  · have := getSpecific_none w.fds cage fd _ hex hsp
    omega
  rcases getSpecific_some w.fds t cage fd _ hsp with ⟨_, _, htr, hcages⟩
  refine ⟨under_update (some (imfsEntry 0 false)) htr, fdInfo_insertPerfdinfo .., rfl, ?_⟩
  simp only [Option.getD_some, hcages]
  exact hex

theorem under_setCloexec {b : Bool} {fds : T} (h : setCloexec w.fds cage fd b = some fds) :
    under ⟨w.fs, fds⟩ = w.under := by
  rcases setCloexec_some w.fds fds cage fd b h with ⟨e, he, ht, _⟩
  rw [under_update (some { e with shouldCloexec := b }) ht, update_eq_self_iff]
  exact (under_of_translate he).symm

theorem under_initEmptyCage (h : checkCageExists w.fds cage = false) :
    under ⟨s, initEmptyCage w.fds cage⟩ = w.under := by
  unfold under
  rw [translate_init w.fds cage h]

theorem under_copy {parent child : Nat} (h : checkCageExists w.fds child = false) :
    under ⟨s, copyFdtableForCage w.fds parent child⟩ =
      fun k => if k.1 = child then w.under (parent, k.2) else w.under k := by
  funext k
  simp only [under, translate_copy w.fds parent child h]
  split <;> rfl

theorem preexec_desc (hpre : w.preexec cage = .ok (ret, w')) :
    checkCageExists w.fds cage = false ∧
      w'.under = update (update (update w.under
        (cage, 0) (some 0)) (cage, 1) (some 0)) (cage, 2) (some 0) ∧
      w'.fs.fdInfo = update (update (update w.fs.fdInfo
        (cage, 0) (some w.fs.arcs.length)) (cage, 1) (some (w.fs.arcs.length + 1)))
        (cage, 2) (some (w.fs.arcs.length + 2)) ∧
      w'.fs.arcs = w.fs.arcs ++ List.replicate 3 ⟨oRdwr, 0⟩ := by
  unfold preexec at hpre
  split at hpre
  · cases hpre
  rename_i hnew
  have hnew : checkCageExists w.fds cage = false := by simpa using hnew
  cases hpre
  have hex : checkCageExists (initEmptyCage w.fds cage) cage = true := by
    rw [exists_init w.fds cage cage hnew, decide_eq_true rfl, Bool.true_or]
  rcases preexecFd_desc (w := ⟨w.fs.insertCwd cage ['/'], initEmptyCage w.fds cage⟩)
    hex (show 0 < 3 by decide) with ⟨hu₀, hi₀, ha₀, hx₀⟩
  rcases preexecFd_desc hx₀ (show 1 < 3 by decide) with ⟨hu₁, hi₁, ha₁, hx₁⟩
  rcases preexecFd_desc hx₁ (show 2 < 3 by decide) with ⟨hu₂, hi₂, ha₂, _⟩
  refine ⟨hnew, ?_, ?_, ?_⟩
  · rw [hu₂, hu₁, hu₀, under_initEmptyCage hnew]
  · rw [hi₂, hi₁, hi₀, ha₁, ha₀]
    simp only [List.length_append, List.length_singleton]
    rfl
  · rw [ha₂, ha₁, ha₀]
    simp only [List.append_assoc]
    rfl

/-- Closing the target of a `dup2` first makes no difference to what is put
    there. -/
theorem dup2_desc {w₁ : World T} (h : InRange w)
    (hclose : (translateVirtualFd w.fds cage newfd = none ∧ w₁ = w) ∨
      w.close cage newfd = .ok (0, w₁)) (x : Option Nat) :
    update w₁.under (cage, newfd) x = update w.under (cage, newfd) x ∧
      update w₁.fs.fdInfo (cage, newfd) x =
        update w.fs.fdInfo (cage, newfd) x ∧ w₁.fs.arcs = w.fs.arcs := by
  rcases hclose with ⟨_, hw⟩ | hclose
  · rw [hw]
    exact ⟨rfl, rfl, rfl⟩
  rcases close_desc h hclose with ⟨hunder, hinfo, harcs⟩
  rw [hunder, hinfo, update_idem, update_idem]
  exact ⟨rfl, rfl, harcs⟩

theorem dupOk_desc {idx : Nat} {cloexec : Bool} {fds : T}
    (hfd : getUnusedVirtualFd w.fds cage (imfsEntry idx cloexec) = some (newfd, fds) ∨
      ∃ start, getUnusedVirtualFdFromStartfd w.fds cage (imfsEntry idx cloexec) start =
        some (newfd, fds)) :
    w.under (cage, newfd) = none ∧
      under ⟨s, fds⟩ = update w.under (cage, newfd) (some idx) := by
  have ht : translateVirtualFd w.fds cage newfd = none ∧ translateVirtualFd fds =
      lookupUpdate (translateVirtualFd w.fds) cage newfd (some (imfsEntry idx cloexec)) := by
    rcases hfd with hfd | ⟨start, hfd⟩
    · have hlaw := getUnused_some w.fds fds cage _ newfd hfd
      exact ⟨hlaw.2.2.1, hlaw.2.2.2.2.1⟩
    · have hlaw := getUnusedFrom_some w.fds fds cage _ start newfd hfd
      exact ⟨hlaw.2.2.2.1, hlaw.2.2.2.2.2.1⟩
  exact ⟨under_eq_none.mpr ht.1, under_update (some (imfsEntry idx cloexec)) ht.2⟩

theorem step_descEffect {call : Call} (h : InRange w) (hvalid : call.Valid w)
    (hstep : step w call = .ok (ret, w')) : DescEffect w call ret w' := by
  cases step_effect hstep with
  | idle _ hret => exact .quiet hret rfl rfl (.inl rfl)
  | cwd _ _ hplain | touch i f hplain => exact .quiet (idles_of_plain hplain 0) rfl rfl (.inl rfl)
  | cloexec _ _ _ _ hplain hset =>
    exact .quiet (idles_of_plain hplain 0) (under_setCloexec hset) rfl (.inl rfl)
  | seek _ _ _ _ _ hcall _ hset => exact descEffect_setOffset hcall rfl rfl hset
  | store _ _ _ hplain _ _ hstore =>
    exact descEffect_extends (idles_of_plain hplain ret) (extends_stores h.fit hstore)
  | storeSeek _ _ _ _ _ _ _ _ hstore hcall hset =>
    have hext := extends_stores h.fit hstore
    exact descEffect_setOffset hcall hext.fdInfo_eq hext.arcs_eq hset
  | openFull cage flags mode path idx s' hcall hname htarget =>
    exact descEffect_extends (idles_of_opens hcall (by decide))
      (extends_openTarget h.fit htarget).1
  | openOk cage flags mode _ idx _ vfd fds hcall _ htarget hfd =>
    have hext := (extends_openTarget h.fit htarget).1
    rcases getUnused_some w.fds fds cage _ vfd hfd with ⟨_, _, hnone, _, ht, _⟩
    refine .opened cage vfd idx flags mode hcall rfl (under_eq_none.mpr hnone)
      (under_update (some (imfsEntry idx false)) ht) ?_ ?_
    · rw [fdInfo_insertPerfdinfo]
      exact congrArg₂ (fun f n => update f (cage, vfd) (some (List.length n)))
        hext.fdInfo_eq hext.arcs_eq
    · exact congrArg (· ++ [(⟨flags, 0⟩ : FDInfo)]) hext.arcs_eq
  | creation _ hplain hcreate =>
    exact descEffect_extends (idles_of_plain hplain 0) (extends_creation h.fit hcreate)
  | removal _ _ hplain hremove =>
    exact descEffect_extends (idles_of_plain hplain 0) (extends_removal h.fit hremove)
  | moved _ _ _ _ hplain hrename =>
    exact descEffect_extends (idles_of_plain hplain 0) (extends_renaming h.fit hrename)
  | close cage fd _ _ hcall hclose =>
    rcases close_desc h hclose with ⟨hunder, hinfo, harcs⟩
    exact .closed cage fd hcall hunder hinfo harcs
  | dupFull cage oldfd entry a hcall =>
    refine descEffect_extends ?_ (extends_countPipeEnd h.fit _ _)
    rw [hcall]
    exact (by decide : (-24 : Int) < 0)
  | dupOk cage oldfd entry a newfd _ hcall hsource _ _ hfd =>
    rcases dupSource_eq_some hsource with ⟨htr, hinfo⟩
    rcases dupOk_desc hfd with ⟨hnone, hunder⟩
    exact .copied cage oldfd newfd entry.underfd a (.inl ⟨hcall, hnone⟩) rfl
      (under_of_translate htr) hinfo hunder (fdInfo_insertFdInfo ..) rfl
  | dup2Ok cage oldfd newfd entry a w₁ fds hcall hne hsource _ cloexec hclose hfd =>
    rcases dupSource_eq_some hsource with ⟨htr, hinfo⟩
    have ht := (getSpecific_some w₁.fds fds cage newfd _ hfd).2.2.1
    have hunder := (dup2_desc h hclose (some entry.underfd)).1
    rcases dup2_desc h hclose (some a) with ⟨_, hinfo₁, harcs⟩
    exact .copied cage oldfd newfd entry.underfd a (.inr ⟨hcall, hne⟩) rfl
      (under_of_translate htr) hinfo
      ((under_update (some (imfsEntry entry.underfd cloexec)) ht).trans hunder)
      ((fdInfo_insertFdInfo ..).trans hinfo₁) harcs
  | fork parent child _ hcall =>
    have hnew := notExists_of_valid hcall hvalid
    exact .forked parent child hcall (under_of_not_exists hnew) (under_copy hnew) rfl rfl
  | exec cage _ _ hcall hexec => exact .executed cage hcall hexec
  | preexec cage _ hcall hpre =>
    rcases preexec_desc hpre with ⟨hnew, hunder, hinfo, harcs⟩
    exact .started cage hcall (under_of_not_exists hnew) hunder hinfo harcs
  | initUtilityCage hcall hnew =>
    exact .quiet (by rw [hcall]; exact trivial) (under_initEmptyCage hnew) rfl (.inl rfl)

end LindGrates.Imfs
