import LindGrates.Core.MapTables
import LindGrates.Theory.Imfs.Fit

/-!
# Indices Stay in Range

This is what makes reading an arena with a default value a faithful model of
indexing a `Vec`: the default is never read.

## Main definitions

* `InRange`: Every index lies in the arena it points into, and every file has its chunks.

## Theorems

* `inRange_step`: Every call keeps that.
* `reachable_inv_inRange`: Invariants of runs may use it.
-/

namespace LindGrates.Imfs

open FdTables ImfsState LawfulFdTables World Nat

variable {s : ImfsState} {s' : ImfsState} {flags : BitVec 32} {off : Int}

theorem fit_congr (h : Fit s) (harena : s'.toArena = s.toArena)
    (hnodes : s'.nodes = s.nodes) (hfree : s'.nodeFreeList = s.nodeFreeList)
    (hroot : s'.rootIdx = s.rootIdx) : Fit s' := by
  have hnode : ∀ i, s'.node i = s.node i := fun i => by rw [node, node, hnodes]
  rcases h.files with ⟨chain, hfiles⟩
  refine ⟨?_, fun i hi => ?_, fun d ch hd => ?_, fun l t hl => ?_, fun i hi => ?_,
    chain, filesOk_congr hfiles harena hnodes⟩
  · rw [hroot, hnodes]
    exact h.root
  · rw [hfree] at hi
    rw [hnodes]
    exact h.free i hi
  · rw [hnode] at hd
    rw [hnodes]
    exact h.entries d ch hd
  · rw [hnode] at hl
    rw [hnodes]
    exact h.links l t hl
  · rw [hnodes] at hi ⊢
    rw [hnode]
    exact h.parents i hi

theorem extends_incInUse (h : Fit s) (i : Nat) : Extends s (s.incInUse i) :=
  extends_modifyNode_same h i _ (fun _ => rfl) (fun _ => rfl) fun _ => rfl

theorem extends_decInUse (h : Fit s) (i : Nat) : Extends s (s.decInUse i) :=
  extends_modifyNode_same h i _ (fun _ => rfl) (fun _ => rfl) fun _ => rfl

theorem extends_keepsTree (h : Fit s) (i : Nat) {f : Node → Node} (hf : KeepsTree f) :
    Extends s (s.modifyNode i f) := by
  have hparent : i < s.nodes.length → (f (s.node i)).parentIdx < s.nodes.length := by
    rw [hf.parentIdx_eq]
    exact h.parents i
  rcases hf.info_eq (s.node i) with hinfo | ⟨_, _, _, _, _, _, _, hinfo⟩
  · refine extends_modifyNode h i f hparent (fun ch hd => ?_) (fun t hl => ?_) fun a b hr => ?_
    · exact h.entries i ch (hinfo ▸ hd)
    · exact h.links i t (hinfo ▸ hl)
    · exact ⟨hinfo ▸ hr, hf.totalSize_eq _⟩
  · refine extends_modifyNode h i f hparent ?_ ?_ ?_
    all_goals rw [hinfo]
    all_goals exact nofun

theorem keepsTree_countPipeEnd (flags : BitVec 32) : KeepsTree fun n => match n.info with
    | .pip data readers writers =>
      if flags &&& oAccmode = oWronly then { n with info := .pip data readers (writers + 1) }
      else { n with info := .pip data (readers + 1) writers }
    | _ => n := by
  constructor
  all_goals intro n
  any_goals (split <;> first | rfl | (split <;> rfl))
  cases hinfo : n.info with
  | pip data readers writers =>
    by_cases hw : flags &&& oAccmode = oWronly
    · exact .inr ⟨_, _, _, data, readers, writers + 1, rfl, by simp only [if_pos hw]⟩
    · exact .inr ⟨_, _, _, data, readers + 1, writers, rfl, by simp only [if_neg hw]⟩
  | _ => exact .inl hinfo

theorem extends_countPipeEnd (h : Fit s) (i : Nat) (flags : BitVec 32) :
    Extends s (s.countPipeEnd i flags) :=
  extends_keepsTree h i (keepsTree_countPipeEnd flags)

theorem extends_openTarget (h : Fit s) {path : Str} {mode : BitVec 32}
    {idx : Nat} (ht : OpenTarget s path flags mode idx s') :
    Extends s s' ∧ idx < s'.nodes.length := by
  cases ht with
  | found _ hres => exact ⟨extends_refl h, resolvePath_lt h hres⟩
  | truncated _ _ hres _ htrunc =>
    have hext := extends_stores h (.inr ⟨0, htrunc⟩)
    exact ⟨hext, lt_of_lt_of_le (resolvePath_lt h hres) hext.length_le⟩
  | created _ _ name _ _ _ _ _ hadd =>
    have h1 := extends_createNode h name .reg mode
    have hlt := s.nextSlot_lt_createNode name .reg mode h.free
    have h2 := extends_addChild h1.fit hlt hadd
    exact ⟨extends_trans h1 h2, lt_of_lt_of_le hlt h2.length_le⟩

section World

variable {T : Type} [FdTables T] {w w' : World T} {call : Call} {s' s : ImfsState}
  {i n cage fd : Nat} {t : T} {e : FDTableEntry} {ret : Int}

theorem extends_creation (h : Fit w.fs) (hc : Creation w call s') : Extends w.fs s' := by
  cases hc with
  | mknod _ name _ ty mode _ _ _ _ _ _ _ hadd =>
    have h1 := extends_createNode h name ty mode
    exact extends_trans h1 (extends_addChild h1.fit
      (w.fs.nextSlot_lt_createNode name ty mode h.free) hadd)
  | mkdir _ name _ mode _ _ _ _ _ hfresh hadd hdots =>
    have h1 := extends_createNode h name .dir mode
    have hlt := w.fs.nextSlot_lt_createNode name .dir mode h.free
    have h2 := extends_addChild h1.fit hlt hadd
    have h₁₂ := extends_trans h1 h2
    refine extends_trans h₁₂ (extends_addDots h2.fit (lt_of_lt_of_le hlt h2.length_le) ?_ hdots)
    exact lt_of_lt_of_le (resolveParentAndName_lt h hfresh.parent_eq) h₁₂.length_le
  | link _ _ name oldIdx _ _ _ hres _ _ _ hadd =>
    have h1 := extends_createNode h name .lnk (w.fs.node oldIdx).mode
    have h2 := extends_addChild h1.fit
      (w.fs.nextSlot_lt_createNode name .lnk (w.fs.node oldIdx).mode h.free) hadd
    have h₁₂ := extends_trans h1 h2
    refine extends_trans h₁₂ ?_
    refine extends_modifyNode h₁₂.fit _ _ (fun hi => h₁₂.fit.parents _ hi) nofun
      (fun t ht => ?_) nofun
    cases ht
    exact lt_of_lt_of_le (resolvePath_lt h hres) h₁₂.length_le
  | symlink target _ name _ _ _ _ _ hadd =>
    have h1 := extends_createNode h name .lnk 0o777
    have h2 := extends_modifyNode h1.fit w.fs.nextSlot
      (fun n => { n with info := .symlink target, totalSize := target.len })
      (fun hi => h1.fit.parents _ hi) nofun nofun nofun
    refine extends_trans h1 (extends_trans h2 (extends_addChild h2.fit ?_ hadd))
    rw [length_modifyNode]
    exact w.fs.nextSlot_lt_createNode name .lnk 0o777 h.free

theorem extends_removal (h : Fit w.fs) (hr : Removal w call i s') : Extends w.fs s' := by
  cases hr with
  | unlink _ _ _ _ _ _ _ hres _ hrem hunl | rmdir _ _ _ _ _ hres _ _ _ hrem hunl =>
    have h1 := extends_removeChild h hrem
    exact extends_trans h1 (extends_unlinkNode h1.fit
      (lt_of_lt_of_le (resolvePath_lt h hres) h1.length_le) hunl)

theorem extends_renaming {newParent : Nat} {newName : Str} (h : Fit w.fs)
    (hr : Renaming w call i newParent newName s') : Extends w.fs s' := by
  have hi := resolvePath_lt h hr.oldIdx_eq
  rcases hr.moved with ⟨existing, s1, hres, hne, hdir, ⟨s0, hrem, hunl⟩, hmove⟩ | ⟨_, hmove⟩
  · have h0 := extends_removeChild h hrem
    have h1 := extends_trans h0 (extends_unlinkNode h0.fit
      (lt_of_lt_of_le (resolvePath_lt h hres) h0.length_le) hunl)
    exact extends_trans h1 (extends_moveNode h1.fit (lt_of_lt_of_le hi h1.length_le) hmove)
  · exact extends_moveNode h hi hmove

structure InRange (w : World T) : Prop where
  fit : Fit w.fs
  fds : ∀ c fd e, translateVirtualFd w.fds c fd = some e → e.underfd < w.fs.nodes.length
  arcs : ∀ k h, w.fs.fdInfo k = some h → h < w.fs.arcs.length

theorem inRange_extends (h : InRange w) (he : Extends w.fs s') : InRange { w with fs := s' } := by
  refine ⟨he.fit, fun c fd e htr => ?_, fun k a hk => ?_⟩
  · exact lt_of_lt_of_le (h.fds c fd e htr) he.length_le
  · simp only [he.fdInfo_eq, he.arcs_eq] at hk ⊢
    exact h.arcs k a hk

theorem fds_update {t' : T} (h : ∀ c x e, translateVirtualFd t c x = some e → e.underfd < n)
    (ht : translateVirtualFd t' = lookupUpdate (translateVirtualFd t) cage fd (some e))
    (he : e.underfd < n) : ∀ c x e, translateVirtualFd t' c x = some e → e.underfd < n := by
  intro c x e' htr
  rw [ht, lookupUpdate] at htr
  split at htr
  · cases htr
    exact he
  · exact h c x e' htr

theorem setOffset_ok (h : s.setOffset cage fd off = .ok s') :
    ∃ a, s.fdInfo (cage, fd) = some a ∧
      s' = { s with arcs := s.arcs.modify a fun r => { r with offset := off } } := by
  unfold setOffset at h
  split at h
  · cases h
  rename_i a ha
  cases h
  exact ⟨a, ha, rfl⟩

theorem inRange_setOffset (h : InRange ⟨s, t⟩)
    (hset : s.setOffset cage fd off = .ok s') : InRange ⟨s', t⟩ := by
  rcases setOffset_ok hset with ⟨a, _, hs'⟩
  rw [hs']
  refine ⟨fit_congr h.fit rfl rfl rfl rfl, h.fds, fun k b hk => ?_⟩
  rw [List.length_modify]
  exact h.arcs k b hk

theorem inRange_insertFdInfo {fds : T} {a : Nat} (h : InRange w) (hext : Extends w.fs s')
    (ha : a < s'.arcs.length)
    (ht : translateVirtualFd fds = lookupUpdate (translateVirtualFd w.fds) cage fd (some e))
    (he : e.underfd < s'.nodes.length) :
    InRange { fs := s'.insertFdInfo cage fd a, fds := fds } := by
  have h' := inRange_extends h hext
  refine ⟨fit_congr hext.fit rfl rfl rfl rfl, fds_update h'.fds ht he, fun k b hk => ?_⟩
  simp only [insertFdInfo] at hk ⊢
  split at hk
  · cases hk
    exact ha
  · exact h'.arcs k b hk

theorem inRange_insertPerfdinfo {fds : T} (h : InRange w) (hext : Extends w.fs s')
    (ht : translateVirtualFd fds = lookupUpdate (translateVirtualFd w.fds) cage fd (some e))
    (he : e.underfd < s'.nodes.length) :
    InRange { fs := s'.insertPerfdinfo cage fd flags, fds := fds } := by
  have h' := inRange_extends h hext
  refine ⟨fit_congr hext.fit rfl rfl rfl rfl, fds_update h'.fds ht he, fun k b hk => ?_⟩
  simp only [insertPerfdinfo, newArc, insertFdInfo, List.length_append,
    List.length_singleton] at hk ⊢
  split at hk
  · cases hk
    omega
  have := h'.arcs k b hk
  simp only at this
  omega

theorem extends_dropReference (h : Fit s) (hdrop : dropReference s i = .ok s') : Extends s s' := by
  unfold dropReference at hdrop
  split at hdrop
  next hlt =>
    have h1 := extends_decInUse h i
    simp only at hdrop
    split at hdrop
    · refine extends_trans h1 (extends_reclaimNode h1.fit ?_ hdrop)
      rw [decInUse, length_modifyNode]
      exact hlt
    · cases hdrop
      exact h1
  · cases hdrop
    exact extends_refl h

theorem extends_dropDescriptor (h : Fit w.fs) (hdrop : w.dropDescriptor cage fd = .ok s') :
    Extends w.fs s' := by
  unfold dropDescriptor at hdrop
  split at hdrop
  · exact extends_dropReference h hdrop
  · cases hdrop
    exact extends_refl h

theorem close_ok (h : w.close cage fd = .ok (ret, w')) :
    ∃ s', w.dropDescriptor cage fd = .ok s' ∧ w'.fs = s'.removeFdInfo cage fd ∧
      ((∃ fds, closeVirtualfd w.fds cage fd = some fds ∧ w'.fds = fds ∧ ret = 0) ∨
        (closeVirtualfd w.fds cage fd = none ∧ w'.fds = w.fds ∧ ret = -9)) := by
  rcases (bind_eq_ok _ _ _).mp h with ⟨s', hs', h⟩
  refine ⟨s', hs', ?_⟩
  rcases hcl : closeVirtualfd w.fds cage fd with _ | fds
  · simp only [hcl] at h
    cases h
    exact ⟨rfl, .inr ⟨rfl, rfl, rfl⟩⟩
  simp only [hcl] at h
  cases h
  exact ⟨rfl, .inl ⟨fds, rfl, rfl, rfl⟩⟩

theorem inRange_close [LawfulFdTables T] (h : InRange w)
    (hclose : w.close cage fd = .ok (ret, w')) : InRange w' := by
  rcases close_ok hclose with ⟨s', hdrop, hfs, hfds⟩
  have hext := extends_dropDescriptor h.fit hdrop
  have h' := inRange_extends h hext
  refine ⟨?_, fun c x e htr => ?_, fun k b hk => ?_⟩
  · rw [hfs]
    exact fit_congr hext.fit rfl rfl rfl rfl
  · rw [hfs]
    rcases hfds with ⟨fds, hcl, hw, _⟩ | ⟨_, hw, _⟩
    · rw [hw, (close_some w.fds fds cage fd hcl).2.1, lookupUpdate] at htr
      split at htr
      · cases htr
      · exact h'.fds c x e htr
    · rw [hw] at htr
      exact h'.fds c x e htr
  · rw [hfs] at hk ⊢
    simp only [removeFdInfo] at hk ⊢
    split at hk
    · cases hk
    · exact h'.arcs k b hk

theorem close_length_le (h : InRange w) (hclose : w.close cage fd = .ok (ret, w')) :
    w.fs.nodes.length ≤ w'.fs.nodes.length ∧ w'.fs.arcs = w.fs.arcs := by
  rcases close_ok hclose with ⟨s', hdrop, hfs, _⟩
  have hext := extends_dropDescriptor h.fit hdrop
  rw [hfs]
  exact ⟨hext.length_le, hext.arcs_eq⟩

theorem fds_reserveFd [LawfulFdTables T] (hn : 0 < n)
    (h : ∀ c x e, translateVirtualFd t c x = some e → e.underfd < n) :
    ∀ c x e, translateVirtualFd (reserveFd t cage) c x = some e → e.underfd < n := by
  unfold reserveFd
  rcases hfd : getUnusedVirtualFd t cage (imfsEntry 0 false) with _ | p
  · exact h
  rcases p with ⟨fd, t'⟩
  exact fds_update h (getUnused_some t t' cage _ fd hfd).2.2.2.2.1 hn

theorem fds_initEmptyCage [LawfulFdTables T] (hnew : checkCageExists t cage = false)
    (h : ∀ c x e, translateVirtualFd t c x = some e → e.underfd < n) :
    ∀ c x e, translateVirtualFd (initEmptyCage t cage) c x = some e → e.underfd < n := by
  rw [translate_init t cage hnew]
  exact h

theorem inRange_preexecFd [LawfulFdTables T] (h : InRange w) (cage fd : Nat) :
    InRange (w.preexecFd cage fd) := by
  have hroot : 0 < w.fs.nodes.length := lt_of_le_of_lt (zero_le _) h.fit.root
  unfold preexecFd
  cases hfd : getSpecificVirtualFd w.fds cage fd (imfsEntry 0 false) with
  | some t =>
    exact inRange_insertPerfdinfo h (extends_refl h.fit)
      (getSpecific_some w.fds t cage fd _ hfd).2.2.1 hroot
  | none =>
    refine ⟨fit_congr h.fit rfl rfl rfl rfl, h.fds, fun k b hk => ?_⟩
    simp only [insertPerfdinfo, newArc, insertFdInfo, List.length_append,
      List.length_singleton] at hk ⊢
    split at hk
    · cases hk
      omega
    · have := h.arcs k b hk
      omega

theorem notExists_of_valid {parent child : Nat} (hcall : call = .fork parent child false)
    (hvalid : call.Valid w) : checkCageExists w.fds child = false := by
  rw [hcall] at hvalid
  simpa only [Call.Valid, Call.newCage, Option.all_some, Bool.not_eq_true'] using hvalid

theorem inRange_step [LawfulFdTables T] (h : InRange w) (hvalid : call.Valid w)
    (hstep : step w call = .ok (ret, w')) : InRange w' := by
  have hroot : 0 < w.fs.nodes.length := lt_of_le_of_lt (zero_le _) h.fit.root
  cases step_effect hstep with
  | idle => exact h
  | cwd => exact ⟨fit_congr h.fit rfl rfl rfl rfl, h.fds, h.arcs⟩
  | touch i _ _ hf => exact inRange_extends h (extends_keepsTree h.fit i hf)
  | cloexec cage fd b fds _ hset =>
    rcases setCloexec_some w.fds fds cage fd b hset with ⟨e, he, ht, _⟩
    exact ⟨h.fit, fds_update h.fds ht (h.fds cage fd e he), h.arcs⟩
  | seek _ _ _ _ _ _ _ hset => exact inRange_setOffset h hset
  | store _ _ _ _ _ _ hstore => exact inRange_extends h (extends_stores h.fit hstore)
  | storeSeek _ _ _ _ _ _ _ _ hstore _ hset =>
    have h1 := inRange_extends h (extends_stores h.fit hstore)
    exact inRange_setOffset h1 hset
  | openFull _ _ _ _ _ _ _ _ htarget => exact inRange_extends h (extends_openTarget h.fit htarget).1
  | openOk cage _ _ _ idx _ vfd fds _ _ htarget hfd =>
    rcases extends_openTarget h.fit htarget with ⟨hext, hlt⟩
    have hinc := extends_incInUse hext.fit idx
    exact inRange_insertPerfdinfo h (extends_trans hext hinc)
      (getUnused_some w.fds fds cage _ vfd hfd).2.2.2.2.1
      (lt_of_lt_of_le hlt hinc.length_le)
  | creation _ _ hcreate => exact inRange_extends h (extends_creation h.fit hcreate)
  | removal _ _ _ hremove => exact inRange_extends h (extends_removal h.fit hremove)
  | moved _ _ _ _ _ hrename => exact inRange_extends h (extends_renaming h.fit hrename)
  | close _ _ _ _ _ hclose => exact inRange_close h hclose
  | dupFull => exact inRange_extends h (extends_countPipeEnd h.fit _ _)
  | dupOk cage oldfd entry a newfd fds _ hsource hlt cloexec hfd =>
    have ht : translateVirtualFd fds = lookupUpdate (translateVirtualFd w.fds) cage newfd
        (some (imfsEntry entry.underfd cloexec)) := by
      rcases hfd with hfd | ⟨start, hfd⟩
      · exact (getUnused_some w.fds fds cage _ newfd hfd).2.2.2.2.1
      · exact (getUnusedFrom_some w.fds fds cage _ start newfd hfd).2.2.2.2.2.1
    have h1 := extends_countPipeEnd h.fit entry.underfd (w.fs.arc a).flags
    have h2 := extends_trans h1 (extends_incInUse h1.fit entry.underfd)
    refine inRange_insertFdInfo h h2 ?_ ht (lt_of_lt_of_le hlt h2.length_le)
    exact h.arcs (cage, oldfd) a (dupSource_eq_some hsource).2
  | dup2Ok cage oldfd newfd entry a w1 fds _ _ hsource hlt _ hclose hfd =>
    have h1 : InRange w1 := by
      rcases hclose with ⟨_, hw⟩ | hclose
      · rw [hw]
        exact h
      · exact inRange_close h hclose
    have hlen : w.fs.nodes.length ≤ w1.fs.nodes.length := by
      rcases hclose with ⟨_, hw⟩ | hclose
      · rw [hw]
      · exact (close_length_le h hclose).1
    have ha : a < w1.fs.arcs.length := by
      have := h.arcs (cage, oldfd) a (dupSource_eq_some hsource).2
      rcases hclose with ⟨_, hw⟩ | hclose
      · rw [hw]
        exact this
      · rw [(close_length_le h hclose).2]
        exact this
    have h2 := extends_countPipeEnd h1.fit entry.underfd (w1.fs.arc a).flags
    have h3 := extends_trans h2 (extends_incInUse h2.fit entry.underfd)
    refine inRange_insertFdInfo h1 h3 (by rw [h3.arcs_eq]; exact ha)
      (getSpecific_some w1.fds fds cage newfd _ hfd).2.2.1 ?_
    exact lt_of_lt_of_le (lt_of_lt_of_le hlt hlen) h3.length_le
  | fork parent child _ hcall =>
    have hnew := notExists_of_valid hcall hvalid
    refine ⟨fit_congr h.fit rfl rfl rfl rfl, fun c x e htr => ?_, fun k b hk => ?_⟩
    · rw [translate_copy w.fds parent child hnew] at htr
      simp only at htr
      split at htr
      · exact h.fds parent x e htr
      · exact h.fds c x e htr
    · simp only [fork] at hk ⊢
      split at hk
      · cases hp : w.fs.fdInfo (parent, k.2) with
        | some =>
          rw [hp] at hk
          cases hk
          exact h.arcs _ b hp
        | none =>
          rw [hp] at hk
          exact h.arcs k b hk
      · exact h.arcs k b hk
  | exec cage _ _ hcall hexec =>
    cases hexec
    refine ⟨h.fit, ?_, h.arcs⟩
    refine fds_reserveFd hroot (fds_reserveFd hroot (fds_reserveFd hroot fun c x e htr => ?_))
    rw [translate_empty] at htr
    have hinit : ∀ c x e, translateVirtualFd (if checkCageExists w.fds cage then w.fds
        else initEmptyCage w.fds cage) c x = some e → e.underfd < w.fs.nodes.length := by
      by_cases hex : checkCageExists w.fds cage = true
      · rw [if_pos hex]
        exact h.fds
      · rw [if_neg hex]
        exact fds_initEmptyCage (by simpa using hex) h.fds
    simp only at htr
    split at htr
    · exact hinit c x e (Option.filter_eq_some_iff.mp htr).1
    · exact hinit c x e htr
  | preexec cage _ hcall hpre =>
    unfold preexec at hpre
    split at hpre
    · cases hpre
    rename_i hnew
    cases hpre
    refine inRange_preexecFd (inRange_preexecFd (inRange_preexecFd ?_ cage 0) cage 1) cage 2
    exact ⟨fit_congr h.fit rfl rfl rfl rfl, fds_initEmptyCage (by simpa using hnew) h.fds, h.arcs⟩
  | initUtilityCage _ hnew => exact ⟨h.fit, fds_initEmptyCage hnew h.fds, h.arcs⟩

theorem fs_of_initial (h : Initial w) : w.fs = initState := by
  have hfs := h.fs_eq
  exact (Except.ok.inj hfs).symm

theorem translate_of_initial [LawfulFdTables T] (h : Initial w) (cage fd : Nat) :
    translateVirtualFd w.fds cage fd = none := by
  rcases htr : translateVirtualFd w.fds cage fd with _ | e
  · rfl
  have hex := exists_of_translate w.fds cage fd e htr
  rw [h.no_cage cage] at hex
  cases hex

theorem inRange_initial [LawfulFdTables T] (h : Initial w) : InRange w := by
  refine ⟨?_, fun c fd e htr => ?_, fun k a hk => ?_⟩
  · rw [fs_of_initial h]
    exact fit_initState
  · rw [translate_of_initial h c fd] at htr
    cases htr
  · rw [fs_of_initial h] at hk
    cases hk

theorem inRange_of_reachable [LawfulFdTables T] {cond : World T → Call → Prop}
    (hw : Reachable cond w) : InRange w :=
  reachable_inv (fun _ => inRange_initial)
    (fun _ _ _ _ h _ hvalid hstep => inRange_step h hvalid hstep) w hw

theorem reachable_inv_inRange [LawfulFdTables T] {cond : World T → Call → Prop}
    {I : World T → Prop} (hstart : ∀ w, Initial w → I w)
    (hnext : ∀ w call ret w', I w → InRange w → cond w call → call.Valid w →
      step w call = .ok (ret, w') → I w') : ∀ w, Reachable cond w → I w := by
  intro w hw
  have hboth : InRange w ∧ I w := by
    refine reachable_inv (I := fun w => InRange w ∧ I w)
      (fun w h => ⟨inRange_initial h, hstart w h⟩)
      (fun w call ret w' h hcond hvalid hstep => ?_) w hw
    exact ⟨inRange_step h.1 hvalid hstep, hnext w call ret w' h.2 h.1 hcond hvalid hstep⟩
  exact hboth.2

end World

instance : LawfulFdTables (MapTables 1024) :=
  lawful_mapTables 1024 (by decide) (by decide)

instance : LawfulFdTables (MapTables 8) :=
  lawful_mapTables 8 (by decide) (by decide)

/-- The grate on reference tables, before its first call. -/
def boot (limit : Nat) : World (MapTables limit) :=
  ⟨initState, .unregistered limit⟩

theorem initial_boot (limit : Nat) : Initial (boot limit) :=
  ⟨init_eq, fun _ => rfl⟩

end LindGrates.Imfs
