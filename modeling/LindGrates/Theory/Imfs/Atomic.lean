import LindGrates.Theory.Imfs.Offsets

/-!
# Calls that Fail

Most calls check first and change last. Three do not. `open` creates
or empties the file before it looks for a free descriptor, and uncounts the
descriptor when there is none but does not undo the rest. `dup` counts one more
end of a pipe before it looks. `lseek` stores the new position and then returns
it as an `i32`, so that a position with the thirty-second bit set comes back as
a negative number although it was stored.

## Main definitions

* `AtomicWhen`: The state before a call rules this out.

## Theorems

* `atomic_iff`: A call that fails leaves everything as it was exactly in these states.
* `open_not_atomic`: An `open` that fails and leaves a file behind.
-/

namespace LindGrates.Imfs

open FdTables ImfsState World

variable {i cage idx h : Nat} {t : Int}

/-- An `open` with these flags would empty the file at a path, or create one
    there. -/
def OpenChanges (s : ImfsState) (path : Str) (flags : BitVec 32) : Prop :=
  (∃ idx, s.resolvePath path true = .ok (.ok idx) ∧ Empties s flags idx ∧
    (s.node idx).totalSize ≠ 0) ∨
  ∃ e parent name, s.resolvePath path true = .ok (.error e) ∧ has flags oCreat = true ∧
    s.resolveParentAndName path = .ok (.ok (parent, name)) ∧ name.len < maxNodeName ∧
    (s.node parent).nodeType = .dir ∧ parent ≠ s.nextSlot

/-- The operations that change the filesystem or the descriptors, and moving a
    position. -/
def Call.changes : Call → Bool
  | .openPath _ _ _ _ => true
  | .openat _ _ _ _ _ => true
  | .mkdir _ _ _ => true
  | .mknod _ _ _ => true
  | .link _ _ _ => true
  | .linkat _ _ _ _ _ _ => true
  | .symlink _ _ _ => true
  | .symlinkat _ _ _ _ => true
  | .rename _ _ _ => true
  | .renameat _ _ _ _ _ => true
  | .unlink _ _ => true
  | .unlinkat _ _ _ _ => true
  | .rmdir _ _ => true
  | .truncate _ _ _ => true
  | .ftruncate _ _ _ => true
  | .dup _ _ => true
  | .dup2 _ _ _ => true
  | .dup3 _ _ _ _ => true
  | .fcntl _ _ _ _ => true
  | .write _ _ _ => true
  | .pwrite _ _ _ _ => true
  | .lseek _ _ _ _ => true
  | .chdir _ _ => true
  | .fchdir _ _ => true
  | _ => false

section Atomic

variable {T : Type} [FdTables T]

def TableFull (w : World T) (cage : Nat) : Prop :=
  ∀ e, getUnusedVirtualFd w.fds cage e = none

/-- The state before a call rules out that it fails after a change. -/
def AtomicWhen (w : World T) : Call → Prop
  | .openPath cage path flags _ =>
    TableFull w cage → ¬ OpenChanges w.fs (w.fs.normalizePathForCage cage path) flags
  | .openat cage dirfd path flags _ =>
    ∀ q, w.normalizePathAt cage dirfd path = .ok (.ok q) →
      TableFull w cage → ¬ OpenChanges w.fs q flags
  | .dup cage oldfd =>
    ∀ e, translateVirtualFd w.fds cage oldfd = some e → w.fs.fdInfo (cage, oldfd) ≠ none →
      TableFull w cage → (w.fs.node e.underfd).nodeType ≠ .pip
  | .lseek cage fd offset whence =>
    ∀ idx flags h t, w.getNodeAndFlags cage fd = .ok (.ok (idx, flags)) →
      (w.fs.node idx).nodeType = .reg → w.fs.fdInfo (cage, fd) = some h →
      seekTarget (w.fs.arc h).offset (w.fs.node idx).totalSize offset whence = some t →
      0 ≤ t → asI32 t < 0 → (w.fs.arc h).offset = t
  | _ => True

variable {s : ImfsState} {w : World T}

theorem countPipeEnd_of_ne (h : (s.node i).nodeType ≠ .pip) (flags : BitVec 32) :
    s.countPipeEnd i flags = s := by
  refine modifyNode_eq_self ?_
  cases hinfo : (s.node i).info with
  | pip => exact absurd (by rw [Node.nodeType, hinfo]; rfl) h
  | _ => simp only

theorem countPipeEnd_ne (h : (s.node i).nodeType = .pip) (flags : BitVec 32) :
    s.countPipeEnd i flags ≠ s := by
  intro heq
  cases hinfo : (s.node i).info with
  | pip =>
    have hi : i < s.nodes.length := lt_of_info_ne_free (by simp [hinfo])
    have hnode : ((s.countPipeEnd i flags).node i).info = (s.node i).info := by rw [heq]
    rw [countPipeEnd, s.node_modifyNode _ i hi, if_pos rfl, hinfo] at hnode
    simp only at hnode
    split at hnode <;> simp only [NodeInfo.pip.injEq] at hnode <;> omega
  | _ =>
    rw [Node.nodeType, hinfo] at h
    cases h

theorem lseek_returns (w : World T) (cage fd : Nat) (offset whence : Int) :
    Returns (w.lseek cage fd offset whence) fun r => r.2 = w ∨
      ∃ idx flags h t, w.getNodeAndFlags cage fd = .ok (.ok (idx, flags)) ∧
        (w.fs.node idx).nodeType = .reg ∧ w.fs.fdInfo (cage, fd) = some h ∧
        seekTarget (w.fs.arc h).offset (w.fs.node idx).totalSize offset whence = some t ∧
        0 ≤ t ∧ r.1 = asI32 t ∧
        r.2 = { w with fs := { w.fs with
          arcs := w.fs.arcs.modify h fun r => { r with offset := t } } } := by
  refine returns_bind fun r hget => ?_
  rcases r with _ | p
  · exact returns_ok (.inl rfl)
  rcases p with ⟨idx, flags⟩
  simp only
  cases hty : (w.fs.node idx).nodeType with
  | reg =>
    refine returns_bind fun current hcur => ?_
    rcases ht : seekTarget current (w.fs.node idx).totalSize offset whence with _ | t
    · exact returns_ok (.inl rfl)
    refine returns_ite (fun _ => returns_ok (.inl rfl)) fun hneg => ?_
    refine returns_bind fun s' hset => returns_ok (.inr ?_)
    rcases setOffset_ok hset with ⟨h, hh, hs'⟩
    rw [getOffset_eq (k := (cage, fd)) hh] at hcur
    cases hcur
    exact ⟨idx, flags, h, t, hget, hty, hh, ht, Int.not_lt.mp hneg, rfl, by rw [hs']⟩
  | _ => exact returns_ok (.inl rfl)

theorem lseek_eq {fd : Nat} {offset whence : Int} {flags : BitVec 32}
    (hget : w.getNodeAndFlags cage fd = .ok (.ok (idx, flags)))
    (hty : (w.fs.node idx).nodeType = .reg) (hh : w.fs.fdInfo (cage, fd) = some h)
    (ht : seekTarget (w.fs.arc h).offset (w.fs.node idx).totalSize offset whence = some t)
    (hpos : 0 ≤ t) :
    w.lseek cage fd offset whence = .ok (asI32 t, { w with fs := { w.fs with
      arcs := w.fs.arcs.modify h fun r => { r with offset := t } } }) := by
  have hset : w.fs.setOffset cage fd t = .ok { w.fs with
      arcs := w.fs.arcs.modify h fun r => { r with offset := t } } := by
    simp only [setOffset, hh]
  refine (bind_eq_ok _ _ _).mpr ⟨_, hget, ?_⟩
  simp only [hty]
  refine (bind_eq_ok _ _ _).mpr ⟨_, getOffset_eq (k := (cage, fd)) hh, ?_⟩
  simp only [ht, if_neg (Int.not_lt.mpr hpos)]
  exact (bind_eq_ok _ _ _).mpr ⟨_, hset, rfl⟩

theorem modify_offset_eq_self (heq : (s.arc h).offset = t) :
    (s.arcs.modify h fun r => { r with offset := t }) = s.arcs := by
  refine List.ext_getElem? fun j => ?_
  by_cases hj : h = j
  · rw [← hj, List.getElem?_modify_eq]
    rw [arc, List.getD_eq_getElem?_getD] at heq
    rcases hn : s.arcs[h]? with _ | _
    · rfl
    rw [hn] at heq
    rw [← heq]
    rfl
  · rw [List.getElem?_modify_ne _ _ hj]

section Open

variable {s : ImfsState} {path : Str} {flags : BitVec 32}

theorem openTarget_empties (hfit : Fit s) (mode : BitVec 32)
    (hres : s.resolvePath path true = .ok (.ok idx)) (hemp : Empties s flags idx)
    (hsize : (s.node idx).totalSize ≠ 0) :
    ∃ s', s.openTarget path flags mode = .ok (.ok (idx, s')) ∧ s' ≠ s := by
  rcases hfit.files with ⟨chain, hfiles⟩
  cases hinfo : (s.node idx).info with
  | reg =>
    have hlt : idx < s.nodes.length := lt_of_info_ne_free (by simp [hinfo])
    rcases truncateNode_spec hfiles hinfo (Nat.pos_of_ne_zero hsize) with
      ⟨a, head', tail', L', hrun, _⟩
    refine ⟨s.setFile idx a head' tail' 0, ?_, fun heq => hsize ?_⟩
    · have hnotdir : (s.node idx).nodeType ≠ .dir := by
        rw [hemp.reg]
        exact nofun
      have hexist : s.openExisting idx flags = .ok (.ok (idx, s.setFile idx a head' tail' 0)) := by
        unfold openExisting
        rw [if_neg hemp.notExcl, if_neg (by simp only [hemp.notDirectory, Bool.false_eq_true,
          false_and, not_false_eq_true]), if_neg (fun hc => hnotdir hc.1),
          if_neg (by simp only [hemp.permitted, Bool.true_eq_false, not_false_eq_true]),
          if_pos ⟨hemp.reg, hemp.trunc, hemp.writable⟩, hrun]
        simp only [updateMtime_eq, updateCtime_eq]
        rfl
      unfold openTarget
      rw [hres]
      exact hexist
    · have hnode := congrArg (fun s => (node s idx).totalSize) heq
      simp only [node_setFile s a head' tail' 0 hlt idx, if_true] at hnode
      exact hnode.symm
  | _ =>
    have := hemp.reg
    rw [Node.nodeType, hinfo] at this
    cases this

theorem openTarget_creates (hfit : Fit s) (mode : BitVec 32) {e : Int} {parent : Nat} {name : Str}
    (hres : s.resolvePath path true = .ok (.error e)) (hcreat : has flags oCreat = true)
    (hparent : s.resolveParentAndName path = .ok (.ok (parent, name)))
    (hlen : name.len < maxNodeName) (hdir : (s.node parent).nodeType = .dir)
    (hne : parent ≠ s.nextSlot) :
    ∃ s', s.openTarget path flags mode = .ok (.ok (s.nextSlot, s')) ∧ s' ≠ s := by
  cases hinfo : (s.node parent).info with
  | dir ch =>
    have hnode := s.node_createNode name .reg mode hfit.free
    have hinfo' : ((s.createNode name .reg mode).2.node parent).info = .dir ch := by
      rw [hnode, if_neg hne, hinfo]
    have hadd : ∃ s', (s.createNode name .reg mode).2.addChild parent s.nextSlot = .ok s' := by
      unfold addChild
      rw [children?_eq_some.mpr hinfo']
      exact ⟨_, rfl⟩
    rcases hadd with ⟨s', hadd⟩
    refine ⟨s', ?_, fun heq => ?_⟩
    · refine (bind_eq_ok _ _ _).mpr ⟨_, hres, ?_⟩
      simp only [openCreate]
      rw [if_neg (by simp only [hcreat, Bool.true_eq_false, not_false_eq_true])]
      refine (bind_eq_ok _ _ _).mpr ⟨_, hparent, ?_⟩
      simp only
      rw [if_neg (Nat.not_le.mpr hlen)]
      simp only [createNode_fst, updateMtime_eq, updateCtime_eq]
      exact (bind_eq_ok _ _ _).mpr ⟨s', hadd, rfl⟩
    · -- The directory has one entry more than before.
      rcases addChild_ok hadd with ⟨ch', hch', hs'⟩
      rw [hinfo'] at hch'
      cases hch'
      have hlt : parent < (s.createNode name .reg mode).2.nodes.length :=
        lt_of_info_ne_free (by simp [hinfo'])
      have hslot := s.nextSlot_lt_createNode name .reg mode hfit.free
      have hafter : (s'.node parent).info = (s.node parent).info := by rw [heq]
      rw [hs', node_modifyNode _ _ _ (by rw [length_modifyNode]; exact hslot), if_neg hne,
        node_modifyNode _ _ _ hlt, if_pos rfl, hinfo] at hafter
      have hlen := congrArg List.length (NodeInfo.dir.inj hafter)
      simp only [List.length_append, List.length_singleton] at hlen
      omega
  | _ =>
    rw [Node.nodeType, hinfo] at hdir
    cases hdir

/-- An `open` that would change the filesystem does so before it needs a
    descriptor. -/
theorem openResolvedPath_full {w : World T} (mode : BitVec 32) (hfit : Fit w.fs)
    (hfull : TableFull w cage) (hchanges : OpenChanges w.fs path flags) :
    ∃ w', w.openResolvedPath cage path flags mode = .ok (-24, w') ∧ w' ≠ w := by
  have htarget : ∃ idx s', w.fs.openTarget path flags mode = .ok (.ok (idx, s')) ∧ s' ≠ w.fs := by
    rcases hchanges with ⟨idx, hres, hemp, hsize⟩ |
      ⟨e, parent, name, hres, hcreat, hparent, hlen, hdir, hne⟩
    · exact ⟨idx, openTarget_empties hfit mode hres hemp hsize⟩
    · exact ⟨_, openTarget_creates hfit mode hres hcreat hparent hlen hdir hne⟩
  rcases htarget with ⟨idx, s', htarget, hne⟩
  refine ⟨{ w with fs := s' }, ?_, fun heq => hne (congrArg fs heq)⟩
  refine (bind_eq_ok _ _ _).mpr ⟨_, htarget, ?_⟩
  simp only [hfull (imfsEntry idx false), decInUse_incInUse]
  rfl

theorem eq_of_openTarget {mode : BitVec 32} {s' : ImfsState}
    (hfit : Fit s) (h : OpenTarget s path flags mode idx s') (hno : ¬ OpenChanges s path flags) :
    s' = s := by
  cases h with
  | found => rfl
  | truncated idx _ hres hempties htrunc =>
    have hsize : (s.node idx).totalSize = 0 := by
      by_contra hne
      exact hno (.inl ⟨idx, hres, hempties, hne⟩)
    rw [truncateNode] at htrunc
    simp only [hsize, if_true] at htrunc
    cases htrunc
    rfl
  | created e parent name s' hres hparent hcreat hlen hadd =>
    refine absurd (.inr ⟨e, parent, name, hres, hcreat, hparent, hlen, ?_⟩) hno
    rcases addChild_ok hadd with ⟨ch, hinfo, _⟩
    rw [s.node_createNode name .reg mode hfit.free] at hinfo
    split at hinfo
    · cases hinfo
    next hne => exact ⟨by rw [Node.nodeType, hinfo]; rfl, hne⟩

end Open

theorem tableFull_of_none [LawfulFdTables T] {e : FDTableEntry}
    (h : getUnusedVirtualFd w.fds cage e = none) : TableFull w cage := by
  intro e'
  rcases hfd : getUnusedVirtualFd w.fds cage e' with _ | p
  · rfl
  rcases p with ⟨fd, t⟩
  rcases LawfulFdTables.getUnused_some w.fds t cage e' fd hfd with ⟨hex, hlt, hnone, _⟩
  exact absurd hnone (LawfulFdTables.getUnused_none w.fds cage e hex h fd hlt)

theorem eq_of_atomicWhen [LawfulFdTables T] {w' : World T} {call : Call} {ret : Int}
    (hin : InRange w) (hcall : call.changes = true) (hwhen : AtomicWhen w call)
    (hstep : step w call = .ok (ret, w')) (hret : ret < 0) : w' = w := by
  cases step_effect hstep with
  | idle => rfl
  | cwd | touch | cloexec | creation | removal | moved | preexec | initUtilityCage =>
    exact absurd hret (by decide)
  | seek _ cage fd _ _ hseek hwrite =>
    cases call with
    | lseek cage fd offset whence =>
      rcases lseek_returns w cage fd offset whence _ hstep with
        heq | ⟨idx, flags, h, t, hget, hty, hh, ht, hpos, hr, heq⟩
      · exact heq
      · have hoff := hwhen idx flags h t hget hty hh ht hpos (hr ▸ hret)
        rw [modify_offset_eq_self hoff] at heq
        exact heq
    | write _ _ buf =>
      cases hseek
      exact absurd rfl (hwrite buf)
    | read | getdents => cases hcall
    | _ => cases hseek
  | store | storeSeek | openOk | dupOk | dup2Ok => omega
  | openFull _ flags _ path _ _ hopen hname htarget hfull =>
    have hno : ¬ OpenChanges w.fs path flags := by
      have hfull := tableFull_of_none hfull
      cases call with
      | openPath =>
        cases hopen
        rw [hname]
        exact hwhen hfull
      | openat =>
        cases hopen
        exact hwhen path hname hfull
      | _ => cases hopen
    rw [eq_of_openTarget hin.fit htarget hno]
  | close _ _ _ _ hclose =>
    rw [hclose] at hcall
    cases hcall
  | dupFull _ _ entry _ hdup hsource _ hfull =>
    rw [hdup] at hwhen
    rcases dupSource_eq_some hsource with ⟨htr, hinfo⟩
    have hpip := hwhen entry htr (by simp [hinfo]) (tableFull_of_none hfull)
    rw [countPipeEnd_of_ne hpip]
  | fork _ _ _ hfork =>
    rw [hfork] at hcall
    cases hcall
  | exec _ _ _ hexec =>
    rw [hexec] at hcall
    cases hcall

/-- In every reachable state, a call fails without a trace exactly when the
    state before it meets the condition. -/
theorem atomic_iff [LawfulFdTables T] {w : World T} (hw : Reachable Unrestricted w)
    {call : Call} (hcall : call.changes = true) :
    (∀ ret w', step w call = .ok (ret, w') → ret < 0 → w' = w) ↔ AtomicWhen w call := by
  have hin := inRange_of_reachable hw
  refine ⟨fun hatomic => ?_, fun hwhen ret w' hstep hret =>
    eq_of_atomicWhen hin hcall hwhen hstep hret⟩
  cases call with
  | openPath cage path flags mode =>
    intro hfull hchanges
    rcases openResolvedPath_full mode hin.fit hfull hchanges with ⟨w', hstep, hne⟩
    exact hne (hatomic _ w' hstep (by decide))
  | openat cage dirfd path flags mode =>
    intro q hq hfull hchanges
    rcases openResolvedPath_full mode hin.fit hfull hchanges with ⟨w', hstep, hne⟩
    refine hne (hatomic (-24) w' ?_ (by decide))
    change w.openat cage dirfd path flags mode = _
    unfold openat
    rw [hq]
    exact hstep
  | dup cage oldfd =>
    intro e htr hinfo hfull hpip
    rcases Option.ne_none_iff_exists'.mp hinfo with ⟨h, hh⟩
    refine countPipeEnd_ne hpip (w.fs.arc h).flags (congrArg fs
      (hatomic (-24) { w with fs := w.fs.countPipeEnd e.underfd (w.fs.arc h).flags } ?_
        (by decide)))
    change w.dup cage oldfd = _
    have hsource : w.dupSource cage oldfd = some (e, h) := by
      simp only [dupSource, htr, hh]
    simp only [dup, hsource, if_neg (Nat.not_le.mpr (hin.fds cage oldfd e htr)),
      hfull (imfsEntry e.underfd false)]
    rfl
  | lseek =>
    intro idx flags h t hget hty hh ht hpos hneg
    have hsame := hatomic (asI32 t) _ (lseek_eq hget hty hh ht hpos) hneg
    have harcs := congrArg (fun w : World T => w.fs.arcs) hsame
    have harc := arc_modify (hin.arcs _ h hh) harcs.symm h
    rw [if_pos rfl] at harc
    exact congrArg FDInfo.offset harc
  | _ => exact trivial

end Atomic

/-- A cage uses up the descriptors of its table. -/
def fullRun : List Call :=
  [.preexec 1, .dup 1 0, .dup 1 0, .dup 1 0, .dup 1 0, .dup 1 0]

theorem reachable_fullRun : Reachable Unrestricted (fullRun.foldl serve (boot 8)) :=
  reachable_foldl_serve fullRun (.start _ (initial_boot 8)) (by decide +kernel)

theorem atomic_iff_fullRun :
    let w := fullRun.foldl serve (boot 8)
    Call.changes (.dup 1 0) = true ∧
      ∀ ret w', step w (.dup 1 0) = .ok (ret, w') → ret < 0 → w' = w := by
  refine ⟨rfl, (atomic_iff reachable_fullRun rfl).mpr fun e htr _ _ => ?_⟩
  cases htr
  decide +kernel

/-- The cage then creates a file: the call fails, and the file is there. -/
theorem open_not_atomic :
    ∃ (w w' : World (MapTables 8)) (ret : Int), Reachable Unrestricted w ∧
      step w (.openPath 1 ['/', 'a'] (oCreat ||| oRdwr) 0o644#32) = .ok (ret, w') ∧ ret < 0 ∧
      w.fs.lookupChild 0 ['a'] = none ∧ w'.fs.lookupChild 0 ['a'] = some 3 := by
  have hrun : (step (fullRun.foldl serve (boot 8))
      (.openPath 1 ['/', 'a'] (oCreat ||| oRdwr) 0o644#32)).toOption.map
        (fun r => (r.1, r.2.fs.lookupChild 0 ['a'])) = some (-24, some 3) := by
    decide +kernel
  cases hstep : step (fullRun.foldl serve (boot 8))
      (.openPath 1 ['/', 'a'] (oCreat ||| oRdwr) 0o644#32) with
  | error e =>
    rw [hstep] at hrun
    cases hrun
  | ok r =>
    rw [hstep] at hrun
    have hpair : (r.1, r.2.fs.lookupChild 0 ['a']) = (-24, some 3) := Option.some.inj hrun
    rw [Prod.mk.injEq] at hpair
    refine ⟨_, r.2, r.1, reachable_fullRun, hstep, ?_, by decide +kernel, hpair.2⟩
    rw [hpair.1]
    decide

end LindGrates.Imfs
