import LindGrates.Theory.Imfs.Change

/-!
# The Tree Invariant

An entry leads to a live node that carries the entry's name and knows its
directory, so a node is in at most one directory. A hard link that is in a
directory leads to a live node that is not a hard link itself. A node marked for
deletion has lost all its links.

## Main definitions

* `TreeOk`: The invariant.
* `Enterable`: What a new entry must satisfy: a hard link does not lead to one.

## Theorems

* `treeOk_same`, `treeOk_entered`, `treeOk_trimmed`, `treeOk_reentered`, `treeOk_pruned`:
  Each kind of change keeps the invariant.
-/

namespace LindGrates.Imfs

open FdTables ImfsState List

variable {s s' : ImfsState} {j i : Nat}

/-- What a hard link of the given name may lead to: directories are linked by
    their dots only. -/
structure LinkTarget (s : ImfsState) (name : Str) (t : Nat) : Prop where
  live : (s.node t).info ≠ .free
  notLink : ∀ u, (s.node t).info ≠ .hardLink u
  dir_iff : (s.node t).nodeType = .dir ↔ World.isDots name = true

structure TreeOk (s : ImfsState) : Prop where
  free_nodup : s.nodeFreeList.Nodup
  free_info : ∀ i ∈ s.nodeFreeList, (s.node i).info = .free
  root_zero : s.rootIdx = 0
  root_dir : (s.node s.rootIdx).nodeType = .dir
  not_root : ∀ d e, Entry s d e → e.nodeIdx ≠ s.rootIdx
  live : ∀ d e, Entry s d e → (s.node e.nodeIdx).info ≠ .free
  named : ∀ d e, Entry s d e →
    (s.node e.nodeIdx).name = e.name ∧ (s.node e.nodeIdx).parentIdx = d
  clean : ∀ d e, Entry s d e → CleanName e.name ∨ World.isDots e.name = true
  links : ∀ d e t, Entry s d e → (s.node e.nodeIdx).info = .hardLink t → LinkTarget s e.name t
  dots : ∀ d e, Entry s d e → World.isDots e.name = true →
    ∃ t, (s.node e.nodeIdx).info = .hardLink t
  parents : ∀ d, (s.node d).nodeType = .dir → (s.node (s.node d).parentIdx).nodeType = .dir
  doomed : ∀ i, (s.node i).doomed = true → (s.node i).info ≠ .free →
    (s.node i).nodeType ≠ .dir ∧ Loose s i ∧ Unheld s i

def NotDir (info : NodeInfo) : Prop :=
  ∀ ch, info ≠ .dir ch

/-- The node keeps its kind: it is free, a directory or a link as before. -/
structure SameKind (s s' : ImfsState) (j : Nat) : Prop where
  isFree : (s'.node j).info = .free ↔ (s.node j).info = .free
  isLink : ∀ t, (s'.node j).info = .hardLink t ↔ (s.node j).info = .hardLink t
  isDir : (s'.node j).nodeType = .dir ↔ (s.node j).nodeType = .dir

theorem sameKind_of_eq (h : (s'.node j).info = (s.node j).info) :
    SameKind s s' j := by
  refine ⟨?_, fun t => ?_, ?_⟩
  · rw [h]
  · rw [h]
  · rw [Node.nodeType, h]
    exact Iff.rfl

theorem linkTarget_congr {name : Str} {t : Nat} (h : LinkTarget s name t)
    (hk : SameKind s s' t) : LinkTarget s' name t :=
  ⟨fun hc => h.live (hk.isFree.mp hc), fun u hc => h.notLink u ((hk.isLink u).mp hc),
    hk.isDir.trans h.dir_iff⟩

theorem ne_of_dir_of_free (hi : (s.node i).nodeType = .dir)
    (hj : (s.node j).info = .free) : i ≠ j := by
  intro hc
  rw [hc, Node.nodeType, hj] at hi
  cases hi

section Entries

variable {s s' : ImfsState} {d : Nat} {e : DirEntry}

/-- What the invariant says of one entry. -/
structure EntryOk (s : ImfsState) (d : Nat) (e : DirEntry) : Prop where
  not_root : e.nodeIdx ≠ s.rootIdx
  live : (s.node e.nodeIdx).info ≠ .free
  named : (s.node e.nodeIdx).name = e.name ∧ (s.node e.nodeIdx).parentIdx = d
  clean : CleanName e.name ∨ World.isDots e.name = true
  links : ∀ t, (s.node e.nodeIdx).info = .hardLink t → LinkTarget s e.name t
  dots : World.isDots e.name = true → ∃ t, (s.node e.nodeIdx).info = .hardLink t

theorem TreeOk.entryOk (h : TreeOk s) (he : Entry s d e) : EntryOk s d e :=
  ⟨h.not_root d e he, h.live d e he, h.named d e he, h.clean d e he, fun t => h.links d e t he,
    h.dots d e he⟩

theorem entryOk_congr (h : EntryOk s d e) (hroot : s'.rootIdx = s.rootIdx)
    (hname : (s'.node e.nodeIdx).name = (s.node e.nodeIdx).name)
    (hparent : (s'.node e.nodeIdx).parentIdx = (s.node e.nodeIdx).parentIdx)
    (hk : SameKind s s' e.nodeIdx)
    (hlink : ∀ t, (s.node e.nodeIdx).info = .hardLink t → SameKind s s' t) : EntryOk s' d e := by
  refine ⟨hroot ▸ h.not_root, fun hc => h.live (hk.isFree.mp hc), ?_, h.clean, fun t ht => ?_,
    fun hdots => ?_⟩
  · rw [hname, hparent]
    exact h.named
  · have ht := (hk.isLink t).mp ht
    exact linkTarget_congr (h.links t ht) (hlink t ht)
  · rcases h.dots hdots with ⟨t, ht⟩
    exact ⟨t, (hk.isLink t).mpr ht⟩

def Gone (s : ImfsState) (i : Nat) : Prop :=
  (s.node i).nodeType ≠ .dir ∧ Loose s i ∧ Unheld s i

theorem treeOk_of_entries (hnodup : s.nodeFreeList.Nodup)
    (hinfo : ∀ i ∈ s.nodeFreeList, (s.node i).info = .free) (hzero : s.rootIdx = 0)
    (hroot : (s.node s.rootIdx).nodeType = .dir) (hentry : ∀ d e, Entry s d e → EntryOk s d e)
    (hparents : ∀ d, (s.node d).nodeType = .dir → (s.node (s.node d).parentIdx).nodeType = .dir)
    (hdoomed : ∀ i, (s.node i).doomed = true → (s.node i).info ≠ .free → Gone s i) : TreeOk s :=
  ⟨hnodup, hinfo, hzero, hroot, fun d e he => (hentry d e he).not_root,
    fun d e he => (hentry d e he).live, fun d e he => (hentry d e he).named,
    fun d e he => (hentry d e he).clean, fun d e t he => (hentry d e he).links t,
    fun d e he => (hentry d e he).dots, hparents, hdoomed⟩

theorem gone_congr (h : Gone s i) (hk : SameKind s s' i)
    (hentry : ∀ d e, Entry s' d e → Entry s d e ∧ SameKind s s' e.nodeIdx) : Gone s' i :=
  ⟨fun hc => h.1 (hk.isDir.mp hc), fun d e he => h.2.1 d e (hentry d e he).1,
    fun d e he hc => h.2.2 d e (hentry d e he).1 (((hentry d e he).2.isLink i).mp hc)⟩

/-- The invariant after a change that neither takes a slot nor frees one, but for
    the entries and the nodes marked for deletion. -/
theorem treeOk_of_sameKind (h : TreeOk s) (hroot : s'.rootIdx = s.rootIdx)
    (hfree : s'.nodeFreeList = s.nodeFreeList) (hk : ∀ j, SameKind s s' j)
    (hparent : ∀ j, (s.node j).nodeType = .dir → (s.node (s'.node j).parentIdx).nodeType = .dir)
    (hentry : ∀ d e, Entry s' d e → EntryOk s' d e)
    (hgone : ∀ j, (s'.node j).doomed = true → (s.node j).info ≠ .free → Gone s' j) : TreeOk s' := by
  refine treeOk_of_entries (hfree ▸ h.free_nodup) (fun i hi => ?_) (hroot.trans h.root_zero) ?_
    hentry (fun d hd => (hk _).isDir.mpr (hparent d ((hk d).isDir.mp hd)))
    fun i hdoom hlive => hgone i hdoom fun hc => hlive ((hk i).isFree.mpr hc)
  · rw [hfree] at hi
    exact (hk i).isFree.mpr (h.free_info i hi)
  · rw [hroot]
    exact (hk _).isDir.mpr h.root_dir

theorem treeOk_of_fewer (h : TreeOk s) (hroot : s'.rootIdx = s.rootIdx)
    (hfree : s'.nodeFreeList = s.nodeFreeList) (hk : ∀ j, SameKind s s' j)
    (hname : ∀ j, (s'.node j).name = (s.node j).name)
    (hparent : ∀ j, (s'.node j).parentIdx = (s.node j).parentIdx)
    (hentry : ∀ d e, Entry s' d e → Entry s d e)
    (hgone : ∀ j, (s'.node j).doomed = true → (s.node j).info ≠ .free → Gone s j) : TreeOk s' := by
  refine treeOk_of_sameKind h hroot hfree hk (fun j hj => ?_) (fun d e he => ?_)
    fun j hdoom hlive => ?_
  · rw [hparent]
    exact h.parents j hj
  · exact entryOk_congr (h.entryOk (hentry d e he)) hroot (hname _) (hparent _) (hk _)
      fun t _ => hk t
  · exact gone_congr (hgone j hdoom hlive) (hk j) fun d e he => ⟨hentry d e he, hk _⟩

theorem SameTree.sameKind (h : SameTree s s') (j : Nat) : SameKind s s' j :=
  ⟨h.isFree_iff j, h.hardLink_iff j, h.isDir_iff j⟩

theorem treeOk_same (h : TreeOk s) (hs : SameTree s s') : TreeOk s' :=
  treeOk_of_fewer h hs.root_eq hs.free_eq hs.sameKind hs.name_eq hs.parent_eq
    (fun d e => (hs.entry_iff d e).mp) fun j hdoom => h.doomed j (hs.doomed_eq j ▸ hdoom)

end Entries

theorem sameKind_of_children {p : Nat} {ch ch' : List DirEntry} (hdir : (s.node p).info = .dir ch)
    (h : (s'.node j).info = if j = p then .dir ch' else (s.node j).info) : SameKind s s' j := by
  have hinfo : ∀ info, NotDir info → ((s'.node j).info = info ↔ (s.node j).info = info) := by
    intro info hinfo
    rw [h]
    split
    next hj =>
      rw [hj, hdir]
      exact ⟨fun hc => absurd hc.symm (hinfo _), fun hc => absurd hc.symm (hinfo _)⟩
    · exact Iff.rfl
  refine ⟨hinfo _ nofun, fun t => hinfo _ nofun, ?_⟩
  rw [Node.nodeType, Node.nodeType, h]
  split
  next hj =>
    rw [hj, hdir]
    rfl
  · exact Iff.rfl

section Enter

variable {s s' : ImfsState} {parent : Nat} {name : Str} {info : NodeInfo}

theorem nextSlot_free (h : TreeOk s) : (s.node s.nextSlot).info = .free := by
  unfold nextSlot
  cases hf : s.nodeFreeList with
  | nil =>
    rw [headD_nil, s.node_of_length_le (Nat.le_refl _)]
    rfl
  | cons i => exact h.free_info i (by rw [hf]; exact mem_cons_self ..)

/-- What a new entry must satisfy. -/
structure Enterable (s : ImfsState) (name : Str) (info : NodeInfo) : Prop where
  name_ok : CleanName name ∨ World.isDots name = true
  live : info ≠ .free
  link : ∀ t, info = .hardLink t → LinkTarget s name t ∧ (s.node t).doomed = false
  dots : World.isDots name = true → ∃ t, info = .hardLink t

theorem Entered.sameKind (h : Entered s s' parent name info) (hj : j ≠ s.nextSlot) :
    SameKind s s' j := by
  rcases h.grown with ⟨ch, hdir, hinfo⟩
  exact sameKind_of_children hdir ((hinfo j).trans (if_neg hj))

theorem Entered.new_info (h : Entered s s' parent name info) :
    (s'.node s.nextSlot).info = info := by
  rcases h.grown with ⟨ch, _, hinfo⟩
  rw [hinfo, if_pos rfl]

theorem Entered.parent_dir (h : Entered s s' parent name info) :
    (s.node parent).nodeType = .dir := by
  rcases h.grown with ⟨ch, hdir, _⟩
  exact nodeType_eq_dir.mpr ⟨ch, hdir⟩

theorem entryOk_entered (h : TreeOk s) (hin : Enterable s name info)
    (hempty : ∀ ch, info = .dir ch → ch = []) (he : Entered s s' parent name info) {d : Nat}
    {e : DirEntry} (hd : Entry s' d e) : EntryOk s' d e := by
  have hfree := nextSlot_free h
  have hne : ∀ j, (s.node j).info ≠ .free → j ≠ s.nextSlot := fun j hj hc => hj (hc ▸ hfree)
  rcases (he.entry_iff hfree hempty d e).mp hd with hd | ⟨hdp, hd⟩
  · have hl := hne _ (h.live d e hd)
    refine entryOk_congr (h.entryOk hd) he.root_eq ?_ ?_ (he.sameKind hl)
      fun t ht => he.sameKind (hne t (h.links d e t hd ht).live)
    · rw [he.name_eq, if_neg hl]
    · rw [he.parent_eq, if_neg hl]
  rw [hd, hdp]
  refine ⟨?_, ?_, ?_, hin.name_ok, fun t ht => ?_, fun hdots => ?_⟩
  · rw [he.root_eq]
    exact (ne_of_dir_of_free h.root_dir hfree).symm
  · rw [he.new_info]
    exact hin.live
  · rw [he.name_eq, he.parent_eq, if_pos rfl, if_pos rfl]
    exact ⟨rfl, rfl⟩
  · rw [he.new_info] at ht
    have ht := (hin.link t ht).1
    exact linkTarget_congr ht (he.sameKind (hne t ht.live))
  · rcases hin.dots hdots with ⟨t, ht⟩
    exact ⟨t, he.new_info.trans ht⟩

theorem treeOk_entered (h : TreeOk s) (hin : Enterable s name info)
    (hempty : ∀ ch, info = .dir ch → ch = []) (he : Entered s s' parent name info) : TreeOk s' := by
  have hfree := nextSlot_free h
  have hentry := he.entry_iff hfree hempty
  have hne : ∀ j, (s.node j).info ≠ .free → j ≠ s.nextSlot := fun j hj hc => hj (hc ▸ hfree)
  have hnedir : ∀ j, (s.node j).nodeType = .dir → j ≠ s.nextSlot :=
    fun j hj => ne_of_dir_of_free hj hfree
  refine treeOk_of_entries ?_ (fun i hi => ?_) (he.root_eq.trans h.root_zero) ?_
    (fun _ _ => entryOk_entered h hin hempty he) (fun d hd => ?_) fun i hdoom hlive => ?_
  · rw [he.free_eq]
    exact h.free_nodup.sublist (tail_sublist _)
  · rw [he.free_eq] at hi
    refine (he.sameKind ?_).isFree.mpr (h.free_info i (mem_of_mem_tail hi))
    -- The slot taken was listed once, so it is not listed any more.
    have hnodup := h.free_nodup
    unfold nextSlot
    rcases hf : s.nodeFreeList with _ | _
    · rw [hf] at hi
      cases hi
    rw [hf] at hi hnodup
    intro hc
    rw [headD_cons] at hc
    exact (nodup_cons.mp hnodup).1 (hc ▸ hi)
  · rw [he.root_eq]
    exact (he.sameKind (hnedir _ h.root_dir)).isDir.mpr h.root_dir
  · rw [he.parent_eq]
    by_cases hdn : d = s.nextSlot
    · rw [if_pos hdn]
      exact (he.sameKind (hnedir _ he.parent_dir)).isDir.mpr he.parent_dir
    rw [if_neg hdn]
    have hp := h.parents d ((he.sameKind hdn).isDir.mp hd)
    exact (he.sameKind (hnedir _ hp)).isDir.mpr hp
  · rw [he.doomed_eq] at hdoom
    by_cases hin' : i = s.nextSlot
    · rw [if_pos hin'] at hdoom
      cases hdoom
    rw [if_neg hin'] at hdoom
    rcases h.doomed i hdoom fun hc => hlive ((he.sameKind hin').isFree.mpr hc)
      with ⟨hdir, hloose, hunheld⟩
    refine ⟨fun hc => hdir ((he.sameKind hin').isDir.mp hc), fun d e hd hc => ?_,
      fun d e hd hc => ?_⟩
    · rcases (hentry d e).mp hd with hd | ⟨_, hd⟩
      · exact hloose d e hd hc
      · rw [hd] at hc
        exact hin' hc.symm
    · rcases (hentry d e).mp hd with hd | ⟨_, hd⟩
      · exact hunheld d e hd
          (((he.sameKind (hne _ (h.live d e hd))).isLink i).mp hc)
      rw [hd, he.new_info] at hc
      have := (hin.link i hc).2
      rw [hdoom] at this
      cases this

end Enter

section Trim

variable {s s' : ImfsState} {p : Nat} {x : Str}

theorem Trimmed.sameKind (h : Trimmed s s' p x) (j : Nat) : SameKind s s' j := by
  rcases h.shrunk with ⟨ch, hdir, heq⟩
  exact sameKind_of_children hdir (heq j)

theorem treeOk_trimmed (h : TreeOk s) (ht : Trimmed s s' p x) : TreeOk s' :=
  treeOk_of_fewer h ht.root_eq ht.free_eq ht.sameKind ht.name_eq ht.parent_eq
    (fun d e he => ((ht.entry_iff d e).mp he).1)
    fun j hdoom => h.doomed j (ht.doomed_eq j ▸ hdoom)

end Trim

section Reenter

variable {s s' : ImfsState} {parent i : Nat} {name : Str}

theorem Reentered.sameKind (h : Reentered s s' parent i name) (j : Nat) : SameKind s s' j := by
  rcases h.grown with ⟨ch, hdir, heq⟩
  exact sameKind_of_children hdir (heq j)

theorem Reentered.parent_dir (h : Reentered s s' parent i name) :
    (s.node parent).nodeType = .dir := by
  rcases h.grown with ⟨ch, hdir, _⟩
  exact nodeType_eq_dir.mpr ⟨ch, hdir⟩

theorem treeOk_reentered (h : TreeOk s) (hin : Enterable s name (s.node i).info)
    (hloose : Loose s i) (hroot : i ≠ s.rootIdx) (hdoomed : (s.node i).doomed = false)
    (hr : Reentered s s' parent i name) : TreeOk s' := by
  have hk := hr.sameKind
  refine treeOk_of_sameKind h hr.root_eq hr.free_eq hk (fun j hj => ?_) (fun d e hd => ?_)
    fun j hdoom hlive => ?_
  · rw [hr.parent_eq]
    split
    · exact hr.parent_dir
    · exact h.parents j hj
  · rcases (hr.entry_iff d e).mp hd with hd | ⟨hdp, hd⟩
    · refine entryOk_congr (h.entryOk hd) hr.root_eq ?_ ?_ (hk _) fun t _ => hk t
      · rw [hr.name_eq, if_neg (hloose d e hd)]
      · rw [hr.parent_eq, if_neg (hloose d e hd)]
    rw [hd, hdp]
    refine ⟨hr.root_eq ▸ hroot, fun hc => hin.live ((hk i).isFree.mp hc), ?_, hin.name_ok,
      fun t ht => linkTarget_congr (hin.link t (((hk i).isLink t).mp ht)).1 (hk t),
      fun hdots => ?_⟩
    · rw [hr.name_eq, hr.parent_eq, if_pos rfl, if_pos rfl]
      exact ⟨rfl, rfl⟩
    · rcases hin.dots hdots with ⟨t, ht⟩
      exact ⟨t, ((hk i).isLink t).mpr ht⟩
  · rw [hr.doomed_eq] at hdoom
    rcases h.doomed j hdoom hlive with ⟨hdir, hjloose, hunheld⟩
    refine ⟨fun hc => hdir ((hk j).isDir.mp hc), fun d e hd hc => ?_, fun d e hd hc => ?_⟩
    · rcases (hr.entry_iff d e).mp hd with hd | ⟨_, hd⟩
      · exact hjloose d e hd hc
      rw [hd] at hc
      rw [← hc, hdoomed] at hdoom
      cases hdoom
    · have hc := ((hk _).isLink j).mp hc
      rcases (hr.entry_iff d e).mp hd with hd | ⟨_, hd⟩
      · exact hunheld d e hd hc
      rw [hd] at hc
      rw [(hin.link j hc).2] at hdoom
      cases hdoom

end Reenter

section Prune

variable {s s' : ImfsState} {i : Nat}

theorem treeOk_doom (h : TreeOk s) (hdir : (s.node i).nodeType ≠ .dir) (hloose : Loose s i)
    (hunheld : Unheld s i) : TreeOk (s.modifyNode i fun n => { n with doomed := true }) := by
  have hnode := node_doom s i
  have hinfo : ∀ j, ((s.modifyNode i fun n => { n with doomed := true }).node j).info =
      (s.node j).info := fun j => by
    rcases hnode j with ⟨b, hb, _⟩
    rw [hb]
  refine treeOk_of_fewer h rfl rfl (fun j => sameKind_of_eq (hinfo j)) (fun j => ?_) (fun j => ?_)
    (fun d e => (entry_congr (fun j ch => by rw [hinfo j]) d e).mp) fun j hdoom hlive => ?_
  · rcases hnode j with ⟨b, hb, _⟩
    rw [hb]
  · rcases hnode j with ⟨b, hb, _⟩
    rw [hb]
  · rcases hnode j with ⟨b, hb, hor⟩
    rw [hb] at hdoom
    rcases hor hdoom with hj | hj
    · exact h.doomed j hj hlive
    · rw [hj]
      exact ⟨hdir, hloose, hunheld⟩

theorem treeOk_freed (h : TreeOk s) (hdir : (s.node i).nodeType ≠ .dir)
    (hlive : (s.node i).info ≠ .free) (hloose : Loose s i) (hunheld : Unheld s i)
    (hf : Freed s s' i) : TreeOk s' := by
  have hpruned : ∀ j, j ≠ i → s'.node j = s.node j := fun j hj => by rw [hf.node_eq j, if_neg hj]
  have hk : ∀ j, j ≠ i → SameKind s s' j := fun j hj => sameKind_of_eq (by rw [hpruned j hj])
  have hne : ∀ j, (s.node j).nodeType = .dir → j ≠ i := fun j hj hc => hdir (hc ▸ hj)
  have hdirs : ∀ j, (s'.node j).nodeType = .dir → j ≠ i := by
    intro j hj hc
    rw [hc, hf.node_eq i, if_pos rfl] at hj
    cases hj
  have hentry : ∀ d e, Entry s' d e → Entry s d e := by
    rintro d e ⟨ch, hd, he⟩
    rw [hpruned d (hdirs d (nodeType_eq_dir.mpr ⟨ch, hd⟩))] at hd
    exact ⟨ch, hd, he⟩
  refine treeOk_of_entries ?_ (fun j hj => ?_) (hf.root_eq.trans h.root_zero) ?_
    (fun d e he => ?_) (fun d hd => ?_) fun j hdoom hj => ?_
  · rw [hf.free_eq]
    exact nodup_cons.mpr ⟨fun hc => hlive (h.free_info i hc), h.free_nodup⟩
  · rw [hf.free_eq] at hj
    rw [hf.node_eq j]
    split
    · rfl
    next hne => exact h.free_info j ((mem_cons.mp hj).resolve_left hne)
  · rw [hf.root_eq, hpruned _ (hne _ h.root_dir)]
    exact h.root_dir
  · have he := hentry d e he
    have hl := hloose d e he
    exact entryOk_congr (h.entryOk he) hf.root_eq (by rw [hpruned _ hl]) (by rw [hpruned _ hl])
      (hk _ hl) fun t ht => hk t fun hc => hunheld d e he (hc ▸ ht)
  · have hne' := hdirs d hd
    rw [hpruned d hne'] at hd ⊢
    have hp := h.parents d hd
    rw [hpruned _ (hne _ hp)]
    exact hp
  · have hji : j ≠ i := by
      intro hc
      rw [hc, hf.node_eq i, if_pos rfl] at hj
      exact hj rfl
    rw [hpruned j hji] at hj hdoom
    exact gone_congr (h.doomed j hdoom hj) (hk j hji) fun d e he =>
      ⟨hentry d e he, hk _ (hloose d e (hentry d e he))⟩

theorem treeOk_pruned (h : TreeOk s) (hp : Pruned s s') : TreeOk s' := by
  induction hp with
  | refl => exact h
  | doom _ i hdir hloose hunheld ih => exact treeOk_doom ih hdir hloose hunheld
  | free _ _ hdir hlive hloose hunheld _ hfreed ih =>
    exact treeOk_freed ih hdir hlive hloose hunheld hfreed

end Prune

theorem treeOk_initState : TreeOk initState := by
  have hentry : ∀ d e, Entry initState d e → d = 0 ∧ (e = ⟨['.'], 1⟩ ∨ e = ⟨['.', '.'], 2⟩) := by
    rintro d e ⟨ch, hd, he⟩
    rw [initState_info] at hd
    split at hd
    next hd0 =>
      cases hd
      simp only [mem_cons, not_mem_nil, or_false] at he
      exact ⟨hd0, he⟩
    · split at hd <;> cases hd
  have hdir : ∀ d, (initState.node d).nodeType = .dir → d = 0 := by
    intro d hd
    rcases nodeType_eq_dir.mp hd with ⟨ch, hd⟩
    rw [initState_info] at hd
    split at hd
    next hd0 => exact hd0
    · split at hd <;> cases hd
  refine treeOk_of_entries nodup_nil nofun rfl rfl (fun d e he => ?_) (fun d hd => ?_)
    fun i hdoom _ => ?_
  · have hlink : ∀ name, World.isDots name = true → LinkTarget initState name 0 := fun _ h =>
      ⟨by decide, fun _ => nofun, iff_of_true rfl h⟩
    rcases hentry d e he with ⟨hd, h | h⟩ <;> rw [h, hd] <;>
      exact ⟨by decide, by decide, by decide, .inr rfl,
        fun t ht => NodeInfo.hardLink.inj ht ▸ hlink _ rfl, fun _ => ⟨0, rfl⟩⟩
  · rw [hdir d hd]
    rfl
  · rcases i with _ | _ | _ | i
    · cases hdoom
    · cases hdoom
    · cases hdoom
    · cases hdoom

end LindGrates.Imfs
