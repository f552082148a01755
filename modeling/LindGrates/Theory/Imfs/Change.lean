import LindGrates.Theory.Imfs.Resolve

/-!
# Changes to the Tree

The few ways in which the calls change the tree, each as a relation between two
states that says what happened to every node.

## Main definitions

* `SameTree`: Nothing changed but data and counters.
* `Entered`, `Trimmed`, `Reentered`: A new node gets an entry, entries of a name are taken
  out, or a node is put back under another name.
* `Pruned`: Nodes that no directory leads to are marked or freed.

## Theorems

* `entered_of_addChild`, `trimmed_of_removeChild`, `reentered_of_addChild`,
  `freed_of_reclaimNode`: The operations make these changes.
* `Entered.entry_iff`, `Trimmed.entry_iff`, `Pruned.entry_iff`: The entries afterwards.
-/

namespace LindGrates.Imfs

open FdTables ImfsState List

variable {a b : NodeInfo} {f : Node → Node} {e : DirEntry} {j : Nat}

def IsData (info : NodeInfo) : Prop :=
  info.nodeType = .reg ∨ info.nodeType = .pip

def SameShape (a b : NodeInfo) : Prop :=
  b = a ∨ (IsData a ∧ IsData b)

theorem SameShape.trans {c : NodeInfo} (h1 : SameShape a b) (h2 : SameShape b c) :
    SameShape a c := by
  rcases h2 with h2 | ⟨hb, hc⟩
  · rw [h2]
    exact h1
  rcases h1 with h1 | ⟨ha, _⟩
  · rw [h1] at hb
    exact .inr ⟨hb, hc⟩
  · exact .inr ⟨ha, hc⟩

theorem SameShape.iff {info : NodeInfo} (h : SameShape a b) (hinfo : ¬ IsData info) :
    b = info ↔ a = info := by
  rcases h with h | ⟨ha, hb⟩
  · rw [h]
  · exact ⟨fun hc => absurd (hc ▸ hb) hinfo, fun hc => absurd (hc ▸ ha) hinfo⟩

/-- Nothing changed but data and counters. -/
structure SameTree (s s' : ImfsState) : Prop where
  root_eq : s'.rootIdx = s.rootIdx
  free_eq : s'.nodeFreeList = s.nodeFreeList
  length_eq : s'.nodes.length = s.nodes.length
  name_eq : ∀ i, (s'.node i).name = (s.node i).name
  parent_eq : ∀ i, (s'.node i).parentIdx = (s.node i).parentIdx
  doomed_eq : ∀ i, (s'.node i).doomed = (s.node i).doomed
  shape : ∀ i, SameShape (s.node i).info (s'.node i).info

theorem sameTree_refl (s : ImfsState) : SameTree s s :=
  ⟨rfl, rfl, rfl, fun _ => rfl, fun _ => rfl, fun _ => rfl, fun _ => .inl rfl⟩

theorem SameTree.trans {s1 s2 s3 : ImfsState} (h1 : SameTree s1 s2) (h2 : SameTree s2 s3) :
    SameTree s1 s3 :=
  ⟨h2.root_eq.trans h1.root_eq, h2.free_eq.trans h1.free_eq, h2.length_eq.trans h1.length_eq,
    fun i => (h2.name_eq i).trans (h1.name_eq i), fun i => (h2.parent_eq i).trans (h1.parent_eq i),
    fun i => (h2.doomed_eq i).trans (h1.doomed_eq i), fun i => (h1.shape i).trans (h2.shape i)⟩

variable {s s' : ImfsState} {i parent : Nat} {name : Str}

theorem sameTree_congr (hnodes : s'.nodes = s.nodes) (hfree : s'.nodeFreeList = s.nodeFreeList)
    (hroot : s'.rootIdx = s.rootIdx) : SameTree s s' := by
  have hnode : ∀ i, s'.node i = s.node i := fun i => by rw [node, node, hnodes]
  exact ⟨hroot, hfree, congrArg List.length hnodes, fun i => by rw [hnode], fun i => by rw [hnode],
    fun i => by rw [hnode], fun i => .inl (by rw [hnode])⟩

theorem sameTree_modifyNode (s : ImfsState) (i : Nat) (f : Node → Node)
    (hname : ∀ n, (f n).name = n.name) (hparent : ∀ n, (f n).parentIdx = n.parentIdx)
    (hdoomed : ∀ n, (f n).doomed = n.doomed) (hshape : ∀ n, SameShape n.info (f n).info) :
    SameTree s (s.modifyNode i f) := by
  by_cases hi : i < s.nodes.length
  · have hnode := fun j => s.node_modifyNode f j hi
    refine ⟨rfl, rfl, length_modifyNode s i f, fun j => ?_, fun j => ?_, fun j => ?_, fun j => ?_⟩
    all_goals
      rw [hnode j]
      split
    next hj => rw [hname, hj]
    · rfl
    next hj => rw [hparent, hj]
    · rfl
    next hj => rw [hdoomed, hj]
    · rfl
    next hj =>
      rw [hj]
      exact hshape _
    · exact .inl rfl
  · rw [s.modifyNode_of_length_le f (Nat.le_of_not_lt hi)]
    exact sameTree_refl s

theorem sameTree_incInUse (s : ImfsState) (i : Nat) : SameTree s (s.incInUse i) :=
  sameTree_modifyNode s i _ (fun _ => rfl) (fun _ => rfl) (fun _ => rfl) fun _ => .inl rfl

theorem sameTree_decInUse (s : ImfsState) (i : Nat) : SameTree s (s.decInUse i) :=
  sameTree_modifyNode s i _ (fun _ => rfl) (fun _ => rfl) (fun _ => rfl) fun _ => .inl rfl

theorem sameTree_keepsTree (s : ImfsState) (i : Nat) (hf : KeepsTree f) :
    SameTree s (s.modifyNode i f) := by
  refine sameTree_modifyNode s i f hf.name_eq hf.parentIdx_eq hf.doomed_eq fun n => ?_
  rcases hf.info_eq n with hinfo | ⟨_, _, _, _, _, _, hn, hinfo⟩
  · exact .inl hinfo
  · rw [hn, hinfo]
    exact .inr ⟨.inr rfl, .inr rfl⟩

theorem sameTree_stores (h : Stores s i s') : SameTree s s' := by
  rcases stored_of_stores h with heq | ⟨head, tail, a, head', tail', size, hinfo, hs'⟩
  · rw [heq]
    exact sameTree_refl s
  have hi : i < s.nodes.length := lt_of_info_ne_free (by simp [hinfo])
  have hnode := node_setFile s a head' tail' size hi
  rw [hs']
  refine ⟨rfl, rfl, length_modifyNode s i _, fun j => ?_, fun j => ?_, fun j => ?_, fun j => ?_⟩
  all_goals
    rw [hnode j]
    split
  next hj => rw [hj]
  · rfl
  next hj => rw [hj]
  · rfl
  next hj => rw [hj]
  · rfl
  next hj =>
    rw [hj, hinfo]
    exact .inr ⟨.inl rfl, .inl rfl⟩
  · exact .inl rfl

theorem inUse_keepsTree (s : ImfsState) (i : Nat) (hf : KeepsTree f) (j : Nat) :
    ((s.modifyNode i f).node j).inUse = (s.node j).inUse := by
  by_cases hi : i < s.nodes.length
  · rw [s.node_modifyNode f j hi]
    split
    next hj =>
      rw [hj]
      exact hf.inUse_eq _
    · rfl
  · rw [s.modifyNode_of_length_le f (Nat.le_of_not_lt hi)]

theorem inUse_stores (h : Stores s i s') (j : Nat) : (s'.node j).inUse = (s.node j).inUse := by
  rcases stored_of_stores h with heq | ⟨head, tail, a, head', tail', size, hinfo, hs'⟩
  · rw [heq]
  have hi : i < s.nodes.length := lt_of_info_ne_free (by simp [hinfo])
  rw [hs', node_setFile s a head' tail' size hi j]
  split
  next hj => rw [hj]
  · rfl

theorem entry_congr (h : ∀ i ch, (s'.node i).info = .dir ch ↔ (s.node i).info = .dir ch) (d : Nat)
    (e : DirEntry) : Entry s' d e ↔ Entry s d e := by
  exact exists_congr fun ch => and_congr_left fun _ => h d ch

section Same

variable {s s' : ImfsState} (h : SameTree s s')

include h

theorem SameTree.dir_iff (i : Nat) (ch : List DirEntry) :
    (s'.node i).info = .dir ch ↔ (s.node i).info = .dir ch :=
  (h.shape i).iff (by rintro (hc | hc) <;> cases hc)

theorem SameTree.hardLink_iff (i t : Nat) :
    (s'.node i).info = .hardLink t ↔ (s.node i).info = .hardLink t :=
  (h.shape i).iff (by rintro (hc | hc) <;> cases hc)

theorem SameTree.isFree_iff (i : Nat) : (s'.node i).info = .free ↔ (s.node i).info = .free :=
  (h.shape i).iff (by rintro (hc | hc) <;> cases hc)

theorem SameTree.isDir_iff (i : Nat) :
    (s'.node i).nodeType = .dir ↔ (s.node i).nodeType = .dir := by
  rw [nodeType_eq_dir, nodeType_eq_dir]
  exact exists_congr (h.dir_iff i)

theorem SameTree.entry_iff (d : Nat) (e : DirEntry) : Entry s' d e ↔ Entry s d e :=
  entry_congr h.dir_iff d e

end Same

structure Entered (s s' : ImfsState) (parent : Nat) (name : Str) (info : NodeInfo) : Prop where
  root_eq : s'.rootIdx = s.rootIdx
  free_eq : s'.nodeFreeList = s.nodeFreeList.tail
  length_le : s.nodes.length ≤ s'.nodes.length
  name_eq : ∀ j, (s'.node j).name = if j = s.nextSlot then name else (s.node j).name
  parent_eq : ∀ j, (s'.node j).parentIdx = if j = s.nextSlot then parent else (s.node j).parentIdx
  doomed_eq : ∀ j, (s'.node j).doomed = if j = s.nextSlot then false else (s.node j).doomed
  inUse_eq : ∀ j, (s'.node j).inUse = if j = s.nextSlot then 0 else (s.node j).inUse
  grown : ∃ ch, (s.node parent).info = .dir ch ∧ ∀ j, (s'.node j).info =
    if j = s.nextSlot then info
    else if j = parent then .dir (ch ++ [⟨name, s.nextSlot⟩]) else (s.node j).info

structure Trimmed (s s' : ImfsState) (p : Nat) (x : Str) : Prop where
  root_eq : s'.rootIdx = s.rootIdx
  free_eq : s'.nodeFreeList = s.nodeFreeList
  length_eq : s'.nodes.length = s.nodes.length
  name_eq : ∀ j, (s'.node j).name = (s.node j).name
  parent_eq : ∀ j, (s'.node j).parentIdx = (s.node j).parentIdx
  doomed_eq : ∀ j, (s'.node j).doomed = (s.node j).doomed
  inUse_eq : ∀ j, (s'.node j).inUse = (s.node j).inUse
  shrunk : ∃ ch, (s.node p).info = .dir ch ∧ ∀ j, (s'.node j).info =
    if j = p then .dir (ch.filter fun e => e.name ≠ x) else (s.node j).info

structure Reentered (s s' : ImfsState) (parent i : Nat) (name : Str) : Prop where
  root_eq : s'.rootIdx = s.rootIdx
  free_eq : s'.nodeFreeList = s.nodeFreeList
  length_eq : s'.nodes.length = s.nodes.length
  name_eq : ∀ j, (s'.node j).name = if j = i then name else (s.node j).name
  parent_eq : ∀ j, (s'.node j).parentIdx = if j = i then parent else (s.node j).parentIdx
  doomed_eq : ∀ j, (s'.node j).doomed = (s.node j).doomed
  inUse_eq : ∀ j, (s'.node j).inUse = (s.node j).inUse
  grown : ∃ ch, (s.node parent).info = .dir ch ∧ ∀ j, (s'.node j).info =
    if j = parent then .dir (ch ++ [⟨name, i⟩]) else (s.node j).info

theorem node_addChild {child : Nat} (hc : child < s.nodes.length)
    (h : s.addChild parent child = .ok s') :
    ∃ ch, (s.node parent).info = .dir ch ∧ ∀ j, s'.node j =
      { s.node j with
        parentIdx := if j = child then parent else (s.node j).parentIdx
        info := if j = parent then .dir (ch ++ [⟨(s.node child).name, child⟩])
          else (s.node j).info } := by
  rcases addChild_ok h with ⟨ch, hdir, hs'⟩
  have hp : parent < s.nodes.length := lt_of_info_ne_free (by simp [hdir])
  refine ⟨ch, hdir, fun j => ?_⟩
  rw [hs', node_modifyNode _ _ j (by rw [length_modifyNode]; exact hc)]
  by_cases hjc : j = child
  · rw [if_pos hjc, node_modifyNode _ _ child hp, hjc]
    by_cases hcp : child = parent
    · rw [if_pos hcp, if_pos rfl, if_pos hcp, hcp]
    · rw [if_neg hcp, if_pos rfl, if_neg hcp]
  rw [if_neg hjc, node_modifyNode _ _ j hp, if_neg hjc]
  by_cases hjp : j = parent
  · rw [if_pos hjp, if_pos hjp, hjp]
  · rw [if_neg hjp, if_neg hjp]

/-- A creation, with whatever is done to the new node before it is entered. -/
theorem entered_of_addChild {ty : NodeType} {mode : BitVec 32} (hr : s.FreeInRange)
    (hne : parent ≠ s.nextSlot) (f : Node → Node) (hname : ∀ n, (f n).name = n.name)
    (hdoomed : ∀ n, (f n).doomed = n.doomed) (hinUse : ∀ n, (f n).inUse = n.inUse)
    (hadd : ((s.createNode name ty mode).2.modifyNode s.nextSlot f).addChild parent s.nextSlot =
      .ok s') : Entered s s' parent name (f (Node.new name ty mode)).info := by
  have hlt := s.nextSlot_lt_createNode name ty mode hr
  have hle := s.length_createNode_le name ty mode
  rcases s.createNode_frame name ty mode with ⟨_, hroot, _, _, _⟩
  have hnode2 : ∀ j, ((s.createNode name ty mode).2.modifyNode s.nextSlot f).node j =
      if j = s.nextSlot then f (Node.new name ty mode) else s.node j := by
    intro j
    rw [node_modifyNode _ f j hlt, node_createNode s name ty mode hr,
      node_createNode s name ty mode hr, if_pos rfl]
    split <;> rfl
  rcases node_addChild (by rw [length_modifyNode]; exact hlt) hadd with ⟨ch, hdir, hnode⟩
  rw [hnode2 parent, if_neg hne] at hdir
  simp only [hnode2, if_pos, hname] at hnode
  rcases addChild_ok hadd with ⟨_, _, hs'⟩
  refine ⟨by rw [hs']; exact hroot, ?_, ?_, fun j => ?_, fun j => ?_, fun j => ?_, fun j => ?_,
    ch, hdir, fun j => ?_⟩
  · rw [hs']
    exact nodeFreeList_createNode s name ty mode
  · rw [hs', length_modifyNode, length_modifyNode, length_modifyNode]
    exact hle
  all_goals
    rw [hnode j]
    by_cases hj : j = s.nextSlot
  · simp only [if_pos hj, hname]
    rfl
  · simp only [if_neg hj]
  · simp only [if_pos hj]
  · simp only [if_neg hj]
  · simp only [if_pos hj, hdoomed]
    rfl
  · simp only [if_neg hj]
  · simp only [if_pos hj, hinUse]
    rfl
  · simp only [if_neg hj]
  · have hjp : j ≠ parent := fun hc => hne (hc.symm.trans hj)
    simp only [if_pos hj, if_neg hjp]
  · simp only [if_neg hj]
    rfl

theorem entered_setHardLink {t : Nat} {info : NodeInfo} (h : Entered s s' parent name info)
    (hlt : s.nextSlot < s'.nodes.length) :
    Entered s (s'.setHardLink s.nextSlot t) parent name (.hardLink t) := by
  have hnode := fun j => s'.node_modifyNode (fun n => { n with info := .hardLink t }) j hlt
  rcases h.grown with ⟨ch, hdir, hinfo⟩
  refine ⟨h.root_eq, h.free_eq, by rw [setHardLink, length_modifyNode]; exact h.length_le,
    fun j => ?_, fun j => ?_, fun j => ?_, fun j => ?_, ch, hdir, fun j => ?_⟩
  · rw [setHardLink, hnode j, ← h.name_eq]
    split
    next hj => rw [hj]
    · rfl
  · rw [setHardLink, hnode j, ← h.parent_eq]
    split
    next hj => rw [hj]
    · rfl
  · rw [setHardLink, hnode j, ← h.doomed_eq]
    split
    next hj => rw [hj]
    · rfl
  · rw [setHardLink, hnode j, ← h.inUse_eq]
    split
    next hj => rw [hj]
    · rfl
  · rw [setHardLink, hnode j]
    by_cases hj : j = s.nextSlot
    · rw [if_pos hj, if_pos hj]
    · rw [if_neg hj, hinfo j, if_neg hj, if_neg hj]

theorem trimmed_of_removeChild (h : s.removeChild i = .ok s') :
    Trimmed s s' (s.node i).parentIdx (s.node i).name := by
  rcases removeChild_ok h with ⟨ch, hdir, hs'⟩
  have hp : (s.node i).parentIdx < s.nodes.length :=
    lt_of_info_ne_free (by simp [hdir])
  have hnode := fun j => s.node_modifyNode (fun n => { n with
    info := .dir (ch.filter fun e => e.name ≠ (s.node i).name) }) j hp
  rw [hs']
  refine ⟨rfl, rfl, length_modifyNode s _ _, fun j => ?_, fun j => ?_, fun j => ?_, fun j => ?_,
    ch, hdir, fun j => ?_⟩
  all_goals
    rw [hnode j]
    split
    · first | rfl | (rename_i hj; rw [hj])
    · rfl

theorem reentered_of_addChild (hi : i < s.nodes.length)
    (hadd : (s.modifyNode i fun n => { n with name := name }).addChild parent i = .ok s') :
    Reentered s s' parent i name := by
  have hnode1 := fun j => s.node_modifyNode (fun n => { n with name := name }) j hi
  have hinfo1 : ∀ j, ((s.modifyNode i fun n => { n with name := name }).node j).info =
      (s.node j).info := by
    intro j
    rw [hnode1 j]
    split
    next hj => rw [hj]
    · rfl
  rcases node_addChild (by rw [length_modifyNode]; exact hi) hadd with ⟨ch, hdir, hnode⟩
  rw [hinfo1 parent] at hdir
  rw [hnode1 i, if_pos rfl] at hnode
  rcases addChild_ok hadd with ⟨_, _, hs'⟩
  refine ⟨by rw [hs']; rfl, by rw [hs']; rfl, by rw [hs']; simp only [length_modifyNode],
    fun j => ?_, fun j => ?_, fun j => ?_, fun j => ?_, ch, hdir, fun j => ?_⟩
  -- The new name is the only field the first change touches.
  all_goals
    rw [hnode j]
    simp only [hnode1 j]
    by_cases hj : j = i
    · rw [hj]
      simp only [if_true]
    · simp only [if_neg hj]

theorem Entered.entry_iff {info : NodeInfo} (h : Entered s s' parent name info)
    (hfree : (s.node s.nextSlot).info = .free) (hinfo : ∀ ch, info = .dir ch → ch = []) (d : Nat)
    (e : DirEntry) : Entry s' d e ↔ Entry s d e ∨ (d = parent ∧ e = ⟨name, s.nextSlot⟩) := by
  rcases h.grown with ⟨ch, hdir, hinfo'⟩
  have hne : parent ≠ s.nextSlot := by
    intro hc
    rw [hc, hfree] at hdir
    cases hdir
  unfold Entry
  rw [hinfo' d]
  by_cases hd : d = s.nextSlot
  · rw [if_pos hd, hd, hfree]
    constructor
    · rintro ⟨ch', hch', he⟩
      rw [hinfo ch' hch'] at he
      cases he
    · rintro (⟨_, hc, _⟩ | ⟨hc, _⟩)
      · cases hc
      · exact absurd hc.symm hne
  rw [if_neg hd]
  by_cases hp : d = parent
  · rw [if_pos hp, hp, hdir]
    simp only [NodeInfo.dir.injEq, exists_eq_left', mem_append, mem_singleton, true_and]
  · rw [if_neg hp]
    simp only [hp, false_and, or_false]

theorem Trimmed.entry_iff {p : Nat} {x : Str} (h : Trimmed s s' p x) (d : Nat) (e : DirEntry) :
    Entry s' d e ↔ Entry s d e ∧ ¬ (d = p ∧ e.name = x) := by
  rcases h.shrunk with ⟨ch, hdir, hinfo⟩
  unfold Entry
  rw [hinfo d]
  by_cases hd : d = p
  · rw [if_pos hd, hd, hdir]
    simp only [NodeInfo.dir.injEq, exists_eq_left', mem_filter, decide_eq_true_eq, true_and, ne_eq]
  · rw [if_neg hd]
    simp only [hd, false_and, not_false_eq_true, and_true]

theorem Reentered.entry_iff (h : Reentered s s' parent i name) (d : Nat) (e : DirEntry) :
    Entry s' d e ↔ Entry s d e ∨ (d = parent ∧ e = ⟨name, i⟩) := by
  rcases h.grown with ⟨ch, hdir, hinfo⟩
  unfold Entry
  rw [hinfo d]
  by_cases hp : d = parent
  · rw [if_pos hp, hp, hdir]
    simp only [NodeInfo.dir.injEq, exists_eq_left', mem_append, mem_singleton, true_and]
  · rw [if_neg hp]
    simp only [hp, false_and, or_false]

/-- No directory has an entry for the slot. -/
def Loose (s : ImfsState) (i : Nat) : Prop :=
  ∀ d e, Entry s d e → e.nodeIdx ≠ i

/-- No hard link that is in a directory leads to the slot. -/
def Unheld (s : ImfsState) (i : Nat) : Prop :=
  ∀ d e, Entry s d e → (s.node e.nodeIdx).info ≠ .hardLink i

theorem mem_allEntries : e ∈ s.allEntries ↔ ∃ d, Entry s d e := by
  simp only [allEntries, mem_flatMap]
  constructor
  · rintro ⟨n, hn, he⟩
    rcases mem_iff_getElem.mp hn with ⟨d, hd, hnode⟩
    have hget : s.node d = n := by
      rw [node, getD_eq_getElem _ _ hd, hnode]
    rcases hch : n.children? with _ | ch
    · rw [hch] at he
      cases he
    rw [hch] at he
    exact ⟨d, ch, by rw [hget]; exact children?_eq_some.mp hch, he⟩
  · rintro ⟨d, ch, hdir, he⟩
    have hd : d < s.nodes.length := lt_of_info_ne_free (by simp [hdir])
    refine ⟨s.node d, ?_, ?_⟩
    · rw [node, getD_eq_getElem _ _ hd]
      exact getElem_mem hd
    · rw [children?_eq_some.mpr hdir]
      exact he

theorem loose_of_linkCount (h : s.linkCount i = 0) :
    (s.node i).nodeType ≠ .dir ∧ Loose s i ∧ Unheld s i := by
  unfold linkCount at h
  split at h
  · omega
  rename_i hdir
  rw [length_eq_zero_iff, filter_eq_nil_iff] at h
  have hno : ∀ d e, Entry s d e → ¬ (e.nodeIdx = i ∨ (s.node e.nodeIdx).info = .hardLink i) := by
    intro d e he hc
    exact h e (mem_allEntries.mpr ⟨d, he⟩) (decide_eq_true hc)
  refine ⟨fun hc => ?_, fun d e he hc => hno d e he (.inl hc),
    fun d e he hc => hno d e he (.inr hc)⟩
  rcases nodeType_eq_dir.mp hc with ⟨ch, hch⟩
  exact hdir ch hch

/-- Every node after a slot was freed. -/
structure Freed (s s' : ImfsState) (i : Nat) : Prop where
  root_eq : s'.rootIdx = s.rootIdx
  free_eq : s'.nodeFreeList = i :: s.nodeFreeList
  length_eq : s'.nodes.length = s.nodes.length
  node_eq : ∀ j, s'.node j = if j = i then { s.node i with info := .free } else s.node j

theorem freed_of_reclaimNode (hi : i < s.nodes.length) (h : s.reclaimNode i = .ok s') :
    Freed s s' i := by
  rcases reclaimNode_ok h with ⟨a, _, hs'⟩
  rw [hs']
  exact ⟨rfl, rfl, length_modifyNode s i _,
    fun j => s.node_modifyNode (fun n => { n with info := .free }) j hi⟩

/-- Nodes that no directory leads to, marked or freed. A node is freed when no
    descriptor is counted on it, or when it is a hard link, which none can be
    open on. -/
inductive Pruned (s : ImfsState) : ImfsState → Prop
  | refl : Pruned s s
  | doom {s₁ : ImfsState} (h : Pruned s s₁) (i : Nat) (hdir : (s₁.node i).nodeType ≠ .dir)
      (hloose : Loose s₁ i) (hunheld : Unheld s₁ i) :
      Pruned s (s₁.modifyNode i fun n => { n with doomed := true })
  | free {s₁ s₂ : ImfsState} (h : Pruned s s₁) (i : Nat) (hdir : (s₁.node i).nodeType ≠ .dir)
      (hlive : (s₁.node i).info ≠ .free) (hloose : Loose s₁ i) (hunheld : Unheld s₁ i)
      (hidle : (s₁.node i).inUse = 0 ∨ ∃ t, (s₁.node i).info = .hardLink t)
      (hfreed : Freed s₁ s₂ i) : Pruned s s₂

variable {s s' : ImfsState}

theorem node_doom (s : ImfsState) (i j : Nat) :
    ∃ b, (s.modifyNode i fun n => { n with doomed := true }).node j =
      { s.node j with doomed := b } ∧
      (b = true → (s.node j).doomed = true ∨ j = i) := by
  by_cases hi : i < s.nodes.length
  · rw [s.node_modifyNode _ j hi]
    split
    next hj =>
      rw [hj]
      exact ⟨true, rfl, fun _ => .inr rfl⟩
    · exact ⟨(s.node j).doomed, rfl, .inl⟩
  · rw [s.modifyNode_of_length_le _ (Nat.le_of_not_lt hi)]
    exact ⟨(s.node j).doomed, rfl, .inl⟩

theorem Pruned.fields (h : Pruned s s') : s'.rootIdx = s.rootIdx ∧
    s'.nodes.length = s.nodes.length ∧ ∀ j, (s'.node j).name = (s.node j).name ∧
      (s'.node j).parentIdx = (s.node j).parentIdx ∧ (s'.node j).inUse = (s.node j).inUse := by
  induction h with
  | refl => exact ⟨rfl, rfl, fun j => ⟨rfl, rfl, rfl⟩⟩
  | @doom s1 _ i hdir hloose hunheld ih =>
    refine ⟨ih.1, by rw [length_modifyNode]; exact ih.2.1, fun j => ?_⟩
    rcases node_doom s1 i j with ⟨b, hnode, _⟩
    rw [hnode]
    exact ih.2.2 j
  | free _ i hdir hlive hloose hunheld hidle hfreed ih =>
    refine ⟨hfreed.root_eq.trans ih.1, hfreed.length_eq.trans ih.2.1, fun j => ?_⟩
    rw [hfreed.node_eq j]
    split
    next hj =>
      rw [hj]
      exact ih.2.2 i
    · exact ih.2.2 j

/-- What a pruned node was, if it is not what it was. -/
def PrunedInfo (s s' : ImfsState) (j : Nat) : Prop :=
  (s'.node j).info = (s.node j).info ∨
    ((s'.node j).info = .free ∧ (s.node j).nodeType ≠ .dir ∧ Loose s j ∧ Unheld s j)

theorem PrunedInfo.dir_iff (h : PrunedInfo s s' j) (ch : List DirEntry) :
    (s'.node j).info = .dir ch ↔ (s.node j).info = .dir ch := by
  rcases h with h | ⟨hfree, hdir, _, _⟩
  · rw [h]
  · rw [hfree]
    exact ⟨nofun, fun hc => absurd (nodeType_eq_dir.mpr ⟨ch, hc⟩) hdir⟩

theorem PrunedInfo.info_eq {d : Nat} (h : PrunedInfo s s' j) (he : Entry s d e)
    (hj : e.nodeIdx = j ∨ (s.node e.nodeIdx).info = .hardLink j) :
    (s'.node j).info = (s.node j).info := by
  rcases h with h | ⟨_, _, hloose, hunheld⟩
  · exact h
  rcases hj with hj | hj
  · exact absurd hj (hloose d e he)
  · exact absurd hj (hunheld d e he)

theorem loose_congr {i : Nat} (h : ∀ d e, Entry s' d e ↔ Entry s d e) : Loose s' i ↔ Loose s i := by
  unfold Loose
  simp only [h]

theorem Pruned.info (h : Pruned s s') : ∀ j, PrunedInfo s s' j := by
  induction h with
  | refl => exact fun j => .inl rfl
  | @doom s1 _ i hdir hloose hunheld ih =>
    intro j
    rcases node_doom s1 i j with ⟨b, hnode, _⟩
    unfold PrunedInfo
    rw [hnode]
    exact ih j
  | @free s1 s2 _ i hdir hlive hloose hunheld hidle hfreed ih =>
    have hentry := entry_congr fun j ch => (ih j).dir_iff ch
    intro j
    unfold PrunedInfo
    rw [hfreed.node_eq j]
    by_cases hj : j = i
    · rw [if_pos hj, hj]
      -- A freed node was live before, so it is still what it was at first.
      have hinfo : (s1.node i).info = (s.node i).info :=
        (ih i).resolve_right fun hc => hlive hc.1
      refine .inr ⟨rfl, ?_, (loose_congr hentry).mp hloose, fun d e he hc => ?_⟩
      · rw [Node.nodeType, ← hinfo]
        exact hdir
      · refine hunheld d e ((hentry d e).mpr he) ?_
        rw [(ih e.nodeIdx).info_eq he (.inl rfl)]
        exact hc
    · rw [if_neg hj]
      exact ih j

theorem Pruned.dir_iff (h : Pruned s s') (j : Nat) (ch : List DirEntry) :
    (s'.node j).info = .dir ch ↔ (s.node j).info = .dir ch :=
  (h.info j).dir_iff ch

theorem Pruned.entry_iff (h : Pruned s s') (d : Nat) (e : DirEntry) : Entry s' d e ↔ Entry s d e :=
  entry_congr h.dir_iff d e

end LindGrates.Imfs
