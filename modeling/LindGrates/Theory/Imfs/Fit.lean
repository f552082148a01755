import LindGrates.Theory.Imfs.Inversion

/-!
# Indices of the Filesystem

An arena never shrinks, and an index is only ever stored after it has been handed
out, so not even a slot that was freed too early can lead out of the arena.

## Main definitions

* `Fit`: The indices stored in nodes are in range, and files have chunks.
* `Extends`: A change that ends in a fit filesystem and drops no slot.

## Theorems

* `extends_createNode`, `extends_addChild`, `extends_removeChild`, `extends_unlinkNode`:
  The operations the calls are made of.
* `resolvePath_lt`: A path leads to a node of the arena.
-/

namespace LindGrates.Imfs

open FdTables ImfsState Nat

variable {name path : Str}

/-- The filesystem's own indices are in range and its files have chunks. -/
structure Fit (s : ImfsState) : Prop where
  root : s.rootIdx < s.nodes.length
  free : s.FreeInRange
  entries : ∀ d ch, (s.node d).info = .dir ch → ∀ e ∈ ch, e.nodeIdx < s.nodes.length
  links : ∀ h t, (s.node h).info = .hardLink t → t < s.nodes.length
  parents : ∀ i, i < s.nodes.length → (s.node i).parentIdx < s.nodes.length
  files : ∃ chain, FilesOk s chain

/-- A change that ends in a fit filesystem, drops no slot, and leaves the
    descriptors alone. -/
structure Extends (s s' : ImfsState) : Prop where
  fit : Fit s'
  length_le : s.nodes.length ≤ s'.nodes.length
  fdInfo_eq : s'.fdInfo = s.fdInfo
  arcs_eq : s'.arcs = s.arcs

theorem extends_refl {s : ImfsState} (h : Fit s) : Extends s s :=
  ⟨h, le_refl _, rfl, rfl⟩

theorem extends_trans {s1 s2 s3 : ImfsState} (h1 : Extends s1 s2) (h2 : Extends s2 s3) :
    Extends s1 s3 :=
  ⟨h2.fit, le_trans h1.length_le h2.length_le, h2.fdInfo_eq.trans h1.fdInfo_eq,
    h2.arcs_eq.trans h1.arcs_eq⟩

section Primitives

variable {s s' : ImfsState}

theorem extends_modifyNode (h : Fit s) (i : Nat) (f : Node → Node)
    (hparent : i < s.nodes.length → (f (s.node i)).parentIdx < s.nodes.length)
    (hdir : ∀ ch, (f (s.node i)).info = .dir ch → ∀ e ∈ ch, e.nodeIdx < s.nodes.length)
    (hlink : ∀ t, (f (s.node i)).info = .hardLink t → t < s.nodes.length)
    (hreg : ∀ a b, (f (s.node i)).info = .reg a b →
      (s.node i).info = .reg a b ∧ (f (s.node i)).totalSize = (s.node i).totalSize) :
    Extends s (s.modifyNode i f) := by
  rcases h.files with ⟨chain, hfiles⟩
  by_cases hi : i < s.nodes.length
  · have hnode := fun j => s.node_modifyNode f j hi
    refine ⟨⟨?_, ?_, fun d ch hd e he => ?_, fun l t hl => ?_, fun j hj => ?_,
      chain, filesOk_modifyNode hfiles i f hreg⟩, ?_, rfl, rfl⟩
    · rw [length_modifyNode]
      exact h.root
    · intro j hj
      rw [length_modifyNode]
      exact h.free j hj
    · rw [length_modifyNode]
      rw [hnode d] at hd
      by_cases hdi : d = i
      · rw [if_pos hdi] at hd
        exact hdir ch hd e he
      · rw [if_neg hdi] at hd
        exact h.entries d ch hd e he
    · rw [length_modifyNode]
      rw [hnode l] at hl
      by_cases hli : l = i
      · rw [if_pos hli] at hl
        exact hlink t hl
      · rw [if_neg hli] at hl
        exact h.links l t hl
    · rw [length_modifyNode] at hj ⊢
      rw [hnode j]
      by_cases hji : j = i
      · rw [if_pos hji]
        exact hparent hi
      · rw [if_neg hji]
        exact h.parents j hj
    · exact Nat.le_of_eq (length_modifyNode s i f).symm
  · rw [s.modifyNode_of_length_le f (Nat.le_of_not_lt hi)]
    exact extends_refl h

theorem extends_modifyNode_same (h : Fit s) (i : Nat) (f : Node → Node)
    (hparent : ∀ n, (f n).parentIdx = n.parentIdx) (hinfo : ∀ n, (f n).info = n.info)
    (hsize : ∀ n, (f n).totalSize = n.totalSize) : Extends s (s.modifyNode i f) := by
  refine extends_modifyNode h i f (fun hi => ?_) (fun ch hd => ?_) (fun t hl => ?_)
    fun a b hr => ?_
  · rw [hparent]
    exact h.parents i hi
  · rw [hinfo] at hd
    exact h.entries i ch hd
  · rw [hinfo] at hl
    exact h.links i t hl
  · rw [hinfo] at hr
    exact ⟨hr, hsize _⟩

theorem extends_createNode (h : Fit s) (name : Str) (ty : NodeType) (mode : BitVec 32) :
    Extends s (s.createNode name ty mode).2 := by
  rcases h.files with ⟨chain, hfiles⟩
  have hnode := s.node_createNode name ty mode h.free
  have hle := s.length_createNode_le name ty mode
  rcases s.createNode_frame name ty mode with ⟨_, hroot, hfd, harcs, _⟩
  -- A new node stores no index but its parent, which is the first slot.
  refine ⟨⟨?_, freeInRange_createNode h.free name ty mode, fun d ch hd e he => ?_,
    fun l t hl => ?_, fun j hj => ?_, _, filesOk_createNode hfiles h.free name ty mode⟩,
    hle, hfd, harcs⟩
  · rw [hroot]
    exact lt_of_lt_of_le h.root hle
  · rw [hnode d] at hd
    by_cases hdn : d = s.nextSlot
    · rw [if_pos hdn] at hd
      cases ty <;> simp only [Node.new, NodeType.emptyInfo, NodeInfo.dir.injEq, reduceCtorEq] at hd
      rw [← hd] at he
      cases he
    · rw [if_neg hdn] at hd
      exact lt_of_lt_of_le (h.entries d ch hd e he) hle
  · rw [hnode l] at hl
    by_cases hln : l = s.nextSlot
    · rw [if_pos hln] at hl
      cases ty <;> simp only [Node.new, NodeType.emptyInfo, reduceCtorEq] at hl
    · rw [if_neg hln] at hl
      exact lt_of_lt_of_le (h.links l t hl) hle
  · rw [hnode j]
    by_cases hjn : j = s.nextSlot
    · rw [if_pos hjn]
      exact lt_of_le_of_lt (zero_le _) hj
    rw [if_neg hjn]
    by_cases hjl : j < s.nodes.length
    · exact Nat.lt_of_lt_of_le (h.parents j hjl) hle
    · rw [s.node_of_length_le (Nat.le_of_not_lt hjl)]
      exact Nat.lt_of_le_of_lt (Nat.zero_le _) hj

variable {parent i dir : Nat}

section

variable (h : Fit s)

include h

theorem extends_addChild {child : Nat} (hchild : child < s.nodes.length)
    (hadd : s.addChild parent child = .ok s') : Extends s s' := by
  rcases addChild_ok hadd with ⟨ch, hdir, hs'⟩
  have hparent : parent < s.nodes.length := lt_of_info_ne_free (by simp [hdir])
  have h1 : Extends s (s.modifyNode parent fun n =>
      { n with info := .dir (ch ++ [⟨(s.node child).name, child⟩]) }) := by
    refine extends_modifyNode h parent _ (fun hi => h.parents parent hi)
      (fun ch' hch' e he => ?_) nofun nofun
    simp only [NodeInfo.dir.injEq] at hch'
    rw [← hch'] at he
    rcases List.mem_append.mp he with he | he
    · exact h.entries parent ch hdir e he
    · rw [List.mem_singleton.mp he]
      exact hchild
  rw [hs']
  refine extends_trans h1 ?_
  have hfit := h1.fit
  refine extends_modifyNode hfit child _ (fun _ => ?_) (fun ch' hd => hfit.entries child ch' hd)
    (fun t hl => hfit.links child t hl) fun a b hr => ⟨hr, rfl⟩
  rw [length_modifyNode]
  exact hparent

theorem extends_removeChild (hrem : s.removeChild i = .ok s') : Extends s s' := by
  rcases removeChild_ok hrem with ⟨ch, hdir, hs'⟩
  rw [hs']
  refine extends_modifyNode h _ _ (fun hi => h.parents _ hi) (fun ch' hch' e he => ?_) nofun nofun
  simp only [NodeInfo.dir.injEq] at hch'
  rw [← hch'] at he
  exact h.entries _ ch hdir e (List.mem_of_mem_filter he)

theorem extends_reclaimNode (hi : i < s.nodes.length)
    (hrec : s.reclaimNode i = .ok s') : Extends s s' := by
  rcases h.files with ⟨chain, hfiles⟩
  rcases filesOk_reclaimNode hfiles i with ⟨s'', hs'', hfiles', _⟩
  rw [hrec] at hs''
  cases hs''
  rcases reclaimNode_ok hrec with ⟨a, _, hs'⟩
  have hclear := extends_modifyNode h i (fun n => { n with info := .free })
    (fun hi => h.parents i hi) nofun nofun nofun
  have hfit := hclear.fit
  have hlen : s'.nodes.length = s.nodes.length := by
    rw [hs']
    exact length_modifyNode s i _
  refine ⟨⟨?_, fun j hj => ?_, fun d ch hd e he => ?_, fun l t hl => ?_, fun j hj => ?_,
    _, hfiles'⟩, le_of_eq hlen.symm, by rw [hs']; rfl, by rw [hs']; rfl⟩
  · rw [hlen, hs']
    exact h.root
  · rw [hlen]
    rw [hs'] at hj
    rcases List.mem_cons.mp hj with hj | hj
    · rw [hj]
      exact hi
    · exact h.free j hj
  · rw [hs'] at hd ⊢
    exact hfit.entries d ch hd e he
  · rw [hs'] at hl ⊢
    exact hfit.links l t hl
  · rw [hs'] at hj ⊢
    exact hfit.parents j hj

theorem extends_stores (hst : Stores s i s') : Extends s s' := by
  rcases h.files with ⟨chain, hfiles⟩
  have hfiles' : ∃ chain', FilesOk s' chain' := by
    rcases hst with ⟨off, buf, n, hw⟩ | ⟨n, ht⟩
    · rcases filesOk_writeToNode hfiles i off buf with ⟨n', s'', chain', hrun, hok⟩
      rw [hw] at hrun
      cases hrun
      exact ⟨chain', hok⟩
    rcases filesOk_truncateNode hfiles i n with ⟨s'', chain', hrun, hok⟩
    rw [ht] at hrun
    cases hrun
    exact ⟨chain', hok⟩
  rcases stored_of_stores hst with heq | ⟨head, tail, a, head', tail', size, hinfo, hs'⟩
  · rw [heq]
    exact extends_refl h
  have hi : i < s.nodes.length := lt_of_info_ne_free (by simp [hinfo])
  have hnode : ∀ j, s'.node j = if j = i
      then { s.node i with info := .reg head' tail', totalSize := size } else s.node j := by
    intro j
    rw [hs']
    exact node_setFile s a head' tail' size hi j
  have hlen : s'.nodes.length = s.nodes.length := by
    rw [hs']
    exact length_modifyNode s i _
  refine ⟨⟨?_, fun j hj => ?_, fun d ch hd e he => ?_, fun l t hl => ?_, fun j hj => ?_,
    hfiles'⟩, le_of_eq hlen.symm, by rw [hs']; rfl, by rw [hs']; rfl⟩
  · rw [hlen, hs']
    exact h.root
  · rw [hlen]
    rw [hs'] at hj
    exact h.free j hj
  · rw [hnode d] at hd
    rw [hlen]
    split at hd
    · cases hd
    · exact h.entries d ch hd e he
  · rw [hnode l] at hl
    rw [hlen]
    split at hl
    · cases hl
    · exact h.links l t hl
  · rw [hlen] at hj ⊢
    rw [hnode j]
    split
    · exact h.parents i hi
    · exact h.parents j hj

theorem extends_dropIfUnlinked (hi : i < s.nodes.length)
    (hdrop : s.dropIfUnlinked i = .ok s') : Extends s s' := by
  unfold dropIfUnlinked at hdrop
  split at hdrop
  · have hdoom := extends_modifyNode_same h i (fun n => { n with doomed := true })
      (fun _ => rfl) (fun _ => rfl) fun _ => rfl
    simp only at hdrop
    split at hdrop
    · exact extends_trans hdoom (extends_reclaimNode hdoom.fit
        (by rw [length_modifyNode]; exact hi) hdrop)
    · cases hdrop
      exact hdoom
  · cases hdrop
    exact extends_refl h

theorem extends_unlinkNode (hi : i < s.nodes.length) (hunl : s.unlinkNode i = .ok s') :
    Extends s s' := by
  unfold unlinkNode at hunl
  split at hunl
  next target hinfo =>
    simp only [updateCtime_eq] at hunl
    rcases (bind_eq_ok _ _ _).mp hunl with ⟨s1, hdrop, hrec⟩
    have h1 := extends_dropIfUnlinked h (h.links i target hinfo) hdrop
    exact extends_trans h1 (extends_reclaimNode h1.fit (lt_of_lt_of_le hi h1.length_le) hrec)
  · exact extends_dropIfUnlinked h hi hunl

theorem extends_addDot (name : Str) {target : Nat} (htarget : target < s.nodes.length)
    (hadd : ((s.createNode name .lnk 0).2.setHardLink s.nextSlot target).addChild dir
      s.nextSlot = .ok s') : Extends s s' := by
  have h1 := extends_createNode h name .lnk 0
  have h2 : Extends (s.createNode name .lnk 0).2
      ((s.createNode name .lnk 0).2.setHardLink s.nextSlot target) := by
    refine extends_modifyNode h1.fit _ _ (fun hi => h1.fit.parents _ hi) nofun
      (fun t ht => ?_) nofun
    cases ht
    exact lt_of_lt_of_le htarget h1.length_le
  refine extends_trans h1 (extends_trans h2 (extends_addChild h2.fit ?_ hadd))
  rw [setHardLink, length_modifyNode]
  exact s.nextSlot_lt_createNode name .lnk 0 h.free

end

theorem addDots_ok (h : s.addDots dir parent = .ok s') :
    ∃ s1, ((s.createNode ['.'] .lnk 0).2.setHardLink s.nextSlot dir).addChild dir s.nextSlot =
        .ok s1 ∧
      ((s1.createNode ['.', '.'] .lnk 0).2.setHardLink s1.nextSlot parent).addChild dir
        s1.nextSlot = .ok s' := by
  simp only [addDots, createNode_fst] at h
  rcases (bind_eq_ok _ _ _).mp h with ⟨s1, h1, h2⟩
  exact ⟨s1, h1, h2⟩

theorem extends_addDots (h : Fit s) (hd : dir < s.nodes.length) (hp : parent < s.nodes.length)
    (hdots : s.addDots dir parent = .ok s') : Extends s s' := by
  rcases addDots_ok hdots with ⟨s1, hadd1, hadd2⟩
  have h1 := extends_addDot h ['.'] hd hadd1
  exact extends_trans h1 (extends_addDot h1.fit ['.', '.']
    (lt_of_lt_of_le hp h1.length_le) hadd2)

theorem moveNode_ok (h : World.moveNode s i parent name = .ok s') :
    ∃ s1, s.removeChild i = .ok s1 ∧
      (s1.modifyNode i fun n => { n with name := name }).addChild parent i = .ok s' := by
  rcases (bind_eq_ok _ _ _).mp h with ⟨s1, h1, h2⟩
  exact ⟨s1, h1, h2⟩

theorem extends_moveNode (h : Fit s) (hi : i < s.nodes.length)
    (hmove : World.moveNode s i parent name = .ok s') : Extends s s' := by
  rcases moveNode_ok hmove with ⟨s1, hrem, hadd⟩
  have h1 := extends_removeChild h hrem
  have h2 := extends_modifyNode_same h1.fit i (fun n => { n with name := name })
    (fun _ => rfl) (fun _ => rfl) fun _ => rfl
  refine extends_trans h1 (extends_trans h2 (extends_addChild h2.fit ?_ hadd))
  rw [length_modifyNode]
  exact lt_of_lt_of_le hi h1.length_le

end Primitives

section Resolve

variable {s : ImfsState}

/-- What a resolution yields, when it yields a node, lies in the arena. -/
def OkLt (n : Nat) (r : Except Int Nat) : Prop :=
  ∀ i, r = .ok i → i < n

variable {name : Str} {i : Nat}

theorem mem_of_findChild {ch : List DirEntry} (h : findChild ch name = some i) :
    ⟨name, i⟩ ∈ ch := by
  rcases Option.map_eq_some_iff.mp h with ⟨e, hfind, hidx⟩
  have hname : e.name = name := by
    have := List.find?_some hfind
    simpa using this
  have hmem := List.mem_of_find?_eq_some hfind
  rw [← hname, ← hidx]
  exact hmem

theorem lookupChild_eq_some {d : Nat} (h : s.lookupChild d name = some i) :
    ∃ ch, (s.node d).info = .dir ch ∧ findChild ch name = some i := by
  unfold lookupChild at h
  rcases hch : (s.node d).children? with _ | ch
  · rw [hch] at h
    cases h
  rw [hch] at h
  exact ⟨ch, children?_eq_some.mp hch, h⟩

theorem hardlinkTarget_eq_some {n : Node} {t : Nat} :
    n.hardlinkTarget = some t ↔ n.info = .hardLink t := by
  unfold Node.hardlinkTarget
  constructor
  · intro h
    split at h
    next heq => rw [heq, Option.some.inj h]
    · cases h
  · intro h
    rw [h]

theorem resolvePath_lt (h : Fit s) {follow : Bool}
    (hres : s.resolvePath path follow = .ok (.ok i)) : i < s.nodes.length := by
  have hlt : Returns (s.resolvePath path follow) (OkLt s.nodes.length) := by
    refine returns_resolvePath s (fun j hj => ?_) (fun _ _ => nofun) h.root (fun d name j hl => ?_)
      (fun j t ht => h.links j t (hardlinkTarget_eq_some.mp ht)) path follow
    · rintro _ ⟨⟩
      exact hj
    · rcases lookupChild_eq_some hl with ⟨ch, hdir, hfind⟩
      exact h.entries d ch hdir _ (mem_of_findChild hfind)
  exact hlt _ hres i rfl

theorem resolveParentAndName_lt (h : Fit s) {parent : Nat}
    (hres : s.resolveParentAndName path = .ok (.ok (parent, name))) : parent < s.nodes.length := by
  unfold resolveParentAndName at hres
  split at hres
  · cases hres
  split at hres
  · cases hres
    exact h.root
  rcases (bind_eq_ok _ _ _).mp hres with ⟨r, hr, hk⟩
  rcases r with _ | _
  · cases hk
  simp only at hk
  split at hk
  · cases hk
  · cases hk
    exact resolvePath_lt h hr

end Resolve

theorem fit_initState : Fit initState := by
  have hdir : ∀ d ch, (initState.node d).info = .dir ch → d = 0 ∧
      ch = [⟨['.'], 1⟩, ⟨['.', '.'], 2⟩] := by
    intro d ch hd
    rw [initState_info] at hd
    split at hd
    next hd0 =>
      cases hd
      exact ⟨hd0, rfl⟩
    · split at hd <;> cases hd
  refine ⟨by decide, nofun, fun d ch hd e he => ?_, fun l t hl => ?_, fun i hi => ?_,
    _, filesOk_initState⟩
  · rw [(hdir d ch hd).2] at he
    simp only [List.mem_cons, List.not_mem_nil, or_false] at he
    rcases he with he | he <;> rw [he] <;> decide
  · rw [initState_info] at hl
    split at hl
    · cases hl
    split at hl
    · cases hl
      decide
    · cases hl
  · have hi3 : i < 3 := hi
    rcases i with _ | _ | _ | i
    · decide
    · decide
    · decide
    · omega

end LindGrates.Imfs
