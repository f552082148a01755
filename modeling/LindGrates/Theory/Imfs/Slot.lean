import LindGrates.Core.Imfs.State
import Mathlib.Data.List.GetD

/-!
# Node Slots

Everything about the tree is stated with `node`, the function from indices to nodes,
so each primitive operation on the arena gets one equation for it.

## Main definitions

* `nextSlot`: The slot the next creation uses.
* `initState`: The state `init` leaves.

## Theorems

* `node_modifyNode`, `node_createNode`: The nodes afterwards.
* `addChild_ok`, `removeChild_ok`, `reclaimNode_ok`: What the operations do.
-/

namespace LindGrates.Imfs

open List

namespace ImfsState

variable {i : Nat} {s s' : ImfsState}

theorem node_of_length_le (s : ImfsState) (h : s.nodes.length ≤ i) : s.node i = Node.vacant := by
  rw [node, getD_eq_default _ _ h]

theorem lt_of_info_ne_free (h : (s.node i).info ≠ .free) : i < s.nodes.length := by
  by_cases hlt : i < s.nodes.length
  · exact hlt
  · rw [s.node_of_length_le (Nat.le_of_not_lt hlt)] at h
    exact absurd rfl h

@[simp] theorem length_modifyNode (s : ImfsState) (i : Nat) (f : Node → Node) :
    (s.modifyNode i f).nodes.length = s.nodes.length := by
  simp only [modifyNode, length_modify]

theorem node_modifyNode (s : ImfsState) (f : Node → Node) (j : Nat) (hi : i < s.nodes.length) :
    (s.modifyNode i f).node j = if j = i then f (s.node i) else s.node j := by
  by_cases hj : j = i
  · rw [if_pos hj, hj]
    simp only [node, modifyNode, getD_eq_getElem?_getD, getElem?_modify_eq,
      getElem?_eq_getElem hi]
    rfl
  rw [if_neg hj]
  simp only [node, modifyNode, getD_eq_getElem?_getD]
  rw [getElem?_modify_ne f s.nodes (fun hc => hj hc.symm)]

theorem modifyNode_of_length_le (s : ImfsState) (f : Node → Node) (h : s.nodes.length ≤ i) :
    s.modifyNode i f = s := by
  simp only [modifyNode, modify_eq_self h]

theorem modifyNode_eq_self {f : Node → Node} (h : f (s.node i) = s.node i) :
    s.modifyNode i f = s := by
  have hnodes : s.nodes.modify i f = s.nodes := by
    refine ext_getElem? fun j => ?_
    by_cases hj : i = j
    · rw [← hj, getElem?_modify_eq]
      rw [node, getD_eq_getElem?_getD] at h
      rcases hn : s.nodes[i]? with _ | _
      · rfl
      rw [hn] at h
      exact congrArg some h
    · rw [getElem?_modify_ne f s.nodes hj]
  rw [modifyNode, hnodes]

section

variable (s : ImfsState)

theorem modifyNode_id (i : Nat) {f : Node → Node} (hf : ∀ n, f n = n) :
    s.modifyNode i f = s :=
  modifyNode_eq_self (hf (s.node i))

@[simp] theorem updateAtime_eq (s : ImfsState) (i : Nat) : s.updateAtime i = s :=
  s.modifyNode_id i fun n => by cases n; rfl

@[simp] theorem updateMtime_eq (s : ImfsState) (i : Nat) : s.updateMtime i = s :=
  s.modifyNode_id i fun n => by cases n; rfl

@[simp] theorem updateCtime_eq (s : ImfsState) (i : Nat) : s.updateCtime i = s :=
  s.modifyNode_id i fun n => by cases n; rfl

theorem modifyNode_modifyNode (i : Nat) (f g : Node → Node) :
    (s.modifyNode i f).modifyNode i g = s.modifyNode i fun n => g (f n) := by
  simp only [modifyNode, modify_modify_eq]
  rfl

def FreeInRange : Prop :=
  ∀ i ∈ s.nodeFreeList, i < s.nodes.length

/-- The slot the next creation uses. -/
def nextSlot : Nat :=
  s.nodeFreeList.headD s.nodes.length

theorem createNode_fst (name : Str) (ty : NodeType) (mode : BitVec 32) :
    (s.createNode name ty mode).1 = s.nextSlot := by
  unfold createNode nextSlot
  split <;> rename_i h <;> rw [h] <;> rfl

theorem nodeFreeList_createNode (name : Str) (ty : NodeType) (mode : BitVec 32) :
    (s.createNode name ty mode).2.nodeFreeList = s.nodeFreeList.tail := by
  unfold createNode
  split <;> rename_i h <;> simp only [h, tail_cons, tail_nil]

theorem length_createNode_le (name : Str) (ty : NodeType) (mode : BitVec 32) :
    s.nodes.length ≤ (s.createNode name ty mode).2.nodes.length := by
  unfold createNode
  split
  · simp only [length_set, Nat.le_refl]
  · simp only [length_append]
    omega

theorem nextSlot_lt_createNode (name : Str) (ty : NodeType) (mode : BitVec 32)
    (hr : s.FreeInRange) : s.nextSlot < (s.createNode name ty mode).2.nodes.length := by
  unfold createNode nextSlot
  rcases hf : s.nodeFreeList with _ | i
  · simp only [headD_nil, length_append, length_singleton]
    omega
  simp only [headD_cons, length_set]
  exact hr i (by rw [hf]; exact mem_cons_self ..)

theorem node_createNode (name : Str) (ty : NodeType) (mode : BitVec 32)
    (hr : s.FreeInRange) (j : Nat) :
    (s.createNode name ty mode).2.node j =
      if j = s.nextSlot then Node.new name ty mode else s.node j := by
  unfold createNode nextSlot
  cases hf : s.nodeFreeList with
  | nil =>
    simp only [headD_nil, node, getD_eq_getElem?_getD]
    by_cases hj : j = s.nodes.length
    · rw [if_pos hj, hj, getElem?_concat_length]
      rfl
    rw [if_neg hj]
    by_cases hlt : j < s.nodes.length
    · rw [getElem?_append_left hlt]
    rw [getElem?_eq_none_iff.mpr (show s.nodes.length ≤ j by omega),
      getElem?_eq_none_iff.mpr (by
        rw [length_append, length_singleton]; omega)]
  | cons i =>
    have hi : i < s.nodes.length := hr i (by rw [hf]; exact mem_cons_self ..)
    simp only [headD_cons, node, getD_eq_getElem?_getD]
    by_cases hj : j = i
    · rw [if_pos hj, hj, getElem?_set_self hi]
      rfl
    · rw [if_neg hj, getElem?_set_ne (fun hc => hj hc.symm)]

theorem createNode_frame (name : Str) (ty : NodeType) (mode : BitVec 32) :
    (s.createNode name ty mode).2.toArena = s.toArena ∧
      (s.createNode name ty mode).2.rootIdx = s.rootIdx ∧
      (s.createNode name ty mode).2.fdInfo = s.fdInfo ∧
      (s.createNode name ty mode).2.arcs = s.arcs ∧
      (s.createNode name ty mode).2.cwdInfo = s.cwdInfo := by
  unfold createNode
  split <;> exact ⟨rfl, rfl, rfl, rfl, rfl⟩

end

theorem freeInRange_createNode (hr : s.FreeInRange) (name : Str) (ty : NodeType)
    (mode : BitVec 32) : (s.createNode name ty mode).2.FreeInRange := by
  intro i hi
  rw [nodeFreeList_createNode] at hi
  exact Nat.lt_of_lt_of_le (hr i (mem_of_mem_tail hi)) (length_createNode_le ..)

theorem children?_eq_some {n : Node} {ch : List DirEntry} :
    n.children? = some ch ↔ n.info = .dir ch := by
  unfold Node.children?
  constructor
  · intro h
    split at h
    next heq => rw [heq, Option.some.inj h]
    · cases h
  · intro h
    rw [h]

/-- Adding an entry: the directory grows by it, and the node learns its
    parent. -/
theorem addChild_ok {parent child : Nat} (h : s.addChild parent child = .ok s') :
    ∃ ch, (s.node parent).info = .dir ch ∧
      s' = (s.modifyNode parent fun n =>
        { n with info := .dir (ch ++ [⟨(s.node child).name, child⟩]) }).modifyNode child
          fun n => { n with parentIdx := parent } := by
  unfold addChild at h
  split at h
  · cases h
  rename_i ch hch
  cases h
  exact ⟨ch, children?_eq_some.mp hch, rfl⟩

theorem removeChild_ok (h : s.removeChild i = .ok s') :
    ∃ ch, (s.node (s.node i).parentIdx).info = .dir ch ∧
      s' = s.modifyNode (s.node i).parentIdx fun n =>
        { n with info := .dir (ch.filter fun e => e.name ≠ (s.node i).name) } := by
  unfold removeChild at h
  simp only at h
  split at h
  · cases h
  rename_i ch hch
  cases h
  exact ⟨ch, children?_eq_some.mp hch, rfl⟩

theorem reclaimNode_ok (h : s.reclaimNode i = .ok s') :
    ∃ a, s.toArena.reclaimChunkChain (s.chunkHead i) = .ok a ∧
      s' = { (s.modifyNode i fun n => { n with info := .free }) with
        toArena := a
        nodeFreeList := i :: s.nodeFreeList } := by
  unfold reclaimNode at h
  rcases (bind_eq_ok _ _ _).mp h with ⟨a, ha, hs⟩
  cases hs
  exact ⟨a, ha, rfl⟩

end ImfsState

/-- A link that stands for `.` or `..` of the root directory. -/
def rootDot (name : Str) : Node :=
  { Node.new name .lnk 0 with info := .hardLink 0 }

/-- The state `init` leaves: a root directory with its two entries. -/
def initState : ImfsState :=
  { emptyState with
    nodes := [{ Node.new ['/'] .dir 0o755 with
        info := .dir [⟨['.'], 1⟩, ⟨['.', '.'], 2⟩] }, rootDot ['.'], rootDot ['.', '.']] }

theorem init_eq : init = .ok initState := rfl

theorem initState_info (i : Nat) :
    (initState.node i).info =
      if i = 0 then .dir [⟨['.'], 1⟩, ⟨['.', '.'], 2⟩]
      else if i = 1 ∨ i = 2 then .hardLink 0 else .free := by
  rcases i with _ | _ | _ | i
  · rfl
  · rfl
  · rfl
  have hlen : initState.nodes.length ≤ i + 1 + 1 + 1 := by
    simp only [initState, length_cons, length_nil]
    omega
  rw [if_neg (by omega), if_neg (by omega), initState.node_of_length_le hlen]
  rfl

theorem initState_not_reg (i : Nat) (head tail : Option Nat) :
    (initState.node i).info ≠ .reg head tail := by
  rw [initState_info]
  intro h
  split at h
  · cases h
  · split at h <;> cases h

end LindGrates.Imfs
