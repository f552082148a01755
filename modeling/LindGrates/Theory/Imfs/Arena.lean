import LindGrates.Theory.Imfs.Range

/-!
# The Chunk Arena

The arena is a `Vec` of chunks with a stack of free ones. Three loops relink,
cut and recycle these lists; what they must never do is let two files share a
chunk, hand out a chunk in use, or leave a list whose length and watermarks
disagree with the size the node reports.

## Main definitions

* `ArenaShape`: How the chunks are shared out between the regular files.

## Theorems

* `arenaShape_of_reachable`: They are, in every state of every run.
* `indices_in_range`: No index the grate stores leads out of its vector.
-/

namespace LindGrates.Imfs

open FdTables ImfsState

/-- The chunks of the regular file in slot `i` are those of `chain i`. -/
structure ArenaShape (s : ImfsState) (chain : Nat → List Nat) : Prop where
  free_nodup : s.chunkFreeList.Nodup
  linked : ∀ i head tail, (s.node i).info = .reg head tail →
    Linked (fun c => (s.chunk c).next) head (chain i)
  nodup : ∀ i head tail, (s.node i).info = .reg head tail → (chain i).Nodup
  tail_eq : ∀ i head tail, (s.node i).info = .reg head tail → tail = (chain i).getLast?
  disjoint : ∀ i j head tail head' tail', (s.node i).info = .reg head tail →
    (s.node j).info = .reg head' tail' → i ≠ j → ∀ c ∈ chain i, c ∉ chain j
  notFree : ∀ i head tail, (s.node i).info = .reg head tail →
    ∀ c ∈ chain i, c < s.chunks.length ∧ c ∉ s.chunkFreeList
  length_eq : ∀ i head tail, (s.node i).info = .reg head tail →
    (chain i).length = ((s.node i).totalSize + 1023) / 1024
  used_full : ∀ i head tail, (s.node i).info = .reg head tail →
    ∀ c ∈ (chain i).dropLast, (s.chunk c).used = 1024
  used_last : ∀ i head tail, (s.node i).info = .reg head tail →
    ∀ c, (chain i).getLast? = some c →
      (s.chunk c).used = (s.node i).totalSize - 1024 * ((chain i).length - 1)

theorem used_of_holds {a : Arena} {head tail : Option Nat} {size : Nat} {L : List Nat}
    (h : Holds a head tail size L) :
    (∀ c ∈ L.dropLast, (a.chunk c).used = chunkSize) ∧
      ∀ c, L.getLast? = some c → (a.chunk c).used = size - chunkSize * (L.length - 1) := by
  have hlen := h.length_eq
  constructor
  · intro c hc
    rcases List.mem_iff_getElem?.mp hc with ⟨k, hk⟩
    have hlt : k < L.dropLast.length := (List.getElem?_eq_some_iff.mp hk).1
    rw [List.length_dropLast] at hlt
    rw [List.getElem?_dropLast, if_pos (by omega)] at hk
    rw [h.used_eq k c hk]
    simp only [chunkSize] at hlen ⊢
    omega
  · intro c hc
    rw [List.getLast?_eq_getElem?] at hc
    have hlt : L.length - 1 < L.length := (List.getElem?_eq_some_iff.mp hc).1
    rw [h.used_eq _ c hc]
    simp only [chunkSize] at hlen ⊢
    omega

theorem arenaShape_of_filesOk {s : ImfsState} {chain : Nat → List Nat} (h : FilesOk s chain) :
    ArenaShape s chain where
  free_nodup := h.free_nodup
  linked i head tail hi := (h.holds i head tail hi).linked
  nodup i head tail hi := linked_nodup (h.holds i head tail hi).linked
  tail_eq i head tail hi := (h.holds i head tail hi).tail_eq
  disjoint i j head tail head' tail' hi hj hij := h.disjoint i j head tail head' tail' hi hj hij
  notFree i head tail hi c hc :=
    ⟨(h.holds i head tail hi).range c hc, (h.holds i head tail hi).notFree c hc⟩
  length_eq i head tail hi := (h.holds i head tail hi).length_eq
  used_full i head tail hi := (used_of_holds (h.holds i head tail hi)).1
  used_last i head tail hi := (used_of_holds (h.holds i head tail hi)).2

/-- In every state of every run, the regular files share out the chunks. -/
theorem arenaShape_of_reachable {T : Type} [FdTables T] [LawfulFdTables T] {w : World T}
    (hw : Reachable Unrestricted w) : ∃ chain, ArenaShape w.fs chain := by
  rcases (inRange_of_reachable hw).fit.files with ⟨chain, hfiles⟩
  exact ⟨chain, arenaShape_of_filesOk hfiles⟩

/-- Two files written in turn, one of them cut and then unlinked. -/
def arenaRun : List Call :=
  [.preexec 1,
    .openPath 1 ['/', 'a'] (oCreat ||| oRdwr) 0o644#32,
    .openPath 1 ['/', 'b'] (oCreat ||| oRdwr) 0o644#32,
    .pwrite 1 3 ⟨[1, 2, 3], by decide⟩ 1500,
    .pwrite 1 4 ⟨[4, 5], by decide⟩ 0,
    .ftruncate 1 3 1100,
    .unlink 1 ['/', 'b'],
    .close 1 4]

theorem arenaShape_of_arenaRun :
    let s := (arenaRun.foldl serve (boot 1024)).fs
    (s.node 3).info = .reg (some 0) (some 1) ∧ (s.node 3).totalSize = 1100 ∧
      s.chunkFreeList = [2] ∧ ∃ chain, ArenaShape s chain := by
  refine ⟨by decide +kernel, by decide +kernel, by decide +kernel, ?_⟩
  exact arenaShape_of_reachable
    (reachable_foldl_serve arenaRun (.start _ (initial_boot 1024)) (by decide +kernel))

/-- No index the grate stores leads out of its vector, in any state of any run. -/
theorem indices_in_range {T : Type} [FdTables T] [LawfulFdTables T] {w : World T}
    (hw : Reachable Unrestricted w) :
    w.fs.rootIdx < w.fs.nodes.length ∧ (∀ i ∈ w.fs.nodeFreeList, i < w.fs.nodes.length) ∧
      (∀ i < w.fs.nodes.length, (w.fs.node i).parentIdx < w.fs.nodes.length) ∧
      (∀ i children, (w.fs.node i).info = .dir children →
        ∀ e ∈ children, e.nodeIdx < w.fs.nodes.length) ∧
      (∀ i target, (w.fs.node i).info = .hardLink target → target < w.fs.nodes.length) ∧
      (∀ cage fd e, translateVirtualFd w.fds cage fd = some e → e.underfd < w.fs.nodes.length) ∧
      ∀ k arc, w.fs.fdInfo k = some arc → arc < w.fs.arcs.length := by
  have h := inRange_of_reachable hw
  exact ⟨h.fit.root, h.fit.free, h.fit.parents, h.fit.entries, h.fit.links, h.fds, h.arcs⟩

theorem indices_in_range_arenaRun :
    let w := arenaRun.foldl serve (boot 1024)
    w.fs.nodeFreeList = [4] ∧ ∀ i ∈ w.fs.nodeFreeList, i < w.fs.nodes.length :=
  ⟨by decide +kernel, (indices_in_range
    (reachable_foldl_serve arenaRun (.start _ (initial_boot 1024)) (by decide +kernel))).2.1⟩

end LindGrates.Imfs
