import LindGrates.Theory.Imfs.Contents
import LindGrates.Theory.Imfs.Slot

/-!
# All Files at Once

The chunks of every regular file, and what an operation on one file does to the
others.

## Main definitions

* `FilesOk`: Each regular file has a chain that holds it, and the chains are apart. A slot
  may stop being a regular file at any time; its chunks are then simply lost.
* `Stored`: At most the data of one file differs.

## Theorems

* `readFromNode_spec`, `writeToNode_spec`, `truncateNode_spec`: The data calls return,
  with what results.
* `filesOk_update`: The frame rule.
* `filesOk_writeToNode`, `filesOk_truncateNode`, `filesOk_reclaimNode`: The calls keep
  the invariant.
-/

namespace LindGrates.Imfs

open ImfsState Function List

variable {a' : Arena} {size n newSize : Nat} {M : List Nat} {buf : List UInt8}

/-- Every regular-file slot `i` is held by the chunks of `chain i`, and no two
    share a chunk. -/
structure FilesOk (s : ImfsState) (chain : Nat → List Nat) : Prop where
  free_nodup : s.chunkFreeList.Nodup
  free_range : ∀ c ∈ s.chunkFreeList, c < s.chunks.length
  holds : ∀ i head tail, (s.node i).info = .reg head tail →
    Holds s.toArena head tail (s.node i).totalSize (chain i)
  disjoint : ∀ i j hi ti hj tj, (s.node i).info = .reg hi ti → (s.node j).info = .reg hj tj →
    i ≠ j → ∀ c ∈ chain i, c ∉ chain j

variable {a : Arena} {head tail : Option Nat} {L L' : List Nat} {s s' : ImfsState}
  {chain : Nat → List Nat} {i : Nat}

theorem holds_of_within (h : Holds a head tail size M)
    (hw : Within a L a' L') (hML : ∀ c ∈ L, c ∉ M) (hn : a'.chunkFreeList.Nodup)
    (hr : ∀ c ∈ a'.chunkFreeList, c < a'.chunks.length) : Holds a' head tail size M := by
  have hsame : ∀ c ∈ M, a'.chunk c = a.chunk c := fun c hc =>
    hw.same c (h.range c hc) (fun hL => hML c hL hc) (h.notFree c hc)
  refine ⟨⟨linked_congr h.linked fun c hc => by rw [hsame c hc], h.tail_eq, fun c hc => ?_,
    fun c hc hf => ?_, hn, hr⟩, h.length_eq, fun k c hc => ?_⟩
  · exact Nat.lt_of_lt_of_le (h.range c hc) hw.length_le
  · rcases hw.source c (.inr hf) with hL | hF | hge
    · exact hML c hL hc
    · exact h.notFree c hc hF
    · have := h.range c hc
      omega
  · rw [hsame c (mem_of_getElem? hc)]
    exact h.used_eq k c hc

theorem byteAt_of_within (h : Owned a head tail M)
    (hw : Within a L a' L') (hML : ∀ c ∈ L, c ∉ M) (p : Nat) : byteAt a' M p = byteAt a M p := by
  unfold byteAt
  rcases hc : M[p / chunkSize]? with _ | c
  · rfl
  have hmem : c ∈ M := mem_of_getElem? hc
  simp only [hw.same c (h.range c hmem) (fun hL => hML c hL hmem) (h.notFree c hmem)]

/-- The frame rule. The chain of slot `i` goes from `L` to `L'`; every other
    regular file was one before, with the same ends and size. -/
theorem filesOk_update (s' : ImfsState) (h : FilesOk s chain)
    (hw : Within s.toArena L s'.toArena L')
    (hL : ∀ j hj tj, (s.node j).info = .reg hj tj → j ≠ i → ∀ c ∈ L, c ∉ chain j)
    (hn : s'.chunkFreeList.Nodup) (hr : ∀ c ∈ s'.chunkFreeList, c < s'.chunks.length)
    (hother : ∀ j, j ≠ i → ∀ hj tj, (s'.node j).info = .reg hj tj →
      (s.node j).info = .reg hj tj ∧ (s'.node j).totalSize = (s.node j).totalSize)
    (hself : ∀ hi ti, (s'.node i).info = .reg hi ti →
      Holds s'.toArena hi ti (s'.node i).totalSize L') : FilesOk s' (update chain i L') := by
  -- No chunk of the new chain belongs to another file.
  have hnew : ∀ j hj tj, (s'.node j).info = .reg hj tj → j ≠ i → ∀ c ∈ L', c ∉ chain j := by
    intro j hj tj hinfo hji c hc hcj
    rcases hother j hji hj tj hinfo with ⟨hold, _⟩
    have hholds := h.holds j hj tj hold
    rcases hw.source c (.inl hc) with hcL | hcF | hge
    · exact hL j hj tj hold hji c hcL hcj
    · exact hholds.notFree c hcj hcF
    · have := hholds.range c hcj
      omega
  refine ⟨hn, hr, fun j hj tj hinfo => ?_, fun j k hj tj hk tk hinfoj hinfok hjk c hc => ?_⟩
  · by_cases hji : j = i
    · rw [hji] at hinfo ⊢
      rw [update_self]
      exact hself hj tj hinfo
    rcases hother j hji hj tj hinfo with ⟨hold, hsize⟩
    rw [update_of_ne hji, hsize]
    exact holds_of_within (h.holds j hj tj hold) hw (hL j hj tj hold hji) hn hr
  · by_cases hji : j = i
    · rw [hji, update_self] at hc
      rw [update_of_ne (fun hki => hjk (hji.trans hki.symm))]
      exact hnew k hk tk hinfok (fun hki => hjk (hji.trans hki.symm)) c hc
    rw [update_of_ne hji] at hc
    by_cases hki : k = i
    · rw [hki, update_self]
      exact fun hcL => hnew j hj tj hinfoj hji c hcL hc
    rw [update_of_ne hki]
    rcases hother j hji hj tj hinfoj with ⟨holdj, _⟩
    rcases hother k hki hk tk hinfok with ⟨holdk, _⟩
    exact h.disjoint j k hj tj hk tk holdj holdk hjk c hc

theorem filesOk_congr (h : FilesOk s chain) (harena : s'.toArena = s.toArena)
    (hnodes : s'.nodes = s.nodes) : FilesOk s' chain := by
  have hnode : ∀ i, s'.node i = s.node i := fun i => by rw [node, node, hnodes]
  refine ⟨?_, ?_, fun i hi ti hinfo => ?_, fun i j hi ti hj tj hinfoi hinfoj => ?_⟩
  · rw [harena]
    exact h.free_nodup
  · rw [harena]
    exact h.free_range
  · rw [hnode] at hinfo ⊢
    rw [harena]
    exact h.holds i hi ti hinfo
  · rw [hnode] at hinfoi hinfoj
    exact h.disjoint i j hi ti hj tj hinfoi hinfoj

theorem filesOk_modifyNode (h : FilesOk s chain) (i : Nat) (f : Node → Node)
    (hf : ∀ hi ti, (f (s.node i)).info = .reg hi ti →
      (s.node i).info = .reg hi ti ∧ (f (s.node i)).totalSize = (s.node i).totalSize) :
    FilesOk (s.modifyNode i f) chain := by
  by_cases hlt : i < s.nodes.length
  · have hback : ∀ j hj tj, ((s.modifyNode i f).node j).info = .reg hj tj →
        (s.node j).info = .reg hj tj ∧
          ((s.modifyNode i f).node j).totalSize = (s.node j).totalSize := by
      intro j hj tj hinfo
      rw [s.node_modifyNode f j hlt] at hinfo ⊢
      by_cases hji : j = i
      · rw [if_pos hji] at hinfo ⊢
        rw [hji]
        exact hf hj tj hinfo
      · rw [if_neg hji] at hinfo ⊢
        exact ⟨hinfo, rfl⟩
    refine ⟨h.free_nodup, h.free_range, fun j hj tj hinfo => ?_,
      fun j k hj tj hk tk hinfoj hinfok => ?_⟩
    · rcases hback j hj tj hinfo with ⟨hold, hsize⟩
      rw [hsize]
      exact h.holds j hj tj hold
    · exact h.disjoint j k hj tj hk tk (hback j hj tj hinfoj).1 (hback k hk tk hinfok).1
  · rw [s.modifyNode_of_length_le f (Nat.le_of_not_lt hlt)]
    exact h

theorem node_setFile (s : ImfsState) (a : Arena) (head tail : Option Nat) (size : Nat)
    (hi : i < s.nodes.length) (j : Nat) :
    (s.setFile i a head tail size).node j =
      if j = i then { s.node i with info := .reg head tail, totalSize := size } else s.node j :=
  s.node_modifyNode _ j hi

theorem filesOk_setFile (h : FilesOk s chain) {head' tail' : Option Nat}
    (hinfo : (s.node i).info = .reg head tail) (hw : Within s.toArena (chain i) a L')
    (hh : Holds a head' tail' size L') :
    FilesOk (s.setFile i a head' tail' size) (update chain i L') := by
  have hlt : i < s.nodes.length := lt_of_info_ne_free (by simp [hinfo])
  refine filesOk_update (s.setFile i a head' tail' size) h hw
    (fun j hj tj hinfoj hji => ?_) hh.free_nodup hh.free_range
    (fun j hji hj tj hinfoj => ?_) fun hi ti hinfoi => ?_
  · exact h.disjoint i j head tail hj tj hinfo hinfoj (fun hij => hji hij.symm)
  · rw [node_setFile s a head' tail' size hlt j, if_neg hji] at hinfoj ⊢
    exact ⟨hinfoj, rfl⟩
  · rw [node_setFile s a head' tail' size hlt i, if_pos rfl] at hinfoi ⊢
    simp only [NodeInfo.reg.injEq] at hinfoi
    rw [← hinfoi.1, ← hinfoi.2]
    exact hh

theorem holds_empty (hn : a.chunkFreeList.Nodup) (hr : ∀ c ∈ a.chunkFreeList, c < a.chunks.length) :
    Holds a none none 0 [] :=
  ⟨⟨linked_nil _, rfl, fun _ hc => absurd hc not_mem_nil,
    fun _ hc => absurd hc not_mem_nil, hn, hr⟩, rfl,
    fun k c hc => by simp only [List.getElem?_nil, reduceCtorEq] at hc⟩

/-- A new regular file is empty and takes no chunk from anyone. -/
theorem filesOk_createNode (h : FilesOk s chain) (hr : s.FreeInRange) (name : Str) (ty : NodeType)
    (mode : BitVec 32) : FilesOk (s.createNode name ty mode).2 (update chain s.nextSlot []) := by
  have harena := (s.createNode_frame name ty mode).1
  have hnode := s.node_createNode name ty mode hr
  have hw : Within s.toArena [] (s.createNode name ty mode).2.toArena [] := by
    rw [harena]
    exact within_refl s.toArena []
  refine filesOk_update _ h hw (fun _ _ _ _ _ _ hc => absurd hc not_mem_nil) ?_ ?_
    (fun j hji hj tj hinfo => ?_) fun hi ti hinfo => ?_
  · rw [harena]
    exact h.free_nodup
  · rw [harena]
    exact h.free_range
  · rw [hnode j, if_neg hji] at hinfo ⊢
    exact ⟨hinfo, rfl⟩
  · rw [hnode s.nextSlot, if_pos rfl] at hinfo ⊢
    rw [harena]
    have hends : hi = none ∧ ti = none := by
      cases ty <;> simp only [Node.new, NodeType.emptyInfo, NodeInfo.reg.injEq, reduceCtorEq]
        at hinfo
      exact ⟨hinfo.1.symm, hinfo.2.symm⟩
    rw [hends.1, hends.2]
    exact holds_empty h.free_nodup h.free_range

theorem filesOk_initState : FilesOk initState fun _ => [] where
  free_nodup := nodup_nil
  free_range := nofun
  holds i head tail hi := absurd hi (initState_not_reg i head tail)
  disjoint i _ head tail _ _ hi := absurd hi (initState_not_reg i head tail)

/-- Freeing a slot returns its chunks and always succeeds. The bytes of the
    other files stay. -/
theorem filesOk_reclaimNode (h : FilesOk s chain) (i : Nat) :
    ∃ s', s.reclaimNode i = .ok s' ∧ FilesOk s' (update chain i []) ∧
      ∀ j hj tj, (s.node j).info = .reg hj tj → j ≠ i →
        ∀ p, byteAt s'.toArena (chain j) p = byteAt s.toArena (chain j) p := by
  -- A slot that is no regular file has no chain to return.
  have hclear : ∃ L a, s.toArena.reclaimChunkChain (s.chunkHead i) = .ok a ∧
      Holds a none none 0 [] ∧ Within s.toArena L a [] ∧
      ∀ j hj tj, (s.node j).info = .reg hj tj → j ≠ i → ∀ c ∈ L, c ∉ chain j := by
    cases hinfo : (s.node i).info with
    | reg head tail =>
      rcases clear_spec (h.holds i head tail hinfo).toOwned with ⟨a, ha, hh, hw⟩
      refine ⟨chain i, a, by simp only [chunkHead, hinfo]; exact ha, hh, hw, ?_⟩
      exact fun j hj tj hinfoj hji =>
        h.disjoint i j head tail hj tj hinfo hinfoj fun hij => hji hij.symm
    | _ =>
      rcases clear_spec (holds_empty h.free_nodup h.free_range).toOwned with ⟨a, ha, hh, hw⟩
      refine ⟨[], a, by simp only [chunkHead, hinfo]; exact ha, hh, hw, ?_⟩
      exact fun _ _ _ _ _ c hc => absurd hc not_mem_nil
  rcases hclear with ⟨L, a, ha, hh, hw, hL⟩
  refine ⟨_, by rw [reclaimNode, ha]; rfl, ?_, fun j hj tj hinfoj hji =>
    byteAt_of_within (h.holds j hj tj hinfoj).toOwned hw (hL j hj tj hinfoj hji)⟩
  by_cases hlt : i < s.nodes.length
  · have hnode := fun j => s.node_modifyNode (fun n => { n with info := .free }) j hlt
    refine filesOk_update _ h hw hL hh.free_nodup hh.free_range
      (fun j hji hj tj hinfo => ?_) fun hi ti hinfo => ?_
    · have hj' := hnode j
      rw [if_neg hji] at hj'
      exact ⟨hj' ▸ hinfo, congrArg Node.totalSize hj'⟩
    · have hi' := hnode i
      rw [if_pos rfl] at hi'
      have : NodeInfo.free = .reg hi ti := (congrArg Node.info hi').symm.trans hinfo
      cases this
  · have hle := Nat.le_of_not_lt hlt
    have hvac := s.node_of_length_le hle
    rw [s.modifyNode_of_length_le _ hle]
    refine filesOk_update _ h hw hL hh.free_nodup hh.free_range
      (fun j hji hj tj hinfo => ⟨hinfo, rfl⟩) fun hi ti hinfo => ?_
    have : NodeInfo.free = .reg hi ti := (congrArg Node.info hvac).symm.trans hinfo
    cases this

/-- At most the data of the regular file in slot `i` differs. -/
def Stored (s : ImfsState) (i : Nat) (s' : ImfsState) : Prop :=
  s' = s ∨ ∃ head tail a head' tail' size, (s.node i).info = .reg head tail ∧
    s' = s.setFile i a head' tail' size

theorem stored_writeToNode {off : Nat}
    (h : s.writeToNode i off buf = .ok (n, s')) : Stored s i s' := by
  unfold writeToNode at h
  split at h
  · cases h
    exact .inl rfl
  split at h
  next head tail hinfo =>
    rcases (bind_eq_ok _ _ _).mp h with ⟨r, _, h⟩
    rcases (bind_eq_ok _ _ _).mp h with ⟨w, _, h⟩
    cases h
    exact .inr ⟨head, tail, _, _, _, _, hinfo, rfl⟩
  · cases h
    exact .inl rfl

theorem stored_truncateNode (h : s.truncateNode i n = .ok s') : Stored s i s' := by
  unfold truncateNode at h
  simp only at h
  split at h
  · cases h
    exact .inl rfl
  split at h
  · rcases (bind_eq_ok _ _ _).mp h with ⟨⟨m, s1⟩, hw, h⟩
    cases h
    exact stored_writeToNode hw
  split at h
  next head tail hinfo =>
    split at h
    · rcases (bind_eq_ok _ _ _).mp h with ⟨a, _, h⟩
      cases h
      exact .inr ⟨head, tail, _, _, _, _, hinfo, rfl⟩
    rcases (bind_eq_ok _ _ _).mp h with ⟨t, _, h⟩
    split at h
    · rcases (bind_eq_ok _ _ _).mp h with ⟨a, _, h⟩
      cases h
      exact .inr ⟨head, tail, _, _, _, _, hinfo, rfl⟩
    · split at h <;> cases h <;> exact .inr ⟨head, tail, _, _, _, _, hinfo, rfl⟩
  · cases h
    exact .inl rfl

section Calls

variable {s : ImfsState} {chain : Nat → List Nat} {i : Nat} {head tail : Option Nat}

/-- A read gives the bytes of the chain that the size covers. -/
theorem readFromNode_spec (h : FilesOk s chain) (hinfo : (s.node i).info = .reg head tail)
    (off len : Nat) :
    s.readFromNode i off len =
      .ok (((contents s.toArena (chain i) (s.node i).totalSize).drop off).take len) := by
  have hh := h.holds i head tail hinfo
  by_cases hoff : off ≥ (s.node i).totalSize
  · rw [readFromNode, if_pos hoff, drop_of_length_le, take_nil]
    rw [contents, length_map, length_range]
    exact hoff
  have hlt : off < (s.node i).totalSize := Nat.lt_of_not_le hoff
  simp only [readFromNode, if_neg hoff, hinfo, skipPass_spec hh hlt]
  have hread := readPass_spec hh off (min len ((s.node i).totalSize - off)) (by omega)
  have hslice : ((contents s.toArena (chain i) (s.node i).totalSize).drop off).take len =
      (List.range (min len ((s.node i).totalSize - off))).map
        fun j => byteAt s.toArena (chain i) (off + j) := by
    refine ext_getElem ?_ fun j h1 h2 => ?_
    · simp only [contents, length_take, length_drop, length_map, length_range]
    · simp only [contents, getElem_take, getElem_drop, getElem_map, getElem_range]
  rw [hslice]
  exact (okOr_eq_ok _ _ _).mpr hread

/-- A write of at least one byte returns its length and gives the file a chain
    for the new size. -/
theorem writeToNode_spec (h : FilesOk s chain) (hinfo : (s.node i).info = .reg head tail)
    (off : Nat) (hb : buf ≠ []) :
    ∃ a head' tail' L', s.writeToNode i off buf = .ok (buf.length,
        s.setFile i a head' tail' (max (s.node i).totalSize (off + buf.length))) ∧
      Within s.toArena (chain i) a L' ∧
      Holds a head' tail' (max (s.node i).totalSize (off + buf.length)) L' ∧
      Taken s.toArena (L'.length - (chain i).length) a ∧
      ∀ p, byteAt a L' p =
        byteAfter s.toArena (chain i) (s.node i).totalSize off buf buf.length p := by
  have hh := h.holds i head tail hinfo
  rcases writeLoops_spec hh off hb with
    ⟨ci, lo, a', w, L', hskip, hwrite, hdone, hholds, hwithin, htaken, hbyte⟩
  refine ⟨w.arena, w.head, w.tail, L', ?_, hwithin, hholds, htaken, hbyte⟩
  simp only [writeToNode, if_neg hb, hinfo, hskip]
  change (do
    let w ← okOr Fault.hang (loop (writePass buf) (off / chunkSize + buf.length + 2)
      ⟨a', head, tail, ⟨ci, lo, 0⟩⟩)
    return (w.cur.done, s.setFile i w.arena w.head w.tail
      (max (s.node i).totalSize (off + w.cur.done)))) = _
  rw [hwrite]
  change Except.ok (w.cur.done, s.setFile i w.arena w.head w.tail
      (max (s.node i).totalSize (off + w.cur.done))) = _
  rw [hdone]

/-- A truncation to a smaller size keeps the chunks up to the new end, with
    everything in them. -/
theorem truncateNode_spec (h : FilesOk s chain) (hinfo : (s.node i).info = .reg head tail)
    (hlt : newSize < (s.node i).totalSize) :
    ∃ a head' tail' L', s.truncateNode i newSize = .ok (s.setFile i a head' tail' newSize) ∧
      Within s.toArena (chain i) a L' ∧ Holds a head' tail' newSize L' ∧
      ∀ p, byteAt a L' p =
        if p < chunkSize * ((newSize + (chunkSize - 1)) / chunkSize)
        then byteAt s.toArena (chain i) p else 0 := by
  have hh := h.holds i head tail hinfo
  have hne : newSize ≠ (s.node i).totalSize := Nat.ne_of_lt hlt
  have hngt : ¬ newSize > (s.node i).totalSize := Nat.not_lt_of_le (Nat.le_of_lt hlt)
  by_cases hz : newSize = 0
  · rcases clear_spec hh.toOwned with ⟨a, ha, hempty, hw⟩
    refine ⟨a, none, none, [], ?_, hw, by rw [hz]; exact hempty, fun p => ?_⟩
    · simp only [truncateNode, if_neg hne, if_neg hngt, hinfo, if_pos hz, ha]
      rw [hz]
      rfl
    · rw [hz, if_neg (by simp only [chunkSize]; omega)]
      rfl
  -- The cut falls into the chunk with the last kept byte.
  rcases truncPass_spec hh (Nat.pos_of_ne_zero hz) hlt with ⟨last, hloop⟩
  have hm : ∃ c, (chain i)[(newSize - 1) / chunkSize]? = some c := by
    have hL := hh.length_eq
    have hk : (newSize - 1) / chunkSize < (chain i).length := by
      simp only [chunkSize] at hL ⊢
      omega
    exact ⟨_, List.getElem?_eq_getElem hk⟩
  rcases hm with ⟨c, hc⟩
  rcases cut_spec hh.toOwned hc (newSize - chunkSize * ((newSize - 1) / chunkSize)) with
    ⟨a, ha, hown, hw, hkept⟩
  have hceil : (newSize + (chunkSize - 1)) / chunkSize = (newSize - 1) / chunkSize + 1 := by
    simp only [chunkSize]
    omega
  refine ⟨a, head, some c, (chain i).take ((newSize - 1) / chunkSize + 1), ?_, hw,
    ⟨hown, ?_, fun k j hj => ?_⟩, fun p => ?_⟩
  · rw [hc] at hloop
    simp only [truncateNode, if_neg hne, if_neg hngt, hinfo, if_neg hz, hloop]
    change (do
      let a ← (s.toArena.modifyChunk c fun k => { k with
        used := newSize - chunkSize * ((newSize - 1) / chunkSize),
        next := none }).reclaimChunkChain (s.chunk c).next
      return s.setFile i a head (some c) newSize) = _
    rw [ha]
    rfl
  · have hmlt := (List.getElem?_eq_some_iff.mp hc).1
    rw [hceil, length_take]
    omega
  · have hjmem := mem_of_getElem? hj
    have hklt : k < (newSize - 1) / chunkSize + 1 := by
      have := (List.getElem?_eq_some_iff.mp hj).1
      rw [length_take] at this
      omega
    rw [List.getElem?_take_of_lt hklt] at hj
    rw [(hkept j hjmem).2]
    by_cases hjc : j = c
    · have hk : k = (newSize - 1) / chunkSize := by
        refine (List.getElem?_inj ?_ (linked_nodup hh.linked)).mp (hj.trans (hjc ▸ hc.symm))
        exact (List.getElem?_eq_some_iff.mp hj).1
      rw [if_pos hjc, hk]
      simp only [chunkSize]
      omega
    have hk : k ≠ (newSize - 1) / chunkSize := by
      intro hk
      rw [hk, hc] at hj
      exact hjc (Option.some.inj hj).symm
    rw [if_neg hjc, hh.used_eq k j hj]
    simp only [chunkSize] at hk hklt ⊢
    omega
  · rw [hceil]
    exact byteAt_take (fun j hj => (hkept j hj).1) p

theorem truncateNode_extend (hgt : (s.node i).totalSize < newSize) :
    s.truncateNode i newSize = (do
      let (_, s') ← s.writeToNode i (newSize - 1) [0]
      return s') := by
  rw [truncateNode]
  rw [if_neg (Nat.ne_of_gt hgt), if_pos hgt]

end Calls

theorem filesOk_writeToNode (h : FilesOk s chain) (i off : Nat) (buf : List UInt8) :
    ∃ n s' chain', s.writeToNode i off buf = .ok (n, s') ∧ FilesOk s' chain' := by
  by_cases hb : buf = []
  · exact ⟨0, s, chain, by rw [writeToNode, if_pos hb], h⟩
  cases hinfo : (s.node i).info with
  | reg =>
    rcases writeToNode_spec h hinfo off hb with ⟨a, head', tail', L', hrun, hw, hh, _⟩
    exact ⟨_, _, _, hrun, filesOk_setFile h hinfo hw hh⟩
  | _ => exact ⟨0, s, chain, by simp only [writeToNode, if_neg hb, hinfo], h⟩

theorem filesOk_truncateNode (h : FilesOk s chain) (i newSize : Nat) :
    ∃ s' chain', s.truncateNode i newSize = .ok s' ∧ FilesOk s' chain' := by
  rcases Nat.lt_trichotomy newSize (s.node i).totalSize with hlt | heq | hgt
  · cases hinfo : (s.node i).info with
    | reg =>
      rcases truncateNode_spec h hinfo hlt with ⟨a, head', tail', L', hrun, hw, hh, _⟩
      exact ⟨_, _, hrun, filesOk_setFile h hinfo hw hh⟩
    | _ =>
      refine ⟨s, chain, ?_, h⟩
      simp only [truncateNode, if_neg (Nat.ne_of_lt hlt), if_neg (Nat.lt_asymm hlt), hinfo]
  · exact ⟨s, chain, by simp only [truncateNode, if_pos heq], h⟩
  · rcases filesOk_writeToNode h i (newSize - 1) [0] with ⟨n, s', chain', hrun, h'⟩
    exact ⟨s', chain', by rw [truncateNode_extend hgt, hrun]; rfl, h'⟩

end LindGrates.Imfs
