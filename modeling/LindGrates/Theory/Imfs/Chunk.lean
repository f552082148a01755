import LindGrates.Base.Linked
import LindGrates.Core.Imfs.Data
import Mathlib.Data.List.GetD

/-!
# Chunks of One File

## Main definitions

* `byteAt`: The byte at a position of a chain, whether or not the size covers it.
* `Owned`: A chain of allocated chunks, linked from its head to its tail.
* `Holds`: The chain has exactly enough chunks for a size, and the watermark of the chunk
  at position `k` is what is left after `k` full ones, at most one chunk's worth.
* `Within`: The frame condition: an operation on a chain leaves every chunk alone that is
  neither in it nor free, and ends up with chunks from there or beyond the old arena.

## Theorems

* `byteAt_modifyChunk`, `fill_data`: The bytes after one chunk has changed.
* `owned_grow`: A chunk is allocated behind the tail.
-/

namespace LindGrates.Imfs

open List Arena Chunk WriteState

variable {a : Arena} {head tail : Option Nat} {w : WriteState}

theorem getD_overwrite {α : Type} (l : List α) (off : Nat) (src : List α) (j : Nat) (d : α) :
    (overwrite l off src).getD j d =
      if j < l.length ∧ off ≤ j ∧ j < off + src.length then src.getD (j - off) d
      else l.getD j d := by
  have hhead : (l.take off).length = min off l.length := length_take
  have hbody : (l.take off ++ src.take (l.length - off)).length =
      min off l.length + min (l.length - off) src.length := by
    rw [length_append, hhead, length_take]
  simp only [overwrite, getD_eq_getElem?_getD]
  by_cases hlow : j < off
  · rw [if_neg (by omega)]
    by_cases hj : j < l.length
    · rw [getElem?_append_left (by omega), getElem?_append_left (by omega),
        getElem?_take_of_lt hlow]
    · rw [getElem?_eq_none_iff.mpr (by rw [length_append, length_drop]; omega),
        getElem?_eq_none_iff.mpr (Nat.le_of_not_lt hj)]
  by_cases hmid : j < l.length ∧ j < off + src.length
  · rw [if_pos ⟨hmid.1, Nat.le_of_not_lt hlow, hmid.2⟩,
      getElem?_append_left (by omega), getElem?_append_right (by omega), hhead,
      getElem?_take_of_lt (by omega), Nat.min_eq_left (by omega)]
  rw [if_neg (by omega)]
  by_cases hj : j < l.length
  · rw [getElem?_append_right (by omega), hbody, getElem?_drop]
    rw [show off + src.length + (j - (min off l.length + min (l.length - off) src.length)) = j
      by omega]
  · rw [getElem?_eq_none_iff.mpr (by rw [length_append, length_drop]; omega),
      getElem?_eq_none_iff.mpr (Nat.le_of_not_lt hj)]

namespace Arena

@[simp] theorem length_modifyChunk (a : Arena) (i : Nat) (f : Chunk → Chunk) :
    (a.modifyChunk i f).chunks.length = a.chunks.length := by
  simp only [modifyChunk, length_modify]

@[simp] theorem free_modifyChunk (a : Arena) (i : Nat) (f : Chunk → Chunk) :
    (a.modifyChunk i f).chunkFreeList = a.chunkFreeList := rfl

theorem chunk_modifyChunk (a : Arena) (i : Nat) (f : Chunk → Chunk) (j : Nat)
    (hi : i < a.chunks.length) :
    (a.modifyChunk i f).chunk j = if j = i then f (a.chunk i) else a.chunk j := by
  by_cases hj : j = i
  · rw [if_pos hj, hj]
    simp only [chunk, modifyChunk, getD_eq_getElem?_getD, getElem?_modify_eq,
      getElem?_eq_getElem hi]
    rfl
  rw [if_neg hj]
  simp only [chunk, modifyChunk, getD_eq_getElem?_getD]
  rw [getElem?_modify_ne f a.chunks (fun hc => hj hc.symm)]

theorem chunk_set (l : List Chunk) (i : Nat) (k : Chunk) (j : Nat) (fl : List Nat)
    (hi : i < l.length) :
    (mk (l.set i k) fl).chunk j = if j = i then k else (mk l fl).chunk j := by
  by_cases hj : j = i
  · rw [if_pos hj, hj]
    simp only [chunk, getD_eq_getElem?_getD, getElem?_set_self hi, Option.getD_some]
  rw [if_neg hj]
  simp only [chunk, getD_eq_getElem?_getD]
  rw [getElem?_set_ne (fun hc => hj hc.symm)]

theorem chunk_snoc (l : List Chunk) (fl : List Nat) (j : Nat) :
    (mk (l ++ [new]) fl).chunk j = (mk l fl).chunk j := by
  simp only [chunk, getD_eq_getElem?_getD]
  by_cases hj : j < l.length
  · rw [getElem?_append_left hj]
  rw [getElem?_append_right (by omega),
    getElem?_eq_none_iff.mpr (show l.length ≤ j by omega)]
  cases j - l.length with
  | zero | succ => rfl

section

variable (a : Arena)

theorem chunk_allocChunk (hr : ∀ c ∈ a.chunkFreeList, c < a.chunks.length) (j : Nat) :
    a.allocChunk.2.chunk j = if j = a.allocChunk.1 then new else a.chunk j := by
  obtain ⟨l, fl⟩ := a
  cases fl with
  | nil =>
    -- Past the end of the arena a read already gives a new chunk.
    have hend : (mk l []).chunk l.length = new := by
      rw [chunk, getD_eq_default _ _ (Nat.le_refl _)]
    change (mk (l ++ [new]) []).chunk j =
      if j = l.length then new else (mk l []).chunk j
    rw [chunk_snoc]
    by_cases hj : j = l.length
    · rw [if_pos hj, hj, hend]
    · rw [if_neg hj]
  | cons i rest => exact chunk_set l i new j rest (hr i (mem_cons_self ..))

theorem length_allocChunk :
    a.allocChunk.2.chunks.length = a.chunks.length + (1 - a.chunkFreeList.length) := by
  obtain ⟨l, fl⟩ := a
  cases fl with
  | nil => simp only [allocChunk, length_append, length_singleton, length_nil]
  | cons => simp only [allocChunk, length_set, length_cons]; omega

theorem length_free_allocChunk :
    a.allocChunk.2.chunkFreeList.length = a.chunkFreeList.length - 1 := by
  obtain ⟨l, fl⟩ := a
  cases fl with
  | nil => rfl
  | cons => rfl

theorem length_allocChunk_le : a.chunks.length ≤ a.allocChunk.2.chunks.length := by
  rw [length_allocChunk]
  exact Nat.le_add_right _ _

theorem allocChunk_lt (hr : ∀ c ∈ a.chunkFreeList, c < a.chunks.length) :
    a.allocChunk.1 < a.allocChunk.2.chunks.length := by
  obtain ⟨l, fl⟩ := a
  rcases fl with _ | i
  · simp only [allocChunk, length_append, length_singleton]; omega
  simp only [allocChunk, length_set]
  exact hr i (mem_cons_self ..)

theorem allocChunk_fresh : a.allocChunk.1 ∈ a.chunkFreeList ∨ a.chunks.length ≤ a.allocChunk.1 := by
  obtain ⟨l, fl⟩ := a
  cases fl with
  | nil => exact .inr (Nat.le_refl _)
  | cons => exact .inl (mem_cons_self ..)

theorem free_allocChunk_sublist : a.allocChunk.2.chunkFreeList.Sublist a.chunkFreeList := by
  obtain ⟨l, fl⟩ := a
  cases fl with
  | nil => exact List.Sublist.refl _
  | cons => exact sublist_cons_self ..

theorem allocChunk_notMem (hn : a.chunkFreeList.Nodup)
    (hr : ∀ c ∈ a.chunkFreeList, c < a.chunks.length) :
    a.allocChunk.1 ∉ a.allocChunk.2.chunkFreeList := by
  obtain ⟨l, fl⟩ := a
  cases fl with
  | nil => exact not_mem_nil
  | cons => exact (nodup_cons.mp hn).1

end

end Arena

/-- The byte at position `p` of the chain `L`, and zero past its end. -/
def byteAt (a : Arena) (L : List Nat) (p : Nat) : UInt8 :=
  match L[p / chunkSize]? with
  | some c => (a.chunk c).data.getD (p % chunkSize) 0
  | none => 0

/-- A chain of allocated chunks with its two ends, apart from the free list. -/
structure Owned (a : Arena) (head tail : Option Nat) (L : List Nat) : Prop where
  linked : Linked (fun c => (a.chunk c).next) head L
  tail_eq : tail = L.getLast?
  range : ∀ c ∈ L, c < a.chunks.length
  notFree : ∀ c ∈ L, c ∉ a.chunkFreeList
  free_nodup : a.chunkFreeList.Nodup
  free_range : ∀ c ∈ a.chunkFreeList, c < a.chunks.length

/-- The chunks of `L` hold a file of the given size. -/
structure Holds (a : Arena) (head tail : Option Nat) (size : Nat) (L : List Nat) : Prop
    extends Owned a head tail L where
  length_eq : L.length = (size + (chunkSize - 1)) / chunkSize
  used_eq : ∀ k c, L[k]? = some c → (a.chunk c).used = min chunkSize (size - chunkSize * k)

/-- Going from the chain `L` in `a` to the chain `L'` in `a'` leaves chunks
    alone that are neither in `L` nor free, and takes no others. -/
structure Within (a : Arena) (L : List Nat) (a' : Arena) (L' : List Nat) : Prop where
  length_le : a.chunks.length ≤ a'.chunks.length
  same : ∀ c, c < a.chunks.length → c ∉ L → c ∉ a.chunkFreeList → a'.chunk c = a.chunk c
  source : ∀ c, c ∈ L' ∨ c ∈ a'.chunkFreeList →
    c ∈ L ∨ c ∈ a.chunkFreeList ∨ a.chunks.length ≤ c

theorem within_refl (a : Arena) (L : List Nat) : Within a L a L :=
  ⟨Nat.le_refl _, fun _ _ _ _ => rfl, fun _ h => h.elim .inl fun h => .inr (.inl h)⟩

theorem within_trans {a1 a2 a3 : Arena} {L1 L2 L3 : List Nat} (h1 : Within a1 L1 a2 L2)
    (h2 : Within a2 L2 a3 L3) : Within a1 L1 a3 L3 := by
  have hle := h1.length_le
  refine ⟨Nat.le_trans h1.length_le h2.length_le, fun c hc hL hf => ?_, fun c hc => ?_⟩
  · -- A foreign chunk stays foreign: nothing from outside was taken in.
    have hout : ¬ (c ∈ L2 ∨ c ∈ a2.chunkFreeList) := by
      intro h
      rcases h1.source c h with h | h | h
      · exact hL h
      · exact hf h
      · omega
    rw [h2.same c (by omega) (fun h => hout (.inl h)) (fun h => hout (.inr h)),
      h1.same c hc hL hf]
  · rcases h2.source c hc with h | h | h
    · exact h1.source c (.inl h)
    · exact h1.source c (.inr h)
    · exact .inr (.inr (by omega))

theorem within_modifyChunk (a : Arena) (L : List Nat) (c : Nat) (f : Chunk → Chunk)
    (hc : c ∈ L) (hr : c < a.chunks.length) : Within a L (a.modifyChunk c f) L := by
  refine ⟨Nat.le_of_eq (length_modifyChunk a c f).symm, fun j _ hL _ => ?_, fun j h => ?_⟩
  · have hj : j ≠ c := fun hj => hL (hj ▸ hc)
    rw [chunk_modifyChunk a c f j hr, if_neg hj]
  · exact h.elim .inl fun h => .inr (.inl h)

variable {L : List Nat}

/-- A change to chunks that keeps every successor keeps a chain. -/
theorem owned_modifyChunk (h : Owned a head tail L) (c : Nat)
    (f : Chunk → Chunk) (hc : c ∈ L) (hf : ∀ k, (f k).next = k.next) :
    Owned (a.modifyChunk c f) head tail L := by
  have hr := h.range c hc
  refine ⟨linked_congr h.linked fun j _ => ?_, h.tail_eq, fun j hj => ?_, h.notFree,
    h.free_nodup, fun j hj => ?_⟩
  · rw [chunk_modifyChunk a c f j hr]
    by_cases hj : j = c
    · rw [if_pos hj, hf, hj]
    · rw [if_neg hj]
  · rw [length_modifyChunk]
    exact h.range j hj
  · rw [length_modifyChunk]
    exact h.free_range j hj

theorem byteAt_modifyChunk (h : Owned a head tail L)
    (k c : Nat) (f : Chunk → Chunk) (hk : L[k]? = some c) (p : Nat) :
    byteAt (a.modifyChunk c f) L p =
      if p / chunkSize = k then (f (a.chunk c)).data.getD (p % chunkSize) 0
      else byteAt a L p := by
  have hr := h.range c (mem_of_getElem? hk)
  unfold byteAt
  by_cases hp : p / chunkSize = k
  · rw [if_pos hp, hp, hk]
    simp only []
    rw [chunk_modifyChunk a c f c hr, if_pos rfl]
  rw [if_neg hp]
  rcases hj : L[p / chunkSize]? with _ | j
  · rfl
  simp only []
  have hjc : j ≠ c := by
    intro hc
    -- The chain visits no chunk twice, so the two positions agree.
    have hlt := (List.getElem?_eq_some_iff.mp hj).1
    exact hp ((List.getElem?_inj hlt (linked_nodup h.linked)).mp (by rw [hj, hk, hc]))
  rw [chunk_modifyChunk a c f j hr, if_neg hjc]

/-- Copying into a chunk zeroes the hole below and keeps everything else. -/
theorem fill_data (k : Chunk) (lo : Nat) (bytes : List UInt8) (j : Nat) (hj : j < chunkSize) :
    (k.fill lo bytes).data.getD j 0 =
      if lo ≤ j ∧ j < lo + bytes.length then bytes.getD (j - lo) 0
      else if k.used ≤ j ∧ j < lo then 0 else k.data.getD j 0 := by
  have hfill : (k.fill lo bytes).data = overwrite (if lo > k.used
      then overwrite k.data k.used (replicate (lo - k.used) 0) else k.data) lo bytes := by
    simp only [fill]
    split <;> split <;> rfl
  have hrep : ∀ m : Nat, (replicate m (0 : UInt8)).getD (j - k.used) 0 = 0 := by
    intro m
    by_cases hm : j - k.used < m
    · rw [getD_replicate _ hm]
    · rw [getD_eq_default _ _ (by rw [length_replicate]; omega)]
  rw [hfill, getD_overwrite]
  by_cases hu : lo > k.used
  · rw [if_pos hu, length_overwrite, k.data_length, getD_overwrite, length_replicate,
      k.data_length, hrep]
    by_cases h1 : lo ≤ j ∧ j < lo + bytes.length
    · rw [if_pos ⟨hj, h1⟩, if_pos h1]
    rw [if_neg (fun h => h1 h.2), if_neg h1]
    by_cases h2 : k.used ≤ j ∧ j < lo
    · rw [if_pos ⟨hj, h2.1, by omega⟩, if_pos h2]
    · rw [if_neg (by omega), if_neg h2]
  rw [if_neg hu, k.data_length]
  by_cases h1 : lo ≤ j ∧ j < lo + bytes.length
  · rw [if_pos ⟨hj, h1⟩, if_pos h1]
  · rw [if_neg (fun h => h1 h.2), if_neg h1, if_neg (by omega)]

theorem fill_used (k : Chunk) (lo : Nat) (bytes : List UInt8) :
    (k.fill lo bytes).used = max k.used (lo + bytes.length) := by
  have hu : (if lo > k.used then k.fillZero k.used lo else k).used = k.used := by
    split <;> rfl
  simp only [fill, copyFromSlice, hu]
  by_cases h : lo + bytes.length > k.used
  · rw [if_pos h]
    simp only []
    omega
  rw [if_neg h]
  simp only []
  omega

theorem fill_next (k : Chunk) (lo : Nat) (bytes : List UInt8) :
    (k.fill lo bytes).next = k.next := by
  simp only [fill]
  split <;> split <;> rfl

/-- What allocating a chunk behind the tail does to a chain: the new chunk `n`
    is empty and last, and the others keep their contents. -/
structure Grown (w : WriteState) (L : List Nat) (w' : WriteState) (n : Nat) : Prop where
  owned : Owned w'.arena w'.head w'.tail (L ++ [n])
  within : Within w.arena L w'.arena (L ++ [n])
  new : w'.arena.chunk n = Chunk.new
  data_eq : ∀ c ∈ L, (w'.arena.chunk c).data = (w.arena.chunk c).data
  used_eq : ∀ c ∈ L, (w'.arena.chunk c).used = (w.arena.chunk c).used
  cur_eq : w'.cur = w.cur

theorem chunk_grow (h : Owned w.arena w.head w.tail L) (j : Nat) :
    w.grow.2.arena.chunk j =
      if w.tail = some j then { w.arena.chunk j with next := some w.grow.1 }
      else if j = w.grow.1 then new else w.arena.chunk j := by
  have hfst : w.grow.1 = w.arena.allocChunk.1 := by
    rfl
  have halloc := chunk_allocChunk w.arena h.free_range
  rcases ht : w.tail with _ | t
  · have harena : w.grow.2.arena = w.arena.allocChunk.2 := by
      simp only [grow, ht]
    rw [harena, halloc j, hfst, if_neg (fun hc : none = some j => nomatch hc)]
  have hmem : t ∈ L := mem_of_getLast? (h.tail_eq ▸ ht)
  have hlt : t < w.arena.allocChunk.2.chunks.length :=
    Nat.lt_of_lt_of_le (h.range t hmem) (length_allocChunk_le w.arena)
  have hnew : t ≠ w.arena.allocChunk.1 := by
    intro hc
    rcases allocChunk_fresh w.arena with hf | hf
    · exact h.notFree t hmem (hc ▸ hf)
    · have := h.range t hmem
      omega
  have harena : w.grow.2.arena = w.arena.allocChunk.2.modifyChunk t
      fun k => { k with next := some w.arena.allocChunk.1 } := by
    simp only [grow, ht]
  rw [harena, chunk_modifyChunk _ _ _ _ hlt, hfst]
  by_cases hj : j = t
  · rw [if_pos hj, if_pos (by rw [hj]), halloc t, if_neg hnew, hj]
  · rw [if_neg hj, if_neg (fun hc => hj (Option.some.inj hc).symm), halloc j]

theorem grow_length (w : WriteState) :
    w.grow.2.arena.chunks.length = w.arena.allocChunk.2.chunks.length := by
  cases ht : w.tail with
  | none => simp only [grow, ht]
  | some => simp only [grow, ht, length_modifyChunk]

theorem grow_free (w : WriteState) :
    w.grow.2.arena.chunkFreeList = w.arena.allocChunk.2.chunkFreeList := by
  cases ht : w.tail with
  | none => simp only [grow, ht]
  | some => simp only [grow, ht, free_modifyChunk]

/-- What is left of an arena once `n` chunks have been allocated: the free list
    is used up first, and then the vector grows. -/
structure Taken (a : Arena) (n : Nat) (a' : Arena) : Prop where
  length_eq : a'.chunks.length = a.chunks.length + (n - a.chunkFreeList.length)
  free_length : a'.chunkFreeList.length = a.chunkFreeList.length - n

theorem taken_grow {n : Nat} (h : Taken a n w.arena) : Taken a (n + 1) w.grow.2.arena := by
  have hlen := h.length_eq
  have hfree := h.free_length
  constructor
  · rw [grow_length, length_allocChunk]
    omega
  · rw [grow_free, length_free_allocChunk]
    omega

theorem owned_grow (h : Owned w.arena w.head w.tail L) :
    Grown w L w.grow.2 w.grow.1 := by
  have hfst : w.grow.1 = w.arena.allocChunk.1 := rfl
  have hchunk := chunk_grow h
  have hsub := free_allocChunk_sublist w.arena
  have hlen := length_allocChunk_le w.arena
  -- The new chunk came from outside the chain.
  have hfresh : w.grow.1 ∉ L := by
    intro hc
    rcases allocChunk_fresh w.arena with hf | hf
    · exact h.notFree _ hc hf
    · have := h.range _ hc
      omega
  have htail : w.tail ≠ some w.grow.1 := fun hc =>
    hfresh (mem_of_getLast? (h.tail_eq ▸ hc))
  have hnew : w.grow.2.arena.chunk w.grow.1 = new := by
    rw [hchunk, if_neg htail, if_pos rfl]
  have hold : ∀ c ∈ L, w.grow.2.arena.chunk c =
      if w.tail = some c then { w.arena.chunk c with next := some w.grow.1 }
      else w.arena.chunk c := by
    intro c hc
    have hcn : c ≠ w.grow.1 := fun heq => hfresh (heq ▸ hc)
    rw [hchunk, if_neg hcn]
  have hsource : ∀ c, c ∈ L ++ [w.grow.1] ∨ c ∈ w.grow.2.arena.chunkFreeList →
      c ∈ L ∨ c ∈ w.arena.chunkFreeList ∨ w.arena.chunks.length ≤ c := by
    intro c hc
    rw [grow_free, mem_append, mem_singleton] at hc
    rcases hc with (hc | hc) | hc
    · exact .inl hc
    · rw [hc, hfst]
      exact .inr (allocChunk_fresh w.arena)
    · exact .inr (.inl (hsub.subset hc))
  have hlinked : Linked (fun c => (w.grow.2.arena.chunk c).next) w.grow.2.head
      (L ++ [w.grow.1]) := by
    refine linked_snoc (n := w.grow.1) h.linked ?_ (fun t ht => ?_) (fun k c hk hlt => ?_)
    · rw [hnew]
      rfl
    · rw [← h.tail_eq] at ht
      rw [hchunk, if_pos ht]
    · have hc : w.tail ≠ some c := by
        intro hc
        rw [h.tail_eq, getLast?_eq_getElem?, ← hk] at hc
        have := (getElem?_inj (by omega) (linked_nodup h.linked)).mp hc
        omega
      rw [hold c (mem_of_getElem? hk), if_neg hc]
  refine ⟨⟨hlinked, ?_, ?_, ?_, ?_, ?_⟩, ⟨?_, ?_, hsource⟩, hnew, ?_, ?_, rfl⟩
  · rw [getLast?_concat]
    rfl
  · intro c hc
    rw [grow_length]
    rcases mem_append.mp hc with hc | hc
    · have := h.range c hc
      omega
    · rw [mem_singleton.mp hc]
      exact allocChunk_lt w.arena h.free_range
  · intro c hc
    rw [grow_free]
    rcases mem_append.mp hc with hc | hc
    · exact fun hf => h.notFree c hc (hsub.subset hf)
    · rw [mem_singleton.mp hc]
      exact allocChunk_notMem w.arena h.free_nodup h.free_range
  · rw [grow_free]
    exact h.free_nodup.sublist hsub
  · intro c hc
    rw [grow_free] at hc
    rw [grow_length]
    have := h.free_range c (hsub.subset hc)
    omega
  · rw [grow_length]
    exact hlen
  · intro c hc hL hf
    have hcn : c ≠ w.grow.1 := by
      intro heq
      rcases allocChunk_fresh w.arena with hf' | hf'
      · exact hf (heq ▸ hf')
      · omega
    have ht : w.tail ≠ some c := fun ht => hL (mem_of_getLast? (h.tail_eq ▸ ht))
    rw [hchunk, if_neg ht, if_neg hcn]
  · intro c hc
    rw [hold c hc]
    split <;> rfl
  · intro c hc
    rw [hold c hc]
    split <;> rfl

end LindGrates.Imfs
