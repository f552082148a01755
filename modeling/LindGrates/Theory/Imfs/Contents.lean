import LindGrates.Theory.Imfs.Chunk
import Mathlib.Data.List.Perm.Subperm

/-!
# Contents of One File

What the loops over a chain of chunks compute, for a chain that holds a file.

A write puts its buffer where it was asked to and zeroes the part of the hole below
it that lies in the same chunk; the part of the hole in earlier chunks keeps whatever
the chunks held. A truncation keeps every byte of the chunks it keeps, those past the
new size included. So the bytes past the size are part of the description: a later
extension can bring them back.

## Main definitions

* `contents`: The bytes of a file.
* `WriteInv`: How far a write has got.

## Theorems

* `readPass_spec`, `writeLoops_spec`, `truncPass_spec`: The loops end, with what results.
* `reclaimChunkChain_spec`: Returning a chain returns exactly its chunks.
-/

namespace LindGrates.Imfs

open List Arena Nat

variable {a' : Arena} {c m : Nat}

def contents (a : Arena) (L : List Nat) (size : Nat) : List UInt8 :=
  (range size).map (byteAt a L)

variable {L : List Nat} {a : Arena} {head tail : Option Nat} {size : Nat}

theorem length_le_of_range {n : Nat} (hn : L.Nodup) (hr : ∀ c ∈ L, c < n) : L.length ≤ n := by
  have hsub : L ⊆ range n := fun c hc => mem_range.mpr (hr c hc)
  have := (subperm_of_subset hn hsub).length_le
  rwa [length_range] at this

/-- The arena after the chunks of `L` have been returned to the free list. -/
structure Reclaimed (a : Arena) (L : List Nat) (a' : Arena) : Prop where
  length_eq : a'.chunks.length = a.chunks.length
  free_eq : a'.chunkFreeList = L.reverse ++ a.chunkFreeList
  chunk_eq : ∀ c, a'.chunk c = if c ∈ L then Chunk.new else a.chunk c

theorem reclaimed_nil (a : Arena) : Reclaimed a [] a :=
  ⟨rfl, rfl, fun c => by rw [if_neg not_mem_nil]⟩

theorem reclaimed_snoc (h : Reclaimed a L a') (hc : c < a.chunks.length) :
    Reclaimed a (L ++ [c]) (a'.reclaimChunk c) := by
  refine ⟨?_, ?_, fun j => ?_⟩
  · rw [reclaimChunk, length_set, h.length_eq]
  · rw [reclaimChunk, h.free_eq, reverse_append, reverse_singleton]
    rfl
  · have hset := chunk_set a'.chunks c Chunk.new j (c :: a'.chunkFreeList)
      (by rw [h.length_eq]; exact hc)
    rw [reclaimChunk, hset]
    by_cases hj : j = c
    · rw [if_pos hj, if_pos (mem_append_right _ (mem_singleton.mpr hj))]
    have hmem : j ∈ L ++ [c] ↔ j ∈ L := by
      rw [mem_append, mem_singleton]
      exact ⟨fun h => h.resolve_right hj, .inl⟩
    rw [if_neg hj]
    simp only [hmem]
    exact h.chunk_eq j

/-- Returning a chain ends and returns exactly its chunks. The chunk a pass is
    at has not been cleared yet, so its successor is still the original one. -/
theorem reclaimChunkChain_spec (hl : Linked (fun c => (a.chunk c).next) head L)
    (hr : ∀ c ∈ L, c < a.chunks.length) :
    ∃ a', a.reclaimChunkChain head = .ok a' ∧ Reclaimed a L a' := by
  have hnodup := linked_nodup hl
  have hlen := length_le_of_range hnodup hr
  let I : Option Nat × Arena → Prop := fun s =>
    ∃ k, k ≤ L.length ∧ s.1 = L[k]? ∧ Reclaimed a (L.take k) s.2
  let μ : Option Nat × Arena → Nat := fun s =>
    L.length + a.chunkFreeList.length - s.2.chunkFreeList.length
  have hspec := loop_spec reclaimPass I μ (Reclaimed a L) ?_ ?_
    (2 * a.chunks.length + 2) (head, a)
    ⟨0, zero_le _, hl.head_eq, reclaimed_nil a⟩ (by simp only [μ]; omega)
  · rcases hspec with ⟨a', ha', hrec⟩
    exact ⟨a', (okOr_eq_ok _ _ _).mpr ha', hrec⟩
  · rintro ⟨cur, b⟩ s' ⟨k, hk, hcur, hrec⟩ hbody
    rcases hc : cur with _ | c
    · rw [hc] at hbody; cases hbody
    rw [hc] at hcur hbody
    cases hbody
    have hklt : k < L.length := (List.getElem?_eq_some_iff.mp hcur.symm).1
    -- The chunk at position `k` comes after all returned ones.
    have hnot : c ∉ L.take k := by
      intro hmem
      rcases mem_iff_getElem?.mp hmem with ⟨j, hj⟩
      have hjk : j < k := by
        have := (List.getElem?_eq_some_iff.mp hj).1
        rw [length_take] at this
        omega
      rw [getElem?_take_of_lt hjk] at hj
      have := (getElem?_inj (by omega) hnodup).mp (hj.trans hcur)
      omega
    have hnext : (b.chunk c).next = L[k + 1]? := by
      rw [hrec.chunk_eq c, if_neg hnot]
      exact hl.next_eq k c hcur.symm
    have htake : L.take (k + 1) = L.take k ++ [c] := by
      rw [take_add_one, ← hcur]
      rfl
    refine ⟨⟨k + 1, hklt, hnext, ?_⟩, ?_⟩
    · rw [htake]
      exact reclaimed_snoc hrec (hr c (mem_of_getElem? hcur.symm))
    · simp only [μ, reclaimChunk, length_cons]
      rw [hrec.free_eq, length_append, length_reverse, length_take]
      omega
  · rintro ⟨cur, b⟩ b' ⟨k, hk, hcur, hrec⟩ hbody
    cases hc : cur with
    | none =>
      rw [hc] at hcur hbody
      cases hbody
      have hkl : L.length ≤ k := getElem?_eq_none_iff.mp hcur.symm
      rwa [take_of_length_le hkl] at hrec
    | some => rw [hc] at hbody; cases hbody

theorem size_le_of_holds (h : Holds a head tail size L) : size ≤ chunkSize * L.length := by
  rw [h.length_eq]
  simp only [chunkSize]
  omega

theorem slice_eq_bytes {k lo p : Nat} (hk : L[k]? = some c) (hp : p = chunkSize * k + lo)
    (hm : lo + m ≤ chunkSize) :
    ((a.chunk c).data.drop lo).take m = (range m).map fun j => byteAt a L (p + j) := by
  refine ext_getElem ?_ fun j h1 h2 => ?_
  · rw [length_take, length_drop, (a.chunk c).data_length, length_map, length_range]
    omega
  · have hj : j < m := by rwa [length_map, length_range] at h2
    simp only [chunkSize] at hp hm
    have hdiv : (p + j) / chunkSize = k := by simp only [chunkSize]; omega
    have hmod : (p + j) % chunkSize = lo + j := by simp only [chunkSize]; omega
    rw [getElem_take, getElem_drop, getElem_map, getElem_range]
    simp only [byteAt, hdiv, hk, hmod]
    rw [getD_eq_getElem?_getD, getElem?_eq_getElem
      (by rw [(a.chunk c).data_length]; simp only [chunkSize]; omega)]
    rfl

/-- Skipping whole chunks before a read ends in the chunk the offset falls
    into. -/
theorem skipPass_spec {off : Nat} (h : Holds a head tail size L) (hoff : off < size) :
    loop (skipPass a) (off / chunkSize + 2) (head, off) =
      some (L[off / chunkSize]?, off % chunkSize) := by
  have hsize := size_le_of_holds h
  let I : Option Nat × Nat → Prop := fun s =>
    ∃ k, s.1 = L[k]? ∧ chunkSize * k + s.2 = off
  have hspec := loop_spec (skipPass a) I (fun s => s.2 / chunkSize)
    (fun r => r = (L[off / chunkSize]?, off % chunkSize)) ?_ ?_ (off / chunkSize + 2) (head, off)
    ⟨0, h.linked.head_eq, by simp only [mul_zero, zero_add]⟩
    (show off / chunkSize < off / chunkSize + 2 by omega)
  · rcases hspec with ⟨r, hr, hq⟩
    rw [hr, hq]
  · rintro ⟨cur, lo⟩ s' ⟨k, hcur, hlo⟩ hbody
    rcases hc : cur with _ | c
    · rw [hc] at hbody; cases hbody
    rw [hc] at hcur hbody
    simp only [skipPass] at hbody
    by_cases hlt : lo < chunkSize
    · rw [if_pos hlt] at hbody; cases hbody
    rw [if_neg hlt] at hbody
    cases hbody
    simp only [chunkSize] at hlt hlo ⊢
    exact ⟨⟨k + 1, h.linked.next_eq k c hcur.symm, by simp only [chunkSize]; omega⟩, by omega⟩
  · rintro ⟨cur, lo⟩ r ⟨k, hcur, hlo⟩ hbody
    simp only at hcur hlo
    rcases hc : cur with _ | _
    · -- The chain cannot end before an offset the size covers.
      rw [hc] at hcur
      have hkl : L.length ≤ k := getElem?_eq_none_iff.mp hcur.symm
      have := mul_le_mul_left chunkSize hkl
      omega
    rw [hc] at hcur hbody
    simp only [skipPass] at hbody
    by_cases hlt : lo < chunkSize
    · rw [if_pos hlt] at hbody
      cases hbody
      simp only [chunkSize] at hlt hlo
      have hk : off / chunkSize = k := by simp only [chunkSize]; omega
      have hm : off % chunkSize = lo := by simp only [chunkSize]; omega
      rw [hk, hm, hcur]
    · rw [if_neg hlt] at hbody; cases hbody

/-- The copying loop of a read gives the next `count` bytes. Every pass but the
    last empties a full chunk, so the chunks still needed go down by one. -/
theorem readPass_spec (h : Holds a head tail size L) (off count : Nat)
    (hcount : off + count ≤ size) :
    loop (readPass a count) (a.chunks.length + 2) (L[off / chunkSize]?, off % chunkSize, []) =
      some ((range count).map fun j => byteAt a L (off + j)) := by
  have hsize := size_le_of_holds h
  have hlen := length_le_of_range (linked_nodup h.linked) h.range
  let I : Option Nat × Nat × List UInt8 → Prop := fun s =>
    s.2.2.length ≤ count ∧
      s.2.2 = (range s.2.2.length).map (fun j => byteAt a L (off + j)) ∧
      (s.2.2.length < count → s.2.1 < chunkSize ∧
        ∃ k, s.1 = L[k]? ∧ chunkSize * k + s.2.1 = off + s.2.2.length)
  let μ : Option Nat × Nat × List UInt8 → Nat := fun s =>
    if s.2.2.length < count then (s.2.1 + (count - s.2.2.length) + (chunkSize - 1)) / chunkSize
    else 0
  have hspec := loop_spec (readPass a count) I μ
    (fun r => r = (range count).map fun j => byteAt a L (off + j)) ?_ ?_
    (a.chunks.length + 2) (L[off / chunkSize]?, off % chunkSize, [])
    ⟨zero_le _, rfl, fun _ => ⟨mod_lt _ (by decide), off / chunkSize, rfl,
      div_add_mod off chunkSize⟩⟩ ?_
  · rcases hspec with ⟨r, hr, hq⟩
    rw [hr, hq]
  · rintro ⟨cur, lo, out⟩ s' ⟨hle, hout, hpos⟩ hbody
    simp only at hle hout hpos
    simp only [readPass] at hbody
    by_cases hlt : out.length < count
    · rw [if_pos hlt] at hbody
      rcases hpos hlt with ⟨hlo, k, hcur, hk⟩
      rcases hc : cur with _ | c
      · rw [hc] at hbody; cases hbody
      rw [hc] at hcur hbody
      have hused := h.used_eq k c hcur.symm
      obtain ⟨m, htc⟩ : ∃ m, min (count - out.length) ((a.chunk c).used - lo) = m :=
        ⟨_, rfl⟩
      simp only [htc] at hbody
      have hm : lo + m ≤ chunkSize := by omega
      have hslice := slice_eq_bytes (a := a) (m := m) hcur.symm hk.symm hm
      have hml : (((a.chunk c).data.drop lo).take m).length = m := by
        rw [hslice, length_map, length_range]
      cases hbody
      refine ⟨⟨?_, ?_, ?_⟩, ?_⟩
      · rw [length_append, hml]
        omega
      · change out ++ _ = _
        rw [length_append, hml, range_add, map_append, map_map, hslice, ← hout]
        congr 1
        refine map_congr_left fun j _ => ?_
        rw [Function.comp_apply, add_assoc]
      · rw [length_append, hml]
        intro hmore
        simp only [chunkSize] at hk hlo hused
        exact ⟨zero_lt_of_lt hlo, k + 1, h.linked.next_eq k c hcur.symm, by
          simp only [chunkSize]; omega⟩
      · simp only [μ, length_append, hml, chunkSize] at hk hlo hused ⊢
        split <;> omega
    · rw [if_neg hlt] at hbody; cases hbody
  · rintro ⟨cur, lo, out⟩ r ⟨hle, hout, hpos⟩ hbody
    simp only at hle hout hpos
    simp only [readPass] at hbody
    by_cases hlt : out.length < count
    · rw [if_pos hlt] at hbody
      rcases hpos hlt with ⟨hlo, k, hcur, hk⟩
      cases hc : cur with
      | none =>
        rw [hc] at hcur
        have hkl : L.length ≤ k := getElem?_eq_none_iff.mp hcur.symm
        have := mul_le_mul_left chunkSize hkl
        omega
      | some => rw [hc] at hbody; cases hbody
    · rw [if_neg hlt] at hbody
      cases hbody
      have hcl : out.length = count := by omega
      rw [hcl] at hout
      exact hout
  · have hL := h.length_eq
    simp only [μ, length_nil, chunkSize] at hL ⊢
    split <;> omega

section Write

variable {a : Arena} {size off : Nat} {L : List Nat} {buf : List UInt8}

/-- The byte at a position once `done` bytes of a write have been copied. The
    first copy zeroes the hole below the offset, in its own chunk. -/
def byteAfter (a : Arena) (L : List Nat) (size off : Nat) (buf : List UInt8) (done p : Nat) :
    UInt8 :=
  if off ≤ p ∧ p < off + done then buf.getD (p - off) 0
  else if 0 < done ∧ size ≤ p ∧ p < off ∧ p / chunkSize = off / chunkSize then 0
  else byteAt a L p

/-- How far a write of `buf` at `off` to the file of size `size` held by `L`
    has got: the loop is at position `k` of the chain `L'`. -/
structure WriteInv (a : Arena) (L : List Nat) (size off : Nat) (buf : List UInt8)
    (w : WriteState) (k : Nat) (L' : List Nat) : Prop where
  owned : Owned w.arena w.head w.tail L'
  within : Within a L w.arena L'
  taken : Taken a (L'.length - L.length) w.arena
  cur_eq : w.cur.chunkIdx = L'[k]?
  length_ge : L.length ≤ L'.length
  length_le : L'.length ≤ max L.length (k + 1)
  pos_le : k ≤ L'.length
  done_le : w.cur.done ≤ buf.length
  todo : w.cur.done < buf.length → chunkSize * k + w.cur.localOffset = off + w.cur.done
  finished : w.cur.done = buf.length → off + buf.length ≤ chunkSize * k ∧
    chunkSize * k < off + buf.length + chunkSize ∧ L'.length ≤ max L.length k
  local_eq : 0 < w.cur.done → w.cur.localOffset = 0
  used_eq : ∀ j c, L'[j]? = some c → (w.arena.chunk c).used =
    min chunkSize ((if j < k then max size (off + w.cur.done) else size) - chunkSize * j)
  byte_eq : ∀ p, byteAt w.arena L' p = byteAfter a L size off buf w.cur.done p

variable {head tail : Option Nat} {w : WriteState} {k ci : Nat} {L' : List Nat}

theorem writeInv_start (h : Holds a head tail size L) (hb : buf ≠ []) :
    WriteInv a L size off buf ⟨a, head, tail, ⟨head, off, 0⟩⟩ 0 L := by
  have hpos : 0 < buf.length := length_pos_iff.mpr hb
  refine ⟨h.toOwned, within_refl a L, ⟨by simp, by simp⟩, h.linked.head_eq, le_refl _,
    le_max_left _ _,
    zero_le _, zero_le _, fun _ => ?_, fun hf => ?_, fun hd => ?_, fun j c hj => ?_,
    fun p => ?_⟩
  · simp only [mul_zero, zero_add, add_zero]
  · simp only at hf
    omega
  · simp only [lt_irrefl] at hd
  · exact h.used_eq j c hj
  · rw [byteAfter, if_neg (by simp only; omega), if_neg (by simp only; omega)]

/-- How much of each chunk is used, once the chunk at the position has been
    written and the file has `n` bytes. -/
theorem WriteInv.used_modifyChunk (h : WriteInv a L size off buf w k L') (hci : L'[k]? = some ci)
    {g : Chunk → Chunk} {n j c : Nat}
    (hg : (g (w.arena.chunk ci)).used = min chunkSize (n - chunkSize * k))
    (hleft : ∀ i < k, min chunkSize (max size (off + w.cur.done) - chunkSize * i) =
      min chunkSize (n - chunkSize * i)) (hj : L'[j]? = some c) :
    ((w.arena.modifyChunk ci g).chunk c).used =
      min chunkSize ((if j < k + 1 then n else size) - chunkSize * j) := by
  rw [chunk_modifyChunk _ _ _ _ (h.owned.range ci (mem_of_getElem? hci))]
  by_cases hjk : j = k
  · rw [hjk, hci] at hj
    rw [if_pos (Option.some.inj hj).symm, hg, hjk, if_pos k.lt_succ_self]
  have hjc : c ≠ ci := by
    rintro rfl
    exact hjk ((List.getElem?_inj (List.getElem?_eq_some_iff.mp hj).1
      (linked_nodup h.owned.linked)).mp (hj.trans hci.symm))
  rw [if_neg hjc, h.used_eq j c hj]
  by_cases hlt : j < k
  · rw [if_pos hlt, if_pos (by omega), hleft j hlt]
  · rw [if_neg hlt, if_neg (by omega)]

theorem WriteInv.taken_modifyChunk (h : WriteInv a L size off buf w k L') (g : Chunk → Chunk) :
    Taken a (L'.length - L.length) (w.arena.modifyChunk ci g) :=
  ⟨by rw [length_modifyChunk, h.taken.length_eq], h.taken.free_length⟩

theorem writeInv_skip (h : WriteInv a L size off buf w k L') (hci : L'[k]? = some ci)
    (hdone : w.cur.done < buf.length) (hlo : chunkSize ≤ w.cur.localOffset) :
    WriteInv a L size off buf
      { w with
        arena := w.arena.modifyChunk ci fun c => { c with used := chunkSize }
        cur := ⟨(w.arena.chunk ci).next, w.cur.localOffset - chunkSize, w.cur.done⟩ }
      (k + 1) L' := by
  have hmem : ci ∈ L' := mem_of_getElem? hci
  have hr := h.owned.range ci hmem
  have hklt : k < L'.length := (List.getElem?_eq_some_iff.mp hci).1
  have htodo := h.todo hdone
  have hlocal := h.local_eq
  simp only [chunkSize] at htodo hlo
  refine ⟨owned_modifyChunk h.owned ci _ hmem (fun _ => rfl),
    within_trans h.within (within_modifyChunk _ _ ci _ hmem hr), h.taken_modifyChunk _,
    h.owned.linked.next_eq k ci hci, h.length_ge, ?_, hklt, h.done_le, fun _ => ?_, fun hf => ?_,
    fun hd => ?_, fun j c hj => ?_, fun p => ?_⟩
  · have := h.length_le
    omega
  · simp only [chunkSize]
    omega
  · simp only at hf
    omega
  · simp only at hd
    omega
  · refine h.used_modifyChunk hci ?_ (fun _ _ => rfl) hj
    simp only [chunkSize]
    omega
  · rw [byteAt_modifyChunk h.owned k ci _ hci p, ← h.byte_eq p]
    by_cases hp : p / chunkSize = k
    · rw [if_pos hp, byteAt, hp, hci]
    · rw [if_neg hp]

theorem writeInv_grow (hsize : size ≤ chunkSize * L.length) (h : WriteInv a L size off buf w k L')
    (hcur : w.cur.chunkIdx = none) (hdone : w.cur.done < buf.length) :
    WriteInv a L size off buf
      { w.grow.2 with cur := { w.cur with chunkIdx := some w.grow.1 } } k
      (L' ++ [w.grow.1]) := by
  have hg := owned_grow h.owned
  have hk : k = L'.length := by
    have hnone := h.cur_eq
    rw [hcur] at hnone
    have := getElem?_eq_none_iff.mp hnone.symm
    have := h.pos_le
    omega
  have hfin := h.length_ge
  refine ⟨hg.owned, within_trans h.within hg.within, ?_, ?_, ?_, ?_, ?_, h.done_le, h.todo,
    fun hf => ?_, h.local_eq, fun j c hj => ?_, fun p => ?_⟩
  · rw [length_append, length_singleton, Nat.sub_add_comm hfin]
    exact taken_grow h.taken
  · rw [hk, getElem?_concat_length]
  · rw [length_append]
    omega
  · rw [length_append, length_singleton]
    omega
  · rw [length_append]
    omega
  · simp only at hf
    omega
  · by_cases hjl : j < L'.length
    · rw [getElem?_append_left hjl] at hj
      rw [hg.used_eq c (mem_of_getElem? hj), h.used_eq j c hj]
    -- The new chunk stands past everything the old size covers.
    have hjk : j = k := by
      have := (List.getElem?_eq_some_iff.mp hj).1
      rw [length_append, length_singleton] at this
      omega
    rw [hjk, hk, getElem?_concat_length] at hj
    cases hj
    have hmul := mul_le_mul_left chunkSize hfin
    rw [hg.new, if_neg (by omega), hjk, hk]
    have hz : size - chunkSize * L'.length = 0 := by omega
    rw [hz, Nat.min_zero]
    rfl
  · rw [← h.byte_eq p]
    unfold byteAt
    by_cases hpl : p / chunkSize < L'.length
    · rw [getElem?_append_left hpl, getElem?_eq_getElem hpl]
      simp only
      rw [hg.data_eq _ (getElem_mem hpl)]
    rw [getElem?_eq_none_iff.mpr (show L'.length ≤ p / chunkSize by omega)]
    by_cases hpk : p / chunkSize = L'.length
    · rw [hpk, getElem?_concat_length]
      simp only
      rw [hg.new]
      exact getD_replicate 0 (mod_lt p (by decide))
    rw [getElem?_eq_none_iff.mpr]
    rw [length_append, length_singleton]
    omega

theorem getD_take_drop (l : List UInt8) (i m j : Nat) (hj : j < m) :
    ((l.drop i).take m).getD j 0 = l.getD (i + j) 0 := by
  simp only [getD_eq_getElem?_getD]
  rw [getElem?_take_of_lt hj, getElem?_drop]

theorem byteAfter_add (a : Arena) (L : List Nat) (size off : Nat) (buf : List UInt8)
    (done m p : Nat) :
    byteAfter a L size off buf (done + m) p =
      if off + done ≤ p ∧ p < off + done + m then buf.getD (p - off) 0
      else if done = 0 ∧ 0 < m ∧ size ≤ p ∧ p < off ∧ p / chunkSize = off / chunkSize then 0
      else byteAfter a L size off buf done p := by
  unfold byteAfter
  split_ifs <;> first | rfl | omega

theorem writeInv_copy (h : WriteInv a L size off buf w k L') (hci : L'[k]? = some ci)
    (hdone : w.cur.done < buf.length) (hlo : w.cur.localOffset < chunkSize)
    (hm : m = min (buf.length - w.cur.done) (chunkSize - w.cur.localOffset)) :
    WriteInv a L size off buf
      { w with
        arena := w.arena.modifyChunk ci fun c =>
          c.fill w.cur.localOffset ((buf.drop w.cur.done).take m)
        cur := ⟨(w.arena.chunk ci).next, 0, w.cur.done + m⟩ }
      (k + 1) L' := by
  have hmem : ci ∈ L' := mem_of_getElem? hci
  have hr := h.owned.range ci hmem
  have hklt : k < L'.length := (List.getElem?_eq_some_iff.mp hci).1
  have htodo := h.todo hdone
  have hlocal := h.local_eq
  have hused := h.used_eq k ci hci
  rw [if_neg (lt_irrefl k)] at hused
  have hbl : ((buf.drop w.cur.done).take m).length = m := by
    rw [length_take, length_drop]
    omega
  simp only [chunkSize] at htodo hlo hm hused
  refine ⟨owned_modifyChunk h.owned ci _ hmem (fun c => fill_next c _ _),
    within_trans h.within (within_modifyChunk _ _ ci _ hmem hr), h.taken_modifyChunk _,
    h.owned.linked.next_eq k ci hci, h.length_ge, ?_, hklt, ?_, fun hd => ?_, fun hf => ?_,
    fun _ => rfl, fun j c hj => ?_, fun p => ?_⟩
  · have := h.length_le
    omega
  · simp only
    omega
  · simp only [chunkSize] at hd ⊢
    omega
  · have := h.length_le
    simp only [chunkSize] at hf ⊢
    omega
  · refine h.used_modifyChunk hci ?_ (fun i hi => ?_) hj
    · rw [fill_used, hbl, hused]
      simp only [chunkSize]
      omega
    · -- Chunks the write has left are full before and after.
      simp only [chunkSize]
      omega
  · rw [byteAt_modifyChunk h.owned k ci _ hci p, byteAfter_add]
    have hold := h.byte_eq p
    by_cases hp : p / chunkSize = k
    · rw [byteAt, hp, hci] at hold
      simp only at hold
      rw [if_pos hp, fill_data _ _ _ _ (mod_lt p (by decide)), hbl, hused, hold]
      simp only [chunkSize] at hp ⊢
      by_cases h1 : w.cur.localOffset ≤ p % 1024 ∧ p % 1024 < w.cur.localOffset + m
      · rw [if_pos h1, if_pos (by omega), getD_take_drop _ _ _ _ (by omega)]
        congr 1
        omega
      rw [if_neg h1]
      by_cases h2 : min 1024 (size - 1024 * k) ≤ p % 1024 ∧ p % 1024 < w.cur.localOffset
      · rw [if_pos h2, if_neg (by omega), if_pos (by omega)]
      · rw [if_neg h2, if_neg (by omega), if_neg (by omega)]
    · rw [if_neg hp, hold]
      simp only [chunkSize] at hp ⊢
      rw [if_neg (by omega), if_neg (by omega)]

theorem skipFullPass_spec (h : Holds a head tail size L) (off : Nat) (hb : buf ≠ []) :
    ∃ ci lo a', loop skipFullPass (off / chunkSize + 2) (head, off, a) = some (ci, lo, a') ∧
      lo ≤ off ∧ ∃ k, WriteInv a L size off buf ⟨a', head, tail, ⟨ci, lo, 0⟩⟩ k L := by
  have hpos : 0 < buf.length := length_pos_iff.mpr hb
  let I : Option Nat × Nat × Arena → Prop := fun s =>
    s.2.1 ≤ off ∧ ∃ k, WriteInv a L size off buf ⟨s.2.2, head, tail, ⟨s.1, s.2.1, 0⟩⟩ k L
  have hspec := loop_spec skipFullPass I (fun s => s.2.1 / chunkSize) I ?_ ?_
    (off / chunkSize + 2) (head, off, a) ⟨le_refl _, 0, writeInv_start h hb⟩
    (show off / chunkSize < off / chunkSize + 2 by omega)
  · rcases hspec with ⟨⟨ci, lo, a'⟩, hrun, hlo, k, hinv⟩
    exact ⟨ci, lo, a', hrun, hlo, k, hinv⟩
  · rintro ⟨cur, lo, b⟩ s' ⟨hlo, k, hinv⟩ hbody
    rcases hc : cur with _ | _
    · rw [hc] at hbody; cases hbody
    rw [hc] at hbody hinv
    simp only [skipFullPass] at hbody
    by_cases hlt : lo < chunkSize
    · rw [if_pos hlt] at hbody; cases hbody
    rw [if_neg hlt] at hbody
    cases hbody
    have hskip := writeInv_skip hinv hinv.cur_eq.symm hpos (Nat.le_of_not_lt hlt)
    simp only [chunkSize] at hlt hlo ⊢
    exact ⟨⟨by simp only; omega, k + 1, hskip⟩, by omega⟩
  · rintro ⟨cur, lo, b⟩ r hI hbody
    rcases hc : cur with _ | _
    · rw [hc] at hbody hI
      cases hbody
      exact hI
    rw [hc] at hbody hI
    simp only [skipFullPass] at hbody
    by_cases hlt : lo < chunkSize
    · rw [if_pos hlt] at hbody
      cases hbody
      exact hI
    · rw [if_neg hlt] at hbody; cases hbody

/-- What a pass does to a chunk keeps the invariant and gets nearer the end, by
    a chunk or by a byte. -/
theorem writeInv_writeChunk (h : WriteInv a L size off buf w k L') (hci : L'[k]? = some ci)
    (hdone : w.cur.done < buf.length) :
    WriteInv a L size off buf (w.writeChunk buf ci) (k + 1) L' ∧
      buf.length - (w.writeChunk buf ci).cur.done +
          (w.writeChunk buf ci).cur.localOffset / chunkSize <
        buf.length - w.cur.done + w.cur.localOffset / chunkSize := by
  have hr := h.owned.range ci (mem_of_getElem? hci)
  by_cases hlo : w.cur.localOffset ≥ chunkSize
  · have hskip := writeInv_skip h hci hdone hlo
    simp only [WriteState.writeChunk, if_pos hlo, chunk_modifyChunk _ _ _ _ hr, if_true]
    refine ⟨hskip, ?_⟩
    simp only [chunkSize] at hlo ⊢
    omega
  have hcopy := writeInv_copy h hci hdone (Nat.lt_of_not_le hlo) rfl
  simp only [WriteState.writeChunk, if_neg hlo, chunk_modifyChunk _ _ _ _ hr, if_true,
    fill_next]
  refine ⟨hcopy, ?_⟩
  simp only [chunkSize] at hlo ⊢
  omega

theorem writePass_again {w' : WriteState} (hsize : size ≤ chunkSize * L.length)
    (h : WriteInv a L size off buf w k L') (hbody : writePass buf w = .again w') :
    (∃ k' L'', WriteInv a L size off buf w' k' L'') ∧
      buf.length - w'.cur.done + w'.cur.localOffset / chunkSize <
        buf.length - w.cur.done + w.cur.localOffset / chunkSize := by
  by_cases hdone : w.cur.done < buf.length
  · cases hcur : w.cur.chunkIdx with
    | some =>
      simp only [writePass, if_pos hdone, hcur, Pass.again.injEq] at hbody
      have hchunk := writeInv_writeChunk h (by rw [← h.cur_eq, hcur]) hdone
      rw [hbody] at hchunk
      exact ⟨⟨k + 1, L', hchunk.1⟩, hchunk.2⟩
    | none =>
      simp only [writePass, if_pos hdone, hcur, Pass.again.injEq] at hbody
      have hgrow := writeInv_grow hsize h hcur hdone
      have hchunk := writeInv_writeChunk hgrow hgrow.cur_eq.symm hdone
      -- The index the cursor still shows plays no part in the pass.
      have hidx : WriteState.writeChunk
          { w.grow.2 with cur := { w.cur with chunkIdx := some w.grow.1 } } buf w.grow.1 =
          w.grow.2.writeChunk buf w.grow.1 := rfl
      rw [hidx, hbody] at hchunk
      exact ⟨⟨k + 1, _, hchunk.1⟩, hchunk.2⟩
  · simp only [writePass, if_neg hdone, reduceCtorEq] at hbody

/-- The two loops of a write end, and the chain they end in holds a file of
    the larger of the old size and the end of the write. -/
theorem writeLoops_spec (h : Holds a head tail size L) (off : Nat) (hb : buf ≠ []) :
    ∃ ci lo a' w L', loop skipFullPass (off / chunkSize + 2) (head, off, a) = some (ci, lo, a') ∧
      loop (writePass buf) (off / chunkSize + buf.length + 2)
        ⟨a', head, tail, ⟨ci, lo, 0⟩⟩ = some w ∧
      w.cur.done = buf.length ∧
      Holds w.arena w.head w.tail (max size (off + buf.length)) L' ∧
      Within a L w.arena L' ∧ Taken a (L'.length - L.length) w.arena ∧
      ∀ p, byteAt w.arena L' p = byteAfter a L size off buf buf.length p := by
  have hsize := size_le_of_holds h
  rcases skipFullPass_spec h off hb with ⟨ci, lo, a', hskip, hlo, k0, hinv0⟩
  have hspec := loop_spec (writePass buf) (fun w => ∃ k L', WriteInv a L size off buf w k L')
    (fun w => buf.length - w.cur.done + w.cur.localOffset / chunkSize)
    (fun w => w.cur.done = buf.length ∧ ∃ k L', WriteInv a L size off buf w k L')
    (fun w w' hI hbody => by
      rcases hI with ⟨k, L', hinv⟩
      exact writePass_again hsize hinv hbody)
    (fun w w' hI hbody => by
      rcases hI with ⟨k, L', hinv⟩
      by_cases hdone : w.cur.done < buf.length
      · simp only [writePass, if_pos hdone] at hbody
        split at hbody <;> exact absurd hbody (by simp only [reduceCtorEq, not_false_eq_true])
      simp only [writePass, if_neg hdone, Pass.leave.injEq] at hbody
      rw [← hbody]
      exact ⟨Nat.le_antisymm hinv.done_le (Nat.le_of_not_lt hdone), k, L', hinv⟩)
    (off / chunkSize + buf.length + 2) ⟨a', head, tail, ⟨ci, lo, 0⟩⟩ ⟨k0, L, hinv0⟩
    (by
      have := Nat.div_le_div_right (c := chunkSize) hlo
      simp only
      omega)
  rcases hspec with ⟨w, hrun, hdone, k, L', hinv⟩
  refine ⟨ci, lo, a', w, L', hskip, hrun, hdone, ⟨hinv.owned, ?_, fun j c hj => ?_⟩, hinv.within,
    hinv.taken, fun p => ?_⟩
  · have hfin := hinv.finished hdone
    have hL := h.length_eq
    have hge := hinv.length_ge
    have hple := hinv.pos_le
    simp only [chunkSize] at hfin hL ⊢
    omega
  · have hfin := hinv.finished hdone
    rw [hinv.used_eq j c hj, hdone]
    by_cases hjk : j < k
    · rw [if_pos hjk]
    rw [if_neg hjk]
    simp only [chunkSize] at hfin ⊢
    omega
  · rw [hinv.byte_eq p, hdone]

end Write

variable {a : Arena} {head tail : Option Nat} {size : Nat} {L : List Nat}

theorem reclaimed_free {M : List Nat} (hrec : Reclaimed a M a') (hM : M.Nodup)
    (hr : ∀ c ∈ M, c < a.chunks.length) (hnot : ∀ c ∈ M, c ∉ a.chunkFreeList)
    (hfn : a.chunkFreeList.Nodup) (hfr : ∀ c ∈ a.chunkFreeList, c < a.chunks.length) :
    a'.chunkFreeList.Nodup ∧ ∀ c ∈ a'.chunkFreeList, c < a'.chunks.length := by
  rw [hrec.free_eq, hrec.length_eq]
  constructor
  · refine (nodup_reverse.mpr hM).append hfn fun c hc hf => ?_
    exact hnot c (mem_reverse.mp hc) hf
  · intro c hc
    rcases mem_append.mp hc with hc | hc
    · exact hr c (mem_reverse.mp hc)
    · exact hfr c hc

theorem clear_spec (h : Owned a head tail L) :
    ∃ a', a.reclaimChunkChain head = .ok a' ∧ Holds a' none none 0 [] ∧ Within a L a' [] := by
  rcases reclaimChunkChain_spec h.linked h.range with ⟨a', hrun, hrec⟩
  have hfree := reclaimed_free hrec (linked_nodup h.linked) h.range h.notFree h.free_nodup
    h.free_range
  refine ⟨a', hrun, ⟨⟨linked_nil _, rfl, ?_, ?_, hfree.1, hfree.2⟩, rfl, ?_⟩, ⟨?_, ?_, ?_⟩⟩
  · exact fun c hc => absurd hc not_mem_nil
  · exact fun c hc => absurd hc not_mem_nil
  · exact fun k c hc => by simp only [getElem?_nil, reduceCtorEq] at hc
  · exact le_of_eq hrec.length_eq.symm
  · intro c _ hL _
    rw [hrec.chunk_eq c, if_neg hL]
  · intro c hc
    rcases hc with hc | hc
    · cases hc
    · rw [hrec.free_eq, mem_append, mem_reverse] at hc
      exact hc.elim .inl fun h => .inr (.inl h)

theorem cut_spec (h : Owned a head tail L) (hm : L[m]? = some c) (r : Nat) :
    ∃ a', (a.modifyChunk c fun k => { k with used := r, next := none }).reclaimChunkChain
        (a.chunk c).next = .ok a' ∧
      Owned a' head (some c) (L.take (m + 1)) ∧ Within a L a' (L.take (m + 1)) ∧
      (∀ j ∈ L.take (m + 1), (a'.chunk j).data = (a.chunk j).data ∧
        (a'.chunk j).used = if j = c then r else (a.chunk j).used) := by
  have hnodup := linked_nodup h.linked
  have hmem : c ∈ L := mem_of_getElem? hm
  have hcr := h.range c hmem
  have hmlt : m < L.length := (List.getElem?_eq_some_iff.mp hm).1
  have hmod := fun j => chunk_modifyChunk a c
    (fun k => { k with used := r, next := none }) j hcr
  -- The kept part and the rest have no chunk in common.
  have hdisj : ∀ j ∈ L.take (m + 1), j ∉ L.drop (m + 1) := by
    have hsplit : (L.take (m + 1) ++ L.drop (m + 1)).Nodup := by
      rw [take_append_drop]
      exact hnodup
    exact fun j hj hd => (nodup_append.mp hsplit).2.2 j hj j hd rfl
  have hctake : c ∈ L.take (m + 1) :=
    mem_of_getElem? (by rw [getElem?_take_of_lt (lt_succ_self m)]; exact hm)
  have hrest : Linked (fun j => ((a.modifyChunk c fun k =>
      { k with used := r, next := none }).chunk j).next) (a.chunk c).next (L.drop (m + 1)) := by
    rw [h.linked.next_eq m c hm]
    refine linked_congr (linked_drop h.linked (m + 1)) fun j hj => ?_
    have hjc : j ≠ c := fun hjc => hdisj c hctake (hjc ▸ hj)
    rw [hmod j, if_neg hjc]
  have hdropr : ∀ j ∈ L.drop (m + 1), j < a.chunks.length :=
    fun j hj => h.range j (mem_of_mem_drop hj)
  rcases reclaimChunkChain_spec hrest (fun j hj => by
    rw [length_modifyChunk]; exact hdropr j hj) with ⟨a', hrun, hrec⟩
  have hfree := reclaimed_free hrec (hnodup.sublist (drop_sublist _ _))
    (fun j hj => by rw [length_modifyChunk]; exact hdropr j hj)
    (fun j hj => h.notFree j (mem_of_mem_drop hj)) h.free_nodup
    (fun j hj => by rw [length_modifyChunk]; exact h.free_range j hj)
  have hlen : a'.chunks.length = a.chunks.length := by
    rw [hrec.length_eq, length_modifyChunk]
  have hkept : ∀ j ∈ L.take (m + 1), a'.chunk j =
      if j = c then { a.chunk c with used := r, next := none } else a.chunk j := by
    intro j hj
    rw [hrec.chunk_eq j, if_neg (hdisj j hj), hmod j]
  refine ⟨a', hrun, ⟨?_, ?_, ?_, ?_, hfree.1, hfree.2⟩, ⟨?_, ?_, ?_⟩, ?_⟩
  · refine linked_take h.linked (fun j hj => ?_) fun k j hj hkm => ?_
    · rw [hm] at hj
      cases hj
      rw [hkept c hctake, if_pos rfl]
    · have hjt : j ∈ L.take (m + 1) :=
        mem_of_getElem? (i := k)
          (by rw [getElem?_take_of_lt (by omega)]; exact hj)
      have hjc : j ≠ c := by
        intro hjc
        have hkl : k < L.length := by omega
        have := (getElem?_inj hkl hnodup).mp (hj.trans (hjc ▸ hm.symm))
        omega
      rw [hkept j hjt, if_neg hjc]
  · rw [getLast?_eq_getElem?, length_take, getElem?_take_of_lt (by omega)]
    have hlast : min (m + 1) L.length - 1 = m := by omega
    rw [hlast, hm]
  · exact fun j hj => by rw [hlen]; exact h.range j (mem_of_mem_take hj)
  · intro j hj hf
    rw [hrec.free_eq, mem_append, mem_reverse] at hf
    rcases hf with hf | hf
    · exact hdisj j hj hf
    · exact h.notFree j (mem_of_mem_take hj) hf
  · exact le_of_eq hlen.symm
  · intro j _ hL _
    have hjd : j ∉ L.drop (m + 1) := fun hj => hL (mem_of_mem_drop hj)
    have hjc : j ≠ c := fun hjc => hL (hjc ▸ hmem)
    rw [hrec.chunk_eq j, if_neg hjd, hmod j, if_neg hjc]
  · intro j hj
    rcases hj with hj | hj
    · exact .inl (mem_of_mem_take hj)
    · rw [hrec.free_eq, mem_append, mem_reverse] at hj
      exact hj.elim (fun hj => .inl (mem_of_mem_drop hj)) fun hj => .inr (.inl hj)
  · intro j hj
    rw [hkept j hj]
    by_cases hjc : j = c
    · rw [if_pos hjc, if_pos hjc, hjc]
      exact ⟨rfl, rfl⟩
    · rw [if_neg hjc, if_neg hjc]
      exact ⟨rfl, rfl⟩

/-- The loop of a truncation finds the chunk the last kept byte is in. -/
theorem truncPass_spec (h : Holds a head tail size L) {newSize : Nat} (hpos : 0 < newSize)
    (hlt : newSize < size) :
    ∃ last, loop (truncPass a) (newSize / chunkSize + 2) ⟨newSize, head, none⟩ =
      some ⟨newSize - chunkSize * ((newSize - 1) / chunkSize),
        L[(newSize - 1) / chunkSize]?, last⟩ := by
  have hsize := size_le_of_holds h
  have hspec := loop_spec (truncPass a)
    (fun t => 0 < t.remaining ∧ ∃ k, t.current = L[k]? ∧ chunkSize * k + t.remaining = newSize)
    (fun t => t.remaining / chunkSize)
    (fun t => t.remaining = newSize - chunkSize * ((newSize - 1) / chunkSize) ∧
      t.current = L[(newSize - 1) / chunkSize]?) ?_ ?_
    (newSize / chunkSize + 2) ⟨newSize, head, none⟩
    ⟨hpos, 0, h.linked.head_eq, by simp only [mul_zero, zero_add]⟩
    (show newSize / chunkSize < newSize / chunkSize + 2 by omega)
  · rcases hspec with ⟨⟨rem, cur, last⟩, hrun, hrem, hcur⟩
    simp only at hrem hcur
    exact ⟨last, by rw [hrun, hrem, hcur]⟩
  · rintro ⟨rem, cur, last⟩ t' ⟨hrem, k, hcur, hk⟩ hbody
    rcases hc : cur with _ | c
    · rw [hc] at hbody; cases hbody
    rw [hc] at hcur hbody
    simp only [truncPass] at hbody
    by_cases hgt : rem > chunkSize
    · rw [if_pos hgt] at hbody
      simp only [Pass.again.injEq] at hbody
      rw [← hbody]
      simp only [chunkSize] at hgt hk ⊢
      exact ⟨⟨Nat.sub_pos_of_lt hgt, k + 1, h.linked.next_eq k c hcur.symm, by omega⟩, by omega⟩
    · rw [if_neg hgt] at hbody; cases hbody
  · rintro ⟨rem, cur, last⟩ t' ⟨hrem, k, hcur, hk⟩ hbody
    simp only at hrem hcur hk
    rcases hc : cur with _ | _
    · -- The kept part is shorter than the file, so the chain does not end here.
      rw [hc] at hcur
      have hkl : L.length ≤ k := getElem?_eq_none_iff.mp hcur.symm
      have := mul_le_mul_left chunkSize hkl
      omega
    rw [hc] at hcur hbody
    simp only [truncPass] at hbody
    by_cases hgt : rem > chunkSize
    · rw [if_pos hgt] at hbody; cases hbody
    rw [if_neg hgt] at hbody
    cases hbody
    simp only [chunkSize] at hgt hk
    have hdiv : (newSize - 1) / chunkSize = k := by simp only [chunkSize]; omega
    rw [hdiv]
    exact ⟨by simp only [chunkSize]; omega, hcur⟩

theorem byteAt_take (hdata : ∀ j ∈ L.take (m + 1), (a'.chunk j).data = (a.chunk j).data) (p : Nat) :
    byteAt a' (L.take (m + 1)) p = if p < chunkSize * (m + 1) then byteAt a L p else 0 := by
  unfold byteAt
  by_cases hp : p < chunkSize * (m + 1)
  · have hdiv : p / chunkSize < m + 1 := Nat.div_lt_of_lt_mul hp
    rw [if_pos hp, getElem?_take_of_lt hdiv]
    rcases hc : L[p / chunkSize]? with _ | c
    · rfl
    have hmem : c ∈ L.take (m + 1) :=
      mem_of_getElem? (by rw [getElem?_take_of_lt hdiv]; exact hc)
    simp only
    rw [hdata c hmem]
  have hdiv : m + 1 ≤ p / chunkSize := by
    simp only [chunkSize] at hp ⊢
    omega
  rw [if_neg hp, getElem?_take_eq_none hdiv]

end LindGrates.Imfs
