import LindGrates.Theory.Imfs.Bytes
import LindGrates.Theory.Imfs.Range

/-!
# File Positions

Where in a file a read or write takes place. A position is an `i64`, but the
chunks are walked with a `usize` of 32 bits, and the cast between the two keeps
the low half without a check. A write at a position of `2 ^ 32` or more lands in
the part of the file that the low half names.

The chunks of all files stand in one vector. It doubles when it is full, and the
grate aborts when a doubling would need more bytes than an `isize` counts, so a
write is honoured only as long as the chunks it leads to fit.

## Main definitions

* `chunksAfter`: How many chunks there are after a write.
* `Honoured`: What a write at a position is to do.
* `Exact`: The position of a descriptor is honoured or refused.

## Theorems

* `exact_iff`: When a position is honoured.
* `position_wraps`: A write at `2 ^ 32` changes the beginning of the file.
-/

namespace LindGrates.Imfs

open FdTables ImfsState List World

/-- A descriptor open on a regular file, with its flags and its position. -/
structure OnFile {T : Type} [FdTables T] (w : World T) (cage fd i : Nat) (flags : BitVec 32)
    (off : Nat) : Prop where
  node : w.getNodeAndFlags cage fd = .ok (.ok (i, flags))
  regular : ∃ head tail, (w.fs.node i).info = .reg head tail
  position : w.fs.getOffset cage fd = .ok off

/-- The most chunks the vector has room for. A chunk takes 1036 bytes, so `2 ^ 21`
    of them, the next capacity, would take more than an `isize` counts. -/
def maxChunks : Nat := 0x100000

/-- The chunks a file of a given size takes. -/
def chunksFor (size : Nat) : Nat :=
  (size + (chunkSize - 1)) / chunkSize

/-- How many chunks there are, used and free, after `n` bytes have been written
    at `off`. Free chunks are used before new ones are made. -/
def chunksAfter (s : ImfsState) (i off n : Nat) : Nat :=
  s.chunks.length + (chunksFor (max (s.node i).totalSize (off + n)) -
    chunksFor (s.node i).totalSize - s.chunkFreeList.length)

/-- Some bytes have been written at `off`: the file reaches as far as they do,
    they stand there, and all other bytes are what they were. -/
structure Lands (s s' : ImfsState) (i off : Nat) (bytes : List UInt8) : Prop where
  size : (s'.node i).totalSize = max (s.node i).totalSize (off + bytes.length)
  stored : ∀ k, k < bytes.length → s'.readFromNode i (off + k) 1 = .ok [bytes.getD k 0]
  kept : ∀ p, p < (s.node i).totalSize → ¬ (off ≤ p ∧ p < off + bytes.length) →
    s'.readFromNode i p 1 = s.readFromNode i p 1

/-- A write that lands at `off` and finds room for its chunks. -/
structure Honoured (s s' : ImfsState) (i off : Nat) (bytes : List UInt8) : Prop
    extends Lands s s' i off bytes where
  room : s'.chunks.length ≤ maxChunks

/-- A call that writes at `off` is refused, or all its bytes are written there. -/
def WritesExactly {T : Type} (w : World T) (i off : Nat) (buf : Slice)
    (call : Outcome (Reply T)) : Prop :=
  ∃ ret w', call = .ok (ret, w') ∧
    (ret < 0 ∨ ret = buf.bytes.length ∧ Honoured w.fs w'.fs i off buf.bytes)

/-- Writes of `n` bytes at a position are refused or honoured, and reads at or
    behind the end of the file find nothing. With `O_APPEND`, a `write` is not at
    the position. -/
def Exact {T : Type} [FdTables T] (w : World T) (cage fd i : Nat) (flags : BitVec 32)
    (off n : Nat) : Prop :=
  (flags &&& oAccmode ≠ oRdonly → ∀ buf : Slice, buf.bytes.length = n →
    WritesExactly w i off buf (w.pwrite cage fd buf off) ∧
    (has flags oAppend = false → WritesExactly w i off buf (w.write cage fd buf))) ∧
  (flags &&& oAccmode ≠ oWronly → (w.fs.node i).totalSize ≤ off → ∀ len,
    (∃ w', w.pread cage fd len off = .ok (0, w')) ∧ ∃ w', w.read cage fd len = .ok (0, w'))

section Write

variable {s : ImfsState} {chain : Nat → List Nat} {i : Nat} {head tail : Option Nat}

theorem readFromNode_one (h : FilesOk s chain) (hinfo : (s.node i).info = .reg head tail) {p : Nat}
    (hp : p < (s.node i).totalSize) :
    s.readFromNode i p 1 = .ok [byteAt s.toArena (chain i) p] := by
  rw [readFromNode_spec h hinfo,
    take_one_drop_eq_of_lt_length (by rw [length_contents]; exact hp)]
  simp only [contents, get_eq_getElem, getElem_map, getElem_range]

/-- A write lands at the index it is given, with as many chunks as that takes. -/
theorem lands_writeToNode (h : FilesOk s chain) (hinfo : (s.node i).info = .reg head tail)
    (off : Nat) {buf : List UInt8} (hb : buf ≠ []) :
    ∃ a head' tail' size,
      s.writeToNode i off buf = .ok (buf.length, s.setFile i a head' tail' size) ∧
      (s.setFile i a head' tail' size).chunks.length = chunksAfter s i off buf.length ∧
      Lands s (s.setFile i a head' tail' size) i off buf := by
  rcases writeToNode_spec h hinfo off hb with ⟨a, head', tail', L', hrun, hw, hh, htaken, hbyte⟩
  have hlt : i < s.nodes.length := lt_of_info_ne_free (by simp [hinfo])
  have hnode := node_setFile s a head' tail'
    (max (s.node i).totalSize (off + buf.length)) hlt i
  rw [if_pos rfl] at hnode
  have hread : ∀ p, p < max (s.node i).totalSize (off + buf.length) →
      (s.setFile i a head' tail' (max (s.node i).totalSize (off + buf.length))).readFromNode i p 1 =
        .ok [byteAfter s.toArena (chain i) (s.node i).totalSize off buf buf.length p] := by
    intro p hp
    rw [readFromNode_one (filesOk_setFile h hinfo hw hh) (by rw [hnode]) (by rw [hnode]; exact hp),
      Function.update_self, ← hbyte]
    rfl
  refine ⟨a, head', tail', _, hrun, ?_, by rw [hnode], fun k hk => ?_, fun p hp hout => ?_⟩
  · rw [chunksAfter, chunksFor, chunksFor, ← hh.length_eq, ← (h.holds i head tail hinfo).length_eq]
    exact htaken.length_eq
  · rw [hread _ (by omega), byteAfter, if_pos (by omega), Nat.add_sub_cancel_left]
  · rw [hread p (by omega), readFromNode_one h hinfo hp, byteAfter, if_neg hout, if_neg (by omega)]

/-- A write lands at one place only, as its first byte is not the one that stood
    there: a place further on would keep that byte. -/
theorem le_of_lands {s' : ImfsState} {off low : Nat} {bytes : List UInt8} (hb : bytes ≠ [])
    (hnew : s.readFromNode i low 1 ≠ .ok [bytes.getD 0 0]) (hlow : Lands s s' i low bytes)
    (hoff : Lands s s' i off bytes) : off ≤ low := by
  by_contra hlt
  have hpos := length_pos_iff.mpr hb
  have hend := hlow.size.symm.trans hoff.size
  have hkept := hoff.kept low (by omega) (by omega)
  rw [← hkept] at hnew
  exact hnew (hlow.stored 0 hpos)

end Write

theorem exists_new (s : ImfsState) (i p : Nat) :
    ∃ c : UInt8, s.readFromNode i p 1 ≠ .ok [c] := by
  by_cases h : s.readFromNode i p 1 = .ok [0]
  · refine ⟨1, ?_⟩
    rw [h]
    decide
  · exact ⟨0, h⟩

section Calls

variable {T : Type} [FdTables T] {w : World T} {cage fd i off : Nat} {flags : BitVec 32}

theorem asUsize_natCast (n : Nat) : asUsize n = n % 2 ^ 32 := by
  rw [asUsize]
  omega

theorem writes_eq (h : OnFile w cage fd i flags off) (hrd : flags &&& oAccmode ≠ oRdonly)
    {buf : Slice} {a : Arena} {head tail : Option Nat} {n size : Nat}
    (hrun : w.fs.writeToNode i (asUsize off) buf.bytes =
      .ok (n, w.fs.setFile i a head tail size)) :
    w.pwrite cage fd buf off = .ok (asI32 n, { w with fs := w.fs.setFile i a head tail size }) ∧
      (has flags oAppend = false → ∃ arcs, w.write cage fd buf =
        .ok (asI32 n, { w with fs := { w.fs.setFile i a head tail size with arcs := arcs } })) := by
  rcases h with ⟨hn, ⟨head0, tail0, hinfo⟩, hpos⟩
  have hreg : (w.fs.node i).nodeType = .reg := by rw [Node.nodeType, hinfo]; rfl
  have hneg : ¬ (off : Int) < 0 := by omega
  constructor
  · rw [pwrite, if_neg hneg, hn]
    change (if _ then _ else _) = _
    rw [if_neg (not_not.mpr hreg), if_neg hrd, hrun]
    change w.reply _ (touchWritten _ _ _) = _
    rw [touchWritten_eq]
    rfl
  · intro happ
    rcases hfd : w.fs.fdInfo (cage, fd) with _ | a'
    · rw [getOffset, hfd] at hpos; cases hpos
    apply Exists.intro
    rw [write, hn]
    change (if _ then _ else _) = _
    rw [if_neg (not_not.mpr hreg), if_neg hrd, writeOffset, happ, if_neg (by decide), hpos]
    change (do let p ← w.fs.writeToNode i (asUsize off) buf.bytes; _) = _
    rw [hrun]
    change (do let fs ← (touchWritten _ _ _).setOffset cage fd _; _) = _
    rw [touchWritten_eq, setOffset, show (w.fs.setFile i a head tail size).fdInfo _ = _ from hfd]
    rfl

theorem reads_eq (h : OnFile w cage fd i flags off) (hwr : flags &&& oAccmode ≠ oWronly)
    {len : Nat} {out : List UInt8} (hrun : w.fs.readFromNode i (asUsize off) len = .ok out) :
    (∃ w', w.pread cage fd len off = .ok (asI32 out.length, w')) ∧
      ∃ w', w.read cage fd len = .ok (asI32 out.length, w') := by
  rcases h with ⟨hn, ⟨head0, tail0, hinfo⟩, hpos⟩
  have hreg : (w.fs.node i).nodeType = .reg := by rw [Node.nodeType, hinfo]; rfl
  have hneg : ¬ (off : Int) < 0 := by omega
  constructor
  · refine ⟨w, ?_⟩
    rw [pread, if_neg hneg, hn]
    change (if _ then _ else _) = _
    rw [if_neg (not_not.mpr hreg), if_neg hwr, hrun]
    change w.reply (asI32 _) (if _ then _ else _) = _
    rw [updateAtime_eq, ite_self]
    rfl
  · rcases hfd : w.fs.fdInfo (cage, fd) with _ | _
    · rw [getOffset, hfd] at hpos; cases hpos
    apply Exists.intro
    rw [World.read, readData, hn]
    change (if _ then _ else _) >>= _ = _
    rw [if_neg (not_not.mpr hreg), if_neg hwr, hpos]
    change (do let out ← w.fs.readFromNode i (asUsize off) len; _) >>= _ = _
    rw [hrun]
    change ((if _ then _ else _) : ImfsState).setOffset cage fd _ >>= _ >>= _ = _
    rw [updateAtime_eq, ite_self, setOffset, hfd]
    rfl

/-- The calls honour a position exactly when it is below `2 ^ 32` and the vector
    has room for the chunks of the write, unless the descriptor cannot write and
    its reads find nothing either way. -/
theorem exact_iff [LawfulFdTables T] (hw : Reachable Unrestricted w)
    (h : OnFile w cage fd i flags off) {n : Nat} (hn : 0 < n) (hlen : n < 2 ^ 31) :
    Exact w cage fd i flags off n ↔
      off < 2 ^ 32 ∧ chunksAfter w.fs i off n ≤ maxChunks ∨ flags &&& oAccmode = oRdonly ∧
        ((w.fs.node i).totalSize ≤ off → (w.fs.node i).totalSize ≤ off % 2 ^ 32) := by
  rcases (inRange_of_reachable hw).fit.files with ⟨chain, hfiles⟩
  rcases h.regular with ⟨head, tail, hinfo⟩
  have hzero : asI32 (([] : List UInt8).length : Int) = 0 := asI32_natCast (by decide)
  have hnil : ∀ len, (w.fs.node i).totalSize ≤ asUsize off →
      w.fs.readFromNode i (asUsize off) len = .ok [] := fun len hend => by
    rw [readFromNode, if_pos hend]
  constructor
  · rintro ⟨hwrites, hreads⟩
    by_cases hrd : flags &&& oAccmode = oRdonly
    · refine .inr ⟨hrd, fun hend => ?_⟩
      by_contra hlt
      have hwr : flags &&& oAccmode ≠ oWronly := by rw [hrd]; decide
      have hone := readFromNode_one hfiles hinfo (p := asUsize off)
        (by rw [asUsize_natCast]; omega)
      rcases (reads_eq h hwr hone).1 with ⟨w₁, h₁⟩
      rcases (hreads hwr hend 1).1 with ⟨w₂, h₂⟩
      rw [h₁, length_singleton, asI32_natCast (by decide)] at h₂
      cases h₂
    refine .inl ?_
    -- Bytes that differ from the one that stands where the write will land.
    rcases exists_new w.fs i (asUsize off) with ⟨c, hc⟩
    have hne : replicate n c ≠ [] := length_pos_iff.mp (by rw [length_replicate]; exact hn)
    have hfirst : (replicate n c).getD 0 0 = c := getD_replicate c hn
    rcases lands_writeToNode hfiles hinfo (asUsize off) hne with
      ⟨a, head', tail', size, hrun, hcount, hlands⟩
    rw [length_replicate] at hrun hcount
    rcases (hwrites hrd ⟨replicate n c, by rw [length_replicate]; exact hlen⟩
      length_replicate).1 with ⟨ret, w', hr, hor⟩
    rw [(writes_eq h hrd hrun).1] at hr
    simp only [Except.ok.injEq, Prod.mk.injEq] at hr
    rcases hr with ⟨rfl, rfl⟩
    rcases hor with hneg | ⟨_, hon⟩
    · rw [asI32_natCast hlen] at hneg
      omega
    have hle := le_of_lands hne (by rw [hfirst]; exact hc) hlands hon.toLands
    have hlt : off < 2 ^ 32 := by
      rw [asUsize_natCast] at hle
      omega
    rw [asUsize_natCast, Nat.mod_eq_of_lt hlt] at hcount
    exact ⟨hlt, hcount ▸ hon.room⟩
  · intro hcond
    refine ⟨fun hrd buf hb => ?_, fun hwr hend len => ?_⟩
    · rcases hcond.resolve_right fun hc => hrd hc.1 with ⟨hlt, hroom⟩
      have hoff : asUsize off = off := by rw [asUsize_natCast, Nat.mod_eq_of_lt hlt]
      have hne : buf.bytes ≠ [] := length_pos_iff.mp (by omega)
      rcases lands_writeToNode hfiles hinfo off hne with
        ⟨a, head', tail', size, hrun, hcount, hlands⟩
      have hh : Honoured w.fs (w.fs.setFile i a head' tail' size) i off buf.bytes :=
        ⟨hlands, by rw [hcount, hb]; exact hroom⟩
      have hret : asI32 (buf.bytes.length : Int) = buf.bytes.length := asI32_natCast (by omega)
      rcases writes_eq h hrd (by rw [hoff]; exact hrun) with ⟨hp, hwrite⟩
      refine ⟨⟨_, _, hp, .inr ⟨hret, hh⟩⟩, fun happ => ?_⟩
      rcases hwrite happ with ⟨arcs, hwr⟩
      exact ⟨_, _, hwr, .inr ⟨hret, ⟨hh.size, hh.stored, hh.kept⟩, hh.room⟩⟩
    · have hlow : (w.fs.node i).totalSize ≤ asUsize off := by
        rw [asUsize_natCast]
        rcases hcond with ⟨hlt, _⟩ | ⟨_, hlow⟩
        · rwa [Nat.mod_eq_of_lt hlt]
        · exact hlow hend
      rw [← hzero]
      exact reads_eq h hwr (hnil len hlow)

end Calls

/-- A file of three bytes, and a position in it or beyond. -/
def seekRun (off : Int) : List Call :=
  [.preexec 1,
    .openPath 1 ['/', 'a'] (oCreat ||| oRdwr) 0o644#32,
    .pwrite 1 3 ⟨[6, 7, 8], by decide⟩ 0,
    .lseek 1 3 off 0]

theorem exact_iff_seekRun :
    Exact ((seekRun 2).foldl serve (boot 8)) 1 3 3 (oCreat ||| oRdwr) 2 5 :=
  (exact_iff (reachable_foldl_serve _ (.start _ (initial_boot 8)) (by decide +kernel))
    ⟨by decide +kernel, ⟨some 0, some 0, by decide +kernel⟩, by decide +kernel⟩
    (by decide) (by decide)).mpr (.inl ⟨by decide, by decide +kernel⟩)

/-- A byte written at `2 ^ 32` replaces the first byte of the file. -/
theorem position_wraps :
    ∃ w : World (MapTables 8), Reachable Unrestricted w ∧
      OnFile w 1 3 3 (oCreat ||| oRdwr) (2 ^ 32) ∧
      ¬ Exact w 1 3 3 (oCreat ||| oRdwr) (2 ^ 32) 1 := by
  refine ⟨(seekRun (2 ^ 32)).foldl serve (boot 8),
    reachable_foldl_serve _ (.start _ (initial_boot 8)) (by decide +kernel),
    ⟨by decide +kernel, ⟨some 0, some 0, by decide +kernel⟩, by decide +kernel⟩, fun h => ?_⟩
  rcases (h.1 (by decide) ⟨[9], by decide⟩ rfl).1 with ⟨ret, w', hr, hor⟩
  have hbyte : (((seekRun (2 ^ 32)).foldl serve (boot 8)).pwrite 1 3 ⟨[9], by decide⟩
      ((2 ^ 32 : Nat) : Int)).map (fun r => (r.1, r.2.fs.readFromNode 3 0 1)) =
      .ok (1, .ok [9]) := by
    decide +kernel
  rw [hr] at hbyte
  simp only [Except.map, Except.ok.injEq, Prod.mk.injEq] at hbyte
  rcases hor with hneg | ⟨_, hon⟩
  · rw [hbyte.1] at hneg
    exact absurd hneg (by decide)
  have hread := hon.kept 0 (by decide +kernel) (by decide)
  rw [hbyte.2] at hread
  exact absurd hread (by decide +kernel)

end LindGrates.Imfs
