import LindGrates.Base.ByteFile
import LindGrates.Theory.Imfs.Files

/-!
# Files as Byte Arrays

A run keeps, beside the state, the plain file each slot should behave as. The two
agree as long as no call brings stale bytes back. A truncation leaves the bytes behind
the new end in the last chunk. A later write that starts in that chunk clears
them, but one that starts behind it, or an extension that ends behind it, makes
them part of the file without clearing them.

## Main definitions

* `FileCall`: Nodes are created, files written and truncated, and slots freed.
* `tailClean`: A file has no stale bytes.
* `KeepsClean`: The condition on a call.

## Theorems

* `fileRun_refines`: A run of such calls leaves every file as its plain file.
* `fileRun_stale`: A byte that comes back.
-/

namespace LindGrates.Imfs

open ImfsState Function List

variable {a a' : Arena} {L : List Nat} {size : Nat} {buf : List UInt8}
  {f : List UInt8 → List UInt8} {call : FileCall} {cond : ImfsState → FileCall → Prop}
  {x : ImfsState × PlainFiles}

inductive FileCall
  | create (name : Str) (nodeType : NodeType) (mode : BitVec 32)
  | write (i off : Nat) (buf : List UInt8)
  | truncate (i newSize : Nat)
  | reclaim (i : Nat)

abbrev PlainFiles := Nat → Option (List UInt8)

namespace FileCall

/-- What a call does to the filesystem. Freeing a slot outside the arena
    panics. -/
def run (s : ImfsState) : FileCall → Outcome ImfsState
  | .create name nodeType mode => .ok (s.createNode name nodeType mode).2
  | .write i off buf => do
    let (_, s) ← s.writeToNode i off buf
    return s
  | .truncate i newSize => s.truncateNode i newSize
  | .reclaim i => if i < s.nodes.length then s.reclaimNode i else .error .panic

def effect (s : ImfsState) (A : PlainFiles) : FileCall → PlainFiles
  | .create _ nodeType _ => update A s.nextSlot (if nodeType = .reg then some [] else none)
  | .write i off buf => update A i ((A i).map fun l => fileWrite l off buf)
  | .truncate i newSize => update A i ((A i).map fun l => fileTruncate l newSize)
  | .reclaim i => update A i none

def serve (x : ImfsState × PlainFiles) (call : FileCall) : ImfsState × PlainFiles :=
  match call.run x.1 with
  | .ok s' => (s', call.effect x.1 x.2)
  | .error _ => x

end FileCall

/-- A run of calls on the filesystem and on plain files, from startup on. -/
inductive FileRun (cond : ImfsState → FileCall → Prop) : ImfsState → PlainFiles → Prop
  | start (s : ImfsState) (h : init = .ok s) : FileRun cond s fun _ => none
  | next (s : ImfsState) (A : PlainFiles) (call : FileCall) (s' : ImfsState)
      (hrun : FileRun cond s A) (hcond : cond s call) (hcall : call.run s = .ok s') :
      FileRun cond s' (call.effect s A)

/-- The bytes of the last chunk that the file does not use are zero. -/
def tailClean (s : ImfsState) (i : Nat) : Bool :=
  match (s.node i).info with
  | .reg _ (some t) => ((s.chunk t).data.drop (s.chunk t).used).all fun b => b = 0
  | _ => true

/-- A write of nothing starts inside the file, and a write or an extension that
    starts behind the last chunk finds that chunk clean. -/
def KeepsClean (s : ImfsState) : FileCall → Prop
  | .write i off buf =>
    (buf = [] → off ≤ (s.node i).totalSize) ∧
      (buf ≠ [] → chunkSize * (((s.node i).totalSize + (chunkSize - 1)) / chunkSize) ≤ off →
        tailClean s i = true)
  | .truncate i newSize =>
    (s.node i).totalSize < newSize →
      chunkSize * (((s.node i).totalSize + (chunkSize - 1)) / chunkSize) ≤ newSize - 1 →
        tailClean s i = true
  | _ => True

instance (s : ImfsState) (call : FileCall) : Decidable (KeepsClean s call) :=
  match call with
  | .write _ _ _ => inferInstanceAs (Decidable (_ ∧ _))
  | .truncate _ _ => inferInstanceAs (Decidable (_ → _))
  | .create _ _ _ => .isTrue trivial
  | .reclaim _ => .isTrue trivial

@[simp] theorem length_contents (a : Arena) (L : List Nat) (size : Nat) :
    (contents a L size).length = size := by
  rw [contents, length_map, length_range]

theorem getD_contents (a : Arena) (L : List Nat) (size p : Nat) :
    (contents a L size).getD p 0 = if p < size then byteAt a L p else 0 := by
  by_cases hp : p < size
  · rw [if_pos hp, getD_eq_getElem _ _ (by rw [length_contents]; exact hp)]
    simp only [contents, getElem_map, getElem_range]
  rw [if_neg hp, getD_eq_default]
  rw [length_contents]
  exact Nat.le_of_not_lt hp

variable {s : ImfsState} {chain : Nat → List Nat} {i : Nat} {L' : List Nat} {A : PlainFiles}

theorem byteAt_of_tailClean {head tail : Option Nat} (h : FilesOk s chain)
    (hinfo : (s.node i).info = .reg head tail) (hclean : tailClean s i = true) {p : Nat}
    (hp : (s.node i).totalSize ≤ p) : byteAt s.toArena (chain i) p = 0 := by
  have hh := h.holds i head tail hinfo
  have hlen := hh.length_eq
  unfold byteAt
  rcases hc : (chain i)[p / chunkSize]? with _ | c
  · rfl
  -- A position behind the end that is still in a chunk is in the last one.
  have hlt : p / chunkSize < (chain i).length := (List.getElem?_eq_some_iff.mp hc).1
  have hlast : p / chunkSize = (chain i).length - 1 := by
    simp only [chunkSize] at hlen hlt ⊢
    omega
  have htail : tail = some c := by
    rw [hh.tail_eq, List.getLast?_eq_getElem?, ← hlast]
    exact hc
  have hused : (s.chunk c).used ≤ p % chunkSize := by
    rw [hh.used_eq _ c hc]
    simp only [chunkSize] at hlen hlast ⊢
    omega
  rw [htail] at hinfo
  simp only [tailClean, hinfo, all_eq_true, decide_eq_true_eq] at hclean
  simp only
  by_cases hin : p % chunkSize < (s.chunk c).data.length
  · rw [getD_eq_getElem _ _ hin]
    refine hclean _ (mem_iff_getElem.mpr ⟨p % chunkSize - (s.chunk c).used, ?_, ?_⟩)
    · rw [length_drop]
      omega
    · simp only [getElem_drop, Nat.add_sub_cancel' hused]
  · exact getD_eq_default _ _ (Nat.le_of_not_lt hin)

/-- A write that finds only zeros where it starts behind the last chunk does to
    the contents what it does to a plain file. -/
theorem contents_write {off : Nat}
    (hlen : L.length = (size + (chunkSize - 1)) / chunkSize) (hb : buf ≠ [])
    (hbyte : ∀ p, byteAt a' L' p = byteAfter a L size off buf buf.length p)
    (hclean : chunkSize * L.length ≤ off → ∀ p, size ≤ p → byteAt a L p = 0) :
    contents a' L' (max size (off + buf.length)) = fileWrite (contents a L size) off buf := by
  have hpos : 0 < buf.length := length_pos_of_ne_nil hb
  refine eq_of_getD ?_ fun p hp => ?_
  · rw [length_contents, length_fileWrite, length_contents]
  · rw [length_contents] at hp
    rw [getD_contents, if_pos hp, getD_fileWrite, hbyte, byteAfter, getD_contents]
    by_cases hin : off ≤ p ∧ p < off + buf.length
    · rw [if_pos hin, if_pos hin]
    rw [if_neg hin, if_neg hin]
    by_cases hold : p < size
    · rw [if_pos hold, if_neg (by omega)]
    -- In the gap: either the write cleared the chunk, or no chunk was there,
    -- or it is a chunk the write has passed over.
    rw [if_neg hold]
    by_cases hsame : p / chunkSize = off / chunkSize
    · rw [if_pos ⟨hpos, Nat.le_of_not_lt hold, by omega, hsame⟩]
    rw [if_neg (fun hc => hsame hc.2.2.2)]
    by_cases hchunk : p / chunkSize < L.length
    · refine hclean ?_ p (Nat.le_of_not_lt hold)
      simp only [chunkSize] at hlen hsame hchunk ⊢
      omega
    · rw [byteAt, List.getElem?_eq_none_iff.mpr (Nat.le_of_not_lt hchunk)]

theorem contents_shrink {newSize : Nat} (hlt : newSize < size) (hbyte : ∀ p, byteAt a' L' p =
      if p < chunkSize * ((newSize + (chunkSize - 1)) / chunkSize) then byteAt a L p else 0) :
    contents a' L' newSize = fileTruncate (contents a L size) newSize := by
  refine eq_of_getD ?_ fun p hp => ?_
  · rw [length_contents, length_fileTruncate]
  · rw [length_contents] at hp
    have hin : p < chunkSize * ((newSize + (chunkSize - 1)) / chunkSize) := by
      simp only [chunkSize]
      omega
    rw [getD_contents, if_pos hp, getD_fileTruncate, if_pos hp, getD_contents,
      if_pos (Nat.lt_trans hp hlt), hbyte, if_pos hin]

structure FileInv (s : ImfsState) (A : PlainFiles) (chain : Nat → List Nat) : Prop where
  files : FilesOk s chain
  free : s.FreeInRange
  agree : ∀ i l, A i = some l → ∃ head tail, (s.node i).info = .reg head tail ∧
    contents s.toArena (chain i) (s.node i).totalSize = l

/-- The frame rule: a call on slot `i` has to be looked at there only. -/
theorem fileInv_update {s' : ImfsState} {x : Option (List UInt8)} (h : FileInv s A chain)
    (hfiles : FilesOk s' (update chain i L')) (hfree : s'.FreeInRange)
    (hnode : ∀ j, j ≠ i → s'.node j = s.node j)
    (hbytes : ∀ j head tail, (s.node j).info = .reg head tail → j ≠ i →
      ∀ p, byteAt s'.toArena (chain j) p = byteAt s.toArena (chain j) p)
    (hself : ∀ l, x = some l → ∃ head tail, (s'.node i).info = .reg head tail ∧
      contents s'.toArena L' (s'.node i).totalSize = l) :
    FileInv s' (update A i x) (update chain i L') := by
  refine ⟨hfiles, hfree, fun j l hl => ?_⟩
  by_cases hji : j = i
  · rw [hji, update_self] at hl
    rw [hji, update_self]
    exact hself l hl
  rw [update_of_ne hji] at hl
  rw [update_of_ne hji, hnode j hji]
  rcases h.agree j l hl with ⟨head, tail, hinfo, hcont⟩
  refine ⟨head, tail, hinfo, ?_⟩
  rw [← hcont, contents, contents]
  exact map_congr_left fun p _ => hbytes j head tail hinfo hji p

theorem plain_eq_none (h : FileInv s A chain)
    (hinfo : ∀ head tail, (s.node i).info ≠ .reg head tail) : A i = none := by
  rcases hA : A i with _ | l
  · rfl
  rcases h.agree i l hA with ⟨head, tail, hreg, _⟩
  exact absurd hreg (hinfo head tail)

section Steps

variable {s s' : ImfsState} {A : PlainFiles} {chain : Nat → List Nat} {i : Nat}
  {head tail : Option Nat}

section

variable (h : FileInv s A chain)

include h

theorem fileInv_setFile (hinfo : (s.node i).info = .reg head tail)
    {head' tail' : Option Nat} {L' : List Nat}
    (hw : Within s.toArena (chain i) a L') (hh : Holds a head' tail' size L')
    (hf : contents a L' size = f (contents s.toArena (chain i) (s.node i).totalSize)) :
    FileInv (s.setFile i a head' tail' size) (update A i ((A i).map f))
      (update chain i L') := by
  have hlt : i < s.nodes.length := lt_of_info_ne_free (by simp [hinfo])
  have hnode := node_setFile s a head' tail' size hlt
  refine fileInv_update h (filesOk_setFile h.files hinfo hw hh) (fun j hj => ?_)
    (fun j hji => ?_) (fun j hj tj hinfoj hji => ?_) fun l hl => ?_
  · have hlen : (s.setFile i a head' tail' size).nodes.length = s.nodes.length :=
      length_modifyNode s i _
    rw [hlen]
    exact h.free j hj
  · rw [hnode j, if_neg hji]
  · exact byteAt_of_within (h.files.holds j hj tj hinfoj).toOwned hw
      (h.files.disjoint i j head tail hj tj hinfo hinfoj fun hij => hji hij.symm)
  · rcases Option.map_eq_some_iff.mp hl with ⟨l0, hl0, hfl⟩
    rcases h.agree i l0 hl0 with ⟨_, _, _, hcont⟩
    rw [hnode i, if_pos rfl]
    refine ⟨head', tail', rfl, ?_⟩
    change contents a L' size = l
    rw [hf, hcont, hfl]

theorem fileInv_write (off : Nat) (hb : buf ≠ []) (hinfo : (s.node i).info = .reg head tail)
    (hclean : chunkSize * (((s.node i).totalSize + (chunkSize - 1)) / chunkSize) ≤ off →
      tailClean s i = true) {n : Nat} (hcall : s.writeToNode i off buf = .ok (n, s')) :
    ∃ chain', FileInv s' (update A i ((A i).map fun l => fileWrite l off buf)) chain' := by
  have hlen := (h.files.holds i head tail hinfo).length_eq
  rcases writeToNode_spec h.files hinfo off hb with ⟨a, head', tail', L', hrun, hw, hh, _, hbyte⟩
  rw [hrun] at hcall
  cases hcall
  refine ⟨_, fileInv_setFile h hinfo hw hh ?_⟩
  refine contents_write hlen hb hbyte fun hoff p hp => ?_
  rw [hlen] at hoff
  exact byteAt_of_tailClean h.files hinfo (hclean hoff) hp

theorem fileInv_same (hf : ∀ l, A i = some l → f l = l) :
    ∃ chain', FileInv s (update A i ((A i).map f)) chain' := by
  have hA : (A i).map f = A i := by
    cases hl : A i with
    | none => rfl
    | some l => rw [Option.map_some, hf l hl]
  rw [hA, update_eq_self]
  exact ⟨chain, h⟩

theorem length_of_agree {l : List UInt8} (hl : A i = some l) : l.length = (s.node i).totalSize := by
  rcases h.agree i l hl with ⟨_, _, _, hcont⟩
  rw [← hcont, length_contents]

theorem fileInv_step (hcond : KeepsClean s call)
    (hcall : call.run s = .ok s') : ∃ chain', FileInv s' (call.effect s A) chain' := by
  cases call with
  | create name ty mode =>
    cases hcall
    have hnode := s.node_createNode name ty mode h.free
    refine ⟨_, fileInv_update h (filesOk_createNode h.files h.free name ty mode)
      (freeInRange_createNode h.free name ty mode) (fun j hji => ?_)
      (fun j hj tj _ _ p => ?_) fun l hl => ?_⟩
    · rw [hnode j, if_neg hji]
    · rw [(s.createNode_frame name ty mode).1]
    · rw [hnode, if_pos rfl]
      by_cases hty : ty = .reg
      · rw [if_pos hty] at hl
        cases hl
        rw [hty]
        exact ⟨none, none, rfl, rfl⟩
      · rw [if_neg hty] at hl
        cases hl
  | write i off buf =>
    rcases (bind_eq_ok _ _ _).mp hcall with ⟨⟨n, s1⟩, hwrite, hs'⟩
    cases hs'
    by_cases hb : buf = []
    · rw [writeToNode, if_pos hb] at hwrite
      cases hwrite
      refine fileInv_same h fun l hl => ?_
      rw [hb]
      exact fileWrite_nil (by rw [length_of_agree h hl]; exact hcond.1 hb)
    cases hinfo : (s.node i).info with
    | reg => exact fileInv_write h off hb hinfo (hcond.2 hb) hwrite
    | _ =>
      simp only [writeToNode, if_neg hb, hinfo] at hwrite
      cases hwrite
      refine fileInv_same h fun l hl => ?_
      rw [plain_eq_none h (by simp [hinfo])] at hl
      cases hl
  | truncate i newSize =>
    have hcall : s.truncateNode i newSize = .ok s' := hcall
    rcases Nat.lt_trichotomy newSize (s.node i).totalSize with hlt | heq | hgt
    · cases hinfo : (s.node i).info with
      | reg =>
        rcases truncateNode_spec h.files hinfo hlt with
          ⟨a, head', tail', L', hrun, hw, hh, hbyte⟩
        rw [hrun] at hcall
        cases hcall
        exact ⟨_, fileInv_setFile h hinfo hw hh (contents_shrink hlt hbyte)⟩
      | _ =>
        simp only [truncateNode, if_neg (Nat.ne_of_lt hlt), if_neg (Nat.lt_asymm hlt),
          hinfo] at hcall
        cases hcall
        refine fileInv_same h fun l hl => ?_
        rw [plain_eq_none h (by simp [hinfo])] at hl
        cases hl
    · rw [truncateNode] at hcall
      simp only [if_pos heq] at hcall
      cases hcall
      refine fileInv_same h fun l hl => ?_
      have hlen := length_of_agree h hl
      refine eq_of_getD (by rw [length_fileTruncate, hlen, heq]) fun p hp => ?_
      rw [length_fileTruncate] at hp
      rw [getD_fileTruncate, if_pos hp]
    · -- An extension is a write of one zero.
      rw [truncateNode_extend hgt] at hcall
      rcases (bind_eq_ok _ _ _).mp hcall with ⟨⟨n, s1⟩, hwrite, hs'⟩
      cases hs'
      cases hinfo : (s.node i).info with
      | reg =>
        rcases fileInv_write h (newSize - 1) (cons_ne_nil 0 []) hinfo (hcond hgt) hwrite
          with ⟨chain', h'⟩
        refine ⟨chain', ?_⟩
        have heff : (A i).map (fun l => fileWrite l (newSize - 1) [0]) =
            (A i).map fun l => fileTruncate l newSize := by
          refine Option.map_congr fun l hl => fileWrite_zero ?_
          rw [length_of_agree h hl]
          exact hgt
        rw [heff] at h'
        exact h'
      | _ =>
        simp only [writeToNode, if_neg (cons_ne_nil (0 : UInt8) []), hinfo] at hwrite
        cases hwrite
        refine fileInv_same h fun l hl => ?_
        rw [plain_eq_none h (by simp [hinfo])] at hl
        cases hl
  | reclaim i =>
    simp only [FileCall.run] at hcall
    split at hcall
    next hlt =>
      rcases filesOk_reclaimNode h.files i with ⟨s'', hrun, hfiles, hbytes⟩
      rw [hrun] at hcall
      cases hcall
      rcases reclaimNode_ok hrun with ⟨a, _, hs'⟩
      refine ⟨_, fileInv_update h hfiles (fun j hj => ?_) (fun j hji => ?_) hbytes (by simp)⟩
      · rw [hs'] at hj ⊢
        rw [length_modifyNode]
        rcases mem_cons.mp hj with hj | hj
        · rw [hj]
          exact hlt
        · exact h.free j hj
      · rw [hs']
        exact (s.node_modifyNode _ j hlt).trans (if_neg hji)
    · cases hcall

end

end Steps

theorem fileInv_of_fileRun (h : FileRun KeepsClean s A) : ∃ chain, FileInv s A chain := by
  induction h with
  | start s h =>
    cases h
    exact ⟨_, filesOk_initState, nofun, nofun⟩
  | next _ _ _ _ _ hcond hcall ih =>
    rcases ih with ⟨chain, hinv⟩
    exact fileInv_step hinv hcond hcall

/-- A run that brings no stale bytes back leaves every file as its plain file:
    it has that length, reads give its bytes, and the next write or truncation
    returns. -/
theorem fileRun_refines {s : ImfsState} {A : PlainFiles} (h : FileRun KeepsClean s A) {i : Nat}
    {l : List UInt8} (hl : A i = some l) :
    (s.node i).totalSize = l.length ∧
      (∀ off len, ∃ out, s.readFromNode i off len = .ok out ∧
        out.length = min len ((s.node i).totalSize - off) ∧ out = (l.drop off).take len) ∧
      (∀ off buf, ∃ s', s.writeToNode i off buf = .ok (buf.length, s')) ∧
      ∀ newSize, ∃ s', s.truncateNode i newSize = .ok s' := by
  rcases fileInv_of_fileRun h with ⟨chain, hinv⟩
  rcases hinv.agree i l hl with ⟨head, tail, hinfo, hcont⟩
  refine ⟨(length_of_agree hinv hl).symm, fun off len => ?_, fun off buf => ?_, fun newSize => ?_⟩
  · refine ⟨_, readFromNode_spec hinv.files hinfo off len, ?_, by rw [hcont]⟩
    rw [length_take, length_drop, length_contents]
  · by_cases hb : buf = []
    · exact ⟨s, by rw [writeToNode, if_pos hb, hb, length_nil]⟩
    · rcases writeToNode_spec hinv.files hinfo off hb with ⟨a, head', tail', L', hrun, _⟩
      exact ⟨_, hrun⟩
  · rcases filesOk_truncateNode hinv.files i newSize with ⟨s', _, hrun, _⟩
    exact ⟨s', hrun⟩

theorem fileRun_serve (h : FileRun cond x.1 x.2) (hcond : cond x.1 call) :
    FileRun cond (call.serve x).1 (call.serve x).2 := by
  unfold FileCall.serve
  cases hrun : call.run x.1 with
  | error => exact h
  | ok s' => exact FileRun.next x.1 x.2 call s' h hcond hrun

def allMeet (cond : ImfsState → FileCall → Prop) [∀ s call, Decidable (cond s call)] :
    ImfsState × PlainFiles → List FileCall → Bool
  | _, [] => true
  | x, call :: calls => decide (cond x.1 call) && allMeet cond (call.serve x) calls

theorem fileRun_foldl_serve [∀ s call, Decidable (cond s call)] (calls : List FileCall)
    (h : FileRun cond x.1 x.2) (hcond : allMeet cond x calls = true) :
    FileRun cond (calls.foldl FileCall.serve x).1 (calls.foldl FileCall.serve x).2 := by
  induction calls generalizing x with
  | nil => exact h
  | cons _ _ ih =>
    rw [allMeet, Bool.and_eq_true, decide_eq_true_eq] at hcond
    exact ih (fileRun_serve h hcond.1) hcond.2

def noFiles : ImfsState × PlainFiles :=
  (initState, fun _ => none)

/-- A file that is cut back and then written a little behind its new end. -/
def reopenedRun : List FileCall :=
  [.create ['f'] .reg 0o644, .write 3 5 [7], .truncate 3 1, .write 3 8 [9]]

theorem fileRun_refines_reopenedRun :
    let x := reopenedRun.foldl FileCall.serve noFiles
    x.2 3 = some [0, 0, 0, 0, 0, 0, 0, 0, 9] ∧
      ∃ out, x.1.readFromNode 3 4 10 = .ok out ∧
        out.length = min 10 ((x.1.node 3).totalSize - 4) ∧
        out = (([0, 0, 0, 0, 0, 0, 0, 0, 9] : List UInt8).drop 4).take 10 := by
  have hl : (reopenedRun.foldl FileCall.serve noFiles).2 3 = some [0, 0, 0, 0, 0, 0, 0, 0, 9] := by
    decide +kernel
  have hrun := fileRun_foldl_serve reopenedRun (x := noFiles) (.start initState init_eq)
    (show allMeet KeepsClean noFiles reopenedRun = true by decide +kernel)
  exact ⟨hl, (fileRun_refines hrun hl).2.1 4 10⟩

/-- The same file written again behind its last chunk. -/
def staleRun : List FileCall :=
  [.create ['f'] .reg 0o644, .write 3 5 [7], .truncate 3 1, .write 3 1024 [9]]

/-- The byte that was cut off is back, where the plain file has a zero. -/
theorem fileRun_stale :
    ∃ s A l, FileRun (fun _ _ => True) s A ∧ A 3 = some l ∧
      s.readFromNode 3 5 1 = .ok [7] ∧ (l.drop 5).take 1 = [0] := by
  have hrun := fileRun_foldl_serve staleRun (x := noFiles) (.start initState init_eq)
    (show allMeet (fun _ _ => True) noFiles staleRun = true by decide +kernel)
  have hplain : ((staleRun.foldl FileCall.serve noFiles).2 3).map
      (fun l => (l.drop 5).take 1) = some [0] := by
    decide +kernel
  rcases Option.map_eq_some_iff.mp hplain with ⟨l, hl, hzero⟩
  exact ⟨_, _, l, hrun, hl, by decide +kernel, hzero⟩

end LindGrates.Imfs
