import LindGrates.Theory.Imfs.Range

/-!
# Directory Listing

The loop of `getdents` stops in front of the first record that no longer fits behind
the others. It also looks at each record alone, and gives up with `EINVAL` when it
comes to one the whole buffer cannot hold, even after it has written others. An entry
whose hard links run in a circle keeps the call from returning.

## Main definitions

* `Clear`: Nothing of this happens.
* `StuckOnly`: `EINVAL` means that the next record does not fit.

## Theorems

* `getdentsData_clear`: What the call returns.
* `stuckOnly_iff`, `gives_up_late`: What `EINVAL` means, and a call where it does not.
-/

namespace LindGrates.Imfs

open ImfsState List World Nat

variable {e : DirEntry} {es : List DirEntry} {k used : Nat} {out : List UInt8}

def DirEntry.reclen (e : DirEntry) : Nat :=
  direntReclen e.name.len

variable {s : ImfsState} {len : Nat}

/-- The hard links behind an entry come to an end. -/
def Ends (s : ImfsState) (e : DirEntry) : Prop :=
  ∃ i, s.followHardLinks e.nodeIdx = .ok i

/-- Every record a call comes to fits the buffer alone, and the links of every
    entry it writes come to an end. -/
def Clear (s : ImfsState) (len : Nat) : Nat → List DirEntry → Prop
  | _, [] => True
  | used, e :: es => e.reclen ≤ len ∧
    (used + e.reclen ≤ len → Ends s e ∧ Clear s len (used + e.reclen) es)

/-- How many records fit behind the bytes already used. -/
def fitting (len : Nat) : Nat → List DirEntry → Nat
  | _, [] => 0
  | used, e :: es => if used + e.reclen ≤ len then fitting len (used + e.reclen) es + 1 else 0

/-- The type byte of an entry's record. -/
def typeOf (s : ImfsState) (e : DirEntry) : Nat :=
  match s.direntType e.nodeIdx with
  | .ok ty => ty
  | .error _ => 0

def record (s : ImfsState) (k : Nat) (e : DirEntry) : List UInt8 :=
  writeDirentRecord (e.nodeIdx + 1) (k + 1) (typeOf s e) e.name

def records (s : ImfsState) : Nat → List DirEntry → List UInt8
  | _, [] => []
  | k, e :: es => record s k e ++ records s (k + 1) es

theorem direntType_of_ends (h : Ends s e) :
    s.direntType e.nodeIdx = .ok (typeOf s e) := by
  rcases h with ⟨i, hi⟩
  unfold typeOf direntType
  rw [hi]
  rfl

theorem length_asBytes (name : Str) : (Str.asBytes name).length = name.len := by
  simp only [Str.asBytes, Str.len, length_flatMap, String.length_utf8EncodeChar]

theorem length_record (s : ImfsState) (k : Nat) (e : DirEntry) :
    (record s k e).length = e.reclen := by
  simp only [record, writeDirentRecord, DirEntry.reclen, leBytes, length_append, length_map,
    length_range, length_asBytes, length_replicate, direntReclen, dirent64FixedSize]
  omega

/-- The number that bytes stand for, the least significant first. -/
def leNat (bytes : List UInt8) : Nat :=
  bytes.foldr (fun b n => b.toNat + 256 * n) 0

theorem leBytes_succ (n x : Nat) : leBytes (n + 1) x = UInt8.ofNat x :: leBytes n (x / 256) := by
  simp only [leBytes, range_succ_eq_map, map_cons, map_map, pow_zero, Nat.div_one, cons.injEq,
    true_and]
  refine map_congr_left fun k _ => ?_
  rw [Function.comp_apply, Nat.succ_eq_add_one, pow_succ', Nat.div_div_eq_div_mul]

theorem leNat_leBytes (n x : Nat) : leNat (leBytes n x) = x % 256 ^ n := by
  induction n generalizing x with
  | zero => rw [pow_zero, mod_one]; rfl
  | succ n ih =>
    rw [leBytes_succ, pow_succ', mod_mul, ← ih]
    rfl

theorem length_leBytes (n x : Nat) : (leBytes n x).length = n := by
  rw [leBytes, length_map, length_range]

theorem fields_record (s : ImfsState) (k : Nat) (e : DirEntry) (rest : List UInt8) :
    leNat ((record s k e ++ rest).take 8) = (e.nodeIdx + 1) % 256 ^ 8 ∧
      leNat (((record s k e ++ rest).drop 8).take 8) = (k + 1) % 256 ^ 8 ∧
      leNat (((record s k e ++ rest).drop 16).take 2) = e.reclen % 256 ^ 2 ∧
      leNat (((record s k e ++ rest).drop 18).take 1) = typeOf s e % 256 ^ 1 ∧
      (record s k e ++ rest).drop 19 = Str.asBytes e.name ++
        (replicate (e.reclen - dirent64FixedSize - e.name.len) 0 ++ rest) := by
  have hbytes : record s k e ++ rest = leBytes 8 (e.nodeIdx + 1) ++ (leBytes 8 (k + 1) ++
      (leBytes 2 e.reclen ++ (leBytes 1 (typeOf s e) ++ (Str.asBytes e.name ++
        (replicate (e.reclen - dirent64FixedSize - e.name.len) 0 ++ rest))))) := by
    simp only [record, writeDirentRecord, append_assoc]
    rfl
  have hdrop : ∀ m n x (l : List UInt8), (leBytes m x ++ l).drop (n + m) = l.drop n := by
    intro m n x l
    rw [add_comm, ← drop_drop, drop_left' (length_leBytes m x)]
  have htake : ∀ m x (l : List UInt8), leNat ((leBytes m x ++ l).take m) = x % 256 ^ m := by
    intro m x l
    rw [take_left' (length_leBytes m x), leNat_leBytes]
  rw [hbytes]
  refine ⟨htake _ _ _, ?_, ?_, ?_, ?_⟩
  · rw [hdrop 8 0, drop_zero, htake]
  · rw [hdrop 8 8, hdrop 8 0, drop_zero, htake]
  · rw [hdrop 8 10, hdrop 8 2, hdrop 2 0, drop_zero, htake]
  · rw [hdrop 8 11, hdrop 8 3, hdrop 2 1, hdrop 1 0, drop_zero]

theorem direntLoop_cons (s : ImfsState) (len k : Nat) (e : DirEntry) (es : List DirEntry)
    (out : List UInt8) :
    s.direntLoop len k (e :: es) out = if len < e.reclen then .ok (.error (-22))
      else if len < out.length + e.reclen then .ok (.ok (k, out))
      else s.direntType e.nodeIdx >>= fun ty => s.direntLoop len (k + 1) es
        (out ++ writeDirentRecord (e.nodeIdx + 1) (k + 1) ty e.name) :=
  rfl

theorem direntLoop_clear (h : Clear s len out.length es) :
    s.direntLoop len k es out = .ok (.ok (k + fitting len out.length es,
      out ++ records s k (es.take (fitting len out.length es)))) := by
  induction es generalizing k out with
  | nil => simp only [direntLoop, fitting, take_nil, records, append_nil, add_zero]
  | cons e es ih =>
    have hlen : (out ++ record s k e).length = out.length + e.reclen := by
      rw [length_append, length_record]
    rcases h with ⟨hle, hrest⟩
    by_cases hfit : out.length + e.reclen ≤ len
    · rcases hrest hfit with ⟨hends, hclear⟩
      rw [direntLoop_cons, if_neg (not_lt.mpr hle), if_neg (not_lt.mpr hfit),
        direntType_of_ends hends]
      have hrec : Clear s len (out ++ record s k e).length es := by rwa [hlen]
      refine (ih hrec).trans ?_
      simp only [hlen, fitting, if_pos hfit, take_succ_cons, records, append_assoc]
      rw [add_right_comm, add_assoc]
    · rw [direntLoop_cons, if_neg (not_lt.mpr hle), if_pos (not_le.mp hfit)]
      simp only [fitting, if_neg hfit, take_zero, records, append_nil, add_zero]

theorem direntLoop_unclear (h : ¬ Clear s len out.length es) (r : Nat × List UInt8) :
    s.direntLoop len k es out ≠ .ok (.ok r) := by
  induction es generalizing k out with
  | nil => exact absurd trivial h
  | cons e _ ih =>
    rw [direntLoop_cons]
    by_cases hle : e.reclen ≤ len
    · by_cases hfit : out.length + e.reclen ≤ len
      · rw [if_neg (not_lt.mpr hle), if_neg (not_lt.mpr hfit)]
        intro hr
        rcases (bind_eq_ok _ _ _).mp hr with ⟨ty, hty, hr⟩
        have hends : Ends s e := by
          rcases (bind_eq_ok _ _ _).mp hty with ⟨i, hi, _⟩
          exact ⟨i, hi⟩
        rw [direntType_of_ends hends] at hty
        cases hty
        refine ih (fun hclear => h ⟨hle, fun _ => ⟨hends, ?_⟩⟩) hr
        rwa [length_append, ← record, length_record] at hclear
      · exact absurd ⟨hle, fun hc => absurd hc hfit⟩ h
    · rw [if_pos (not_le.mp hle)]
      nofun

theorem fitting_le (es : List DirEntry) (used : Nat) : fitting len used es ≤ es.length := by
  induction es generalizing used with
  | nil => exact le_refl 0
  | cons _ _ ih =>
    rw [fitting]
    split
    · exact succ_le_succ (ih _)
    · exact zero_le _

theorem fitting_pos (hle : e.reclen ≤ len) :
    0 < fitting len 0 (e :: es) := by
  rw [fitting, zero_add, if_pos hle]
  exact succ_pos _

theorem length_fitting (h : used ≤ len) (es : List DirEntry) :
    used + (records s k (es.take (fitting len used es))).length ≤ len := by
  induction es generalizing used k with
  | nil => exact h
  | cons e es ih =>
    rw [fitting]
    split
    next hfit =>
      have := ih (k := k + 1) hfit
      rw [take_succ_cons, records, length_append, length_record]
      omega
    · exact h

variable {T : Type} [FdTables T] {w : World T} {cage fd k : Nat} {children : List DirEntry}

/-- A descriptor open for reading on a directory, with its position. -/
structure OnDir (w : World T) (cage fd : Nat) (children : List DirEntry) (k : Nat) : Prop where
  node : ∃ i flags, w.getNodeAndFlags cage fd = .ok (.ok (i, flags)) ∧
    (w.fs.node i).children? = some children ∧ flags &&& oAccmode ≠ oWronly
  position : ∃ h, w.fs.fdInfo (cage, fd) = some h ∧ h < w.fs.arcs.length ∧
    0 ≤ (w.fs.arc h).offset ∧ asUsize (w.fs.arc h).offset = k

theorem setOffset_getOffset {h : Nat} (hinfo : s.fdInfo (cage, fd) = some h)
    (hlt : h < s.arcs.length) (off : Int) :
    ∃ s', s.setOffset cage fd off = .ok s' ∧ s'.getOffset cage fd = .ok off := by
  refine ⟨_, by rw [setOffset, hinfo], ?_⟩
  simp only [getOffset, hinfo, arc, getD_eq_getElem?_getD, getElem?_modify_eq,
    getElem?_eq_getElem hlt, Option.map_eq_map, Option.map_some, Option.getD_some]

def listed (w : World T) (cage fd : Nat) :
    Except Int (Nat × List UInt8) → Outcome (Int × List UInt8 × World T)
  | .error e => .ok (e, [], w)
  | .ok (i, out) => do
    let fs ← w.fs.setOffset cage fd i
    return (asI32 out.length, out, { w with fs := fs })

section

variable (h : OnDir w cage fd children k)

include h

theorem getdentsData_eq (len : Nat) :
    w.getdentsData cage fd len =
      w.fs.direntLoop len k (children.drop k) [] >>= listed w cage fd := by
  rcases h with ⟨⟨i, flags, hn, hch, hflags⟩, ⟨a, hinfo, hlt, hpos, hk⟩⟩
  simp only [getdentsData, hn, bind, Except.bind, hch, if_neg hflags, getOffset, hinfo]
  change (if _ then _ else _) = _
  rw [if_neg (Int.not_lt.mpr hpos), hk]
  cases w.fs.direntLoop len k (children.drop k) [] with
  | error => rfl
  | ok r => cases r <;> rfl

theorem getdentsData_run (hclear : Clear w.fs len 0 (children.drop k)) {s' : ImfsState}
    (hset : w.fs.setOffset cage fd ↑(k + fitting len 0 (children.drop k)) = .ok s') :
    ∃ out, out = records w.fs k ((children.drop k).take (fitting len 0 (children.drop k))) ∧
      w.getdentsData cage fd len = .ok (asI32 out.length, out, { w with fs := s' }) := by
  refine ⟨_, rfl, ?_⟩
  have hloop := direntLoop_clear (k := k)
    (show Clear w.fs len ([] : List UInt8).length _ from hclear)
  rw [getdentsData_eq h, hloop]
  simp only [listed, length_nil, nil_append, bind, Except.bind, hset]
  rfl

theorem getdentsData_clear (hclear : Clear w.fs len 0 (children.drop k)) :
    ∃ out w', out = records w.fs k ((children.drop k).take (fitting len 0 (children.drop k))) ∧
      w.getdentsData cage fd len = .ok (asI32 out.length, out, w') ∧
      w'.fs.getOffset cage fd = .ok ↑(k + fitting len 0 (children.drop k)) := by
  rcases h.position with ⟨a, hinfo, hlt, _, _⟩
  rcases setOffset_getOffset hinfo hlt ↑(k + fitting len 0 (children.drop k)) with
    ⟨s', hset, hget⟩
  rcases getdentsData_run h hclear hset with ⟨out, hout, hr⟩
  exact ⟨out, { w with fs := s' }, hout, hr, hget⟩

theorem clear_of_getdentsData {ret : Int}
    {w' : World T} (hr : w.getdentsData cage fd len = .ok (ret, out, w')) (hout : out ≠ []) :
    Clear w.fs len 0 (children.drop k) := by
  rw [getdentsData_eq h] at hr
  rcases (bind_eq_ok _ _ _).mp hr with ⟨x, hx, hr⟩
  rcases x with _ | p
  · cases hr
    exact absurd rfl hout
  by_contra hclear
  exact direntLoop_unclear hclear p hx

end

/-- `EINVAL` is returned exactly when the next record does not fit, and when it
    does fit, the call returns it with those behind it that fit too and moves the
    position past them. -/
def StuckOnly (w : World T) (cage fd : Nat) (children : List DirEntry) (k len : Nat) : Prop :=
  ((∃ out w', w.getdentsData cage fd len = .ok (-22, out, w')) ↔
    ∃ e, (children.drop k).head? = some e ∧ len < e.reclen) ∧
  ∀ e, (children.drop k).head? = some e → e.reclen ≤ len →
    ∃ n out w', 0 < n ∧ n ≤ (children.drop k).length ∧
      out = records w.fs k ((children.drop k).take n) ∧
      w.getdentsData cage fd len = .ok (out.length, out, w') ∧
      w'.fs.getOffset cage fd = .ok ↑(k + n)

theorem records_ne_nil (s : ImfsState) (k : Nat) (e : DirEntry) (es : List DirEntry) {n : Nat}
    (hn : 0 < n) : records s k ((e :: es).take n) ≠ [] := by
  intro hnil
  have hlen := congrArg length hnil
  rw [take_cons hn, records, length_append, length_record, DirEntry.reclen, direntReclen,
    length_nil] at hlen
  omega

theorem clear_head (h : Clear s len used es) (he : es.head? = some e) : e.reclen ≤ len := by
  cases es with
  | nil => cases he
  | cons => cases he; exact h.1

theorem getdentsData_long (h : OnDir w cage fd children k)
    (he : (children.drop k).head? = some e) (hlong : len < e.reclen) :
    w.getdentsData cage fd len = .ok (-22, [], w) := by
  rw [getdentsData_eq h]
  rcases hd : children.drop k with _ | _
  · rw [hd] at he; cases he
  rw [hd] at he
  cases he
  rw [direntLoop_cons, if_pos hlong]
  rfl

/-- `EINVAL` only ever means that the next record does not fit, exactly when
    nothing stops the call behind a first record that fits. -/
theorem stuckOnly_iff (h : OnDir w cage fd children k) (buf : Slice) :
    StuckOnly w cage fd children k buf.bytes.length ↔
      ∀ e, (children.drop k).head? = some e → e.reclen ≤ buf.bytes.length →
        Clear w.fs buf.bytes.length 0 (children.drop k) := by
  constructor
  · rintro ⟨_, hfits⟩ e he hle
    rcases hfits e he hle with ⟨n, out, w', hn, _, hout, hr, _⟩
    refine clear_of_getdentsData h hr ?_
    rw [hout]
    cases hd : children.drop k with
    | nil => rw [hd] at he; cases he
    | cons e es => exact records_ne_nil w.fs k e es hn
  · intro hclear
    by_cases hc : Clear w.fs buf.bytes.length 0 (children.drop k)
    · -- A call that nothing stops returns a number of bytes, never an error.
      rcases getdentsData_clear h hc with ⟨out, w', hout, hr, hget⟩
      have hlen := length_fitting (s := w.fs) (k := k) (zero_le buf.bytes.length)
        (children.drop k)
      rw [← hout] at hlen
      rw [asI32_natCast (by have := buf.length_lt; omega)] at hr
      refine ⟨iff_of_false ?_ ?_, fun e he hle => ?_⟩
      · rintro ⟨_, _, hr'⟩
        rw [hr] at hr'
        simp only [Except.ok.injEq, Prod.mk.injEq] at hr'
        omega
      · rintro ⟨e, he, hlong⟩
        exact absurd (clear_head hc he) (not_le.mpr hlong)
      · refine ⟨_, out, w', ?_, fitting_le _ 0, hout, hr, hget⟩
        rcases hd : children.drop k with _ | _
        · rw [hd] at he; cases he
        rw [hd] at he
        cases he
        exact fitting_pos hle
    · have hlong : ∀ e, (children.drop k).head? = some e → buf.bytes.length < e.reclen :=
        fun e he => Nat.lt_of_not_le fun hle => hc (hclear e he hle)
      rcases hd : (children.drop k).head? with _ | e
      · rw [head?_eq_none_iff.mp hd] at hc; exact absurd trivial hc
      exact ⟨iff_of_true ⟨[], w, getdentsData_long h hd (hlong e hd)⟩ ⟨e, hd, hlong e hd⟩,
        fun e' he hle => absurd hle (not_le.mpr (hlong e' he))⟩

theorem onDir_root {w : World (MapTables 8)} (a : Nat)
    (h : w.getNodeAndFlags 1 3 = .ok (.ok (0, oRdonly)) ∧
      (w.fs.node 0).children? = some children ∧ w.fs.fdInfo (1, 3) = some a ∧
      a < w.fs.arcs.length ∧ 0 ≤ (w.fs.arc a).offset ∧ asUsize (w.fs.arc a).offset = k) :
    OnDir w 1 3 children k := by
  rcases h with ⟨hn, hch, hpos⟩
  exact ⟨⟨0, oRdonly, hn, hch, by decide⟩, ⟨a, hpos⟩⟩

/-- A directory with a long name is made in the root, which is then opened. -/
def longNameRun : List Call :=
  [.preexec 1, .mkdir 1 ('/' :: replicate 29 'a') 0o755, .openPath 1 ['/'] oRdonly 0]

/-- The entries of the root after that run. -/
def longNameEntries : List DirEntry :=
  [⟨['.'], 1⟩, ⟨['.', '.'], 2⟩, ⟨replicate 29 'a', 3⟩]

theorem onDir_longNameRun : OnDir (longNameRun.foldl serve (boot 8)) 1 3 longNameEntries 0 :=
  onDir_root 3 (by decide +kernel)

theorem stuckOnly_iff_longNameRun :
    StuckOnly (longNameRun.foldl serve (boot 8)) 1 3 longNameEntries 0 24 := by
  refine (stuckOnly_iff onDir_longNameRun ⟨replicate 24 0, by decide⟩).mpr fun _ _ _ => ?_
  exact ⟨by decide, fun _ => ⟨⟨0, by decide +kernel⟩, by decide, fun h => absurd h (by decide)⟩⟩

/-- Behind the two records that fill the buffer comes one it cannot hold, and
    the call fails although the first record fits. -/
theorem gives_up_late :
    Reachable Unrestricted (longNameRun.foldl serve (boot 8)) ∧
      ¬ StuckOnly (longNameRun.foldl serve (boot 8)) 1 3 longNameEntries 0 48 := by
  refine ⟨reachable_foldl_serve _ (.start _ (initial_boot 8)) (by decide +kernel), fun h => ?_⟩
  have hloop : (longNameRun.foldl serve (boot 8)).fs.direntLoop 48 0 longNameEntries [] =
      .ok (.error (-22)) := by decide +kernel
  have hret := getdentsData_eq onDir_longNameRun 48
  rw [drop_zero, hloop] at hret
  rcases h.1.mp ⟨_, _, hret⟩ with ⟨e, he, hlong⟩
  cases he
  exact absurd hlong (by decide)

end LindGrates.Imfs
