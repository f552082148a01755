import LindGrates.Theory.Imfs.Seeking

/-!
# Listed Records

Whether a reader of the records gets the directory back. A reader goes by the
length each record gives for itself, and takes a name to end at its NUL. The
names that cages pass are short and have none, so their records can be read back.
What a listing may never come to is its end: the type of a hard link is that of
the node behind it, and the slot of a removed link is used again, so that links
may lead to each other.

## Main definitions

* `Parses`: Bytes that are one record after another.
* `scan`: The joined output of several calls.
* `Encodes`: The directory comes back from what the calls give.

## Theorems

* `encodes_iff`: When the directory comes back.
* `listing_never_returns`: A listing of two links that lead to each other.
-/

namespace LindGrates.Imfs

open ImfsState List World Nat

/-- What a record says: the inode number, the position after it, the type and the
    name. -/
structure Dirent where
  ino : Nat
  off : Nat
  type : Nat
  name : List UInt8
deriving DecidableEq

/-- A record off the front of some bytes: its length is what its field says, a
    multiple of eight, and its name ends in a NUL inside it. -/
def parseOne (bytes : List UInt8) : Option (Dirent × List UInt8) :=
  let reclen := leNat ((bytes.drop 16).take 2)
  let body := (bytes.take reclen).drop 19
  if reclen ≤ bytes.length ∧ reclen % 8 = 0 ∧ 0 ∈ body then
    some (⟨leNat (bytes.take 8), leNat ((bytes.drop 8).take 8), leNat ((bytes.drop 18).take 1),
      body.takeWhile (· ≠ 0)⟩, bytes.drop reclen)
  else none

/-- Bytes that are one record after another, and nothing else. -/
inductive Parses : List UInt8 → List Dirent → Prop
  | nil : Parses [] []
  | cons {bytes rest : List UInt8} {d : Dirent} {ds : List Dirent}
      (hd : parseOne bytes = some (d, rest)) (hrest : Parses rest ds) : Parses bytes (d :: ds)

/-- What the record of an entry is to say. -/
def direntOf (s : ImfsState) (k : Nat) (e : DirEntry) : Dirent :=
  ⟨e.nodeIdx + 1, k + 1, typeOf s e, Str.asBytes e.name⟩

/-- What the records of some entries are to say, the first at position `k`. -/
def direntsOf (s : ImfsState) : Nat → List DirEntry → List Dirent
  | _, [] => []
  | k, e :: es => direntOf s k e :: direntsOf s (k + 1) es

/-- A name whose record can be read back. -/
def Encodable (e : DirEntry) : Prop :=
  0 ∉ Str.asBytes e.name ∧ e.reclen < 2 ^ 16

variable {s : ImfsState} {k : Nat} {e : DirEntry} {es : List DirEntry}

theorem typeOf_lt (s : ImfsState) (e : DirEntry) : typeOf s e < 256 := by
  unfold typeOf direntType
  rcases s.followHardLinks e.nodeIdx with _ | i
  · exact zero_lt_succ _
  simp only [bind, Except.bind, pure, Except.pure]
  split <;> decide

theorem parseOne_record (h : Encodable e) (hidx : e.nodeIdx < 2 ^ 32) (hk : k < 2 ^ 32)
    (rest : List UInt8) : parseOne (record s k e ++ rest) = some (direntOf s k e, rest) := by
  rcases fields_record s k e rest with ⟨hino, hoff, hlen, htype, _⟩
  rw [mod_eq_of_lt (by omega)] at hino hoff
  rw [show e.reclen % 256 ^ 2 = e.reclen from mod_eq_of_lt h.2] at hlen
  rw [pow_one, mod_eq_of_lt (typeOf_lt s e)] at htype
  have hbody := (fields_record s k e []).2.2.2.2
  rw [append_nil, append_nil] at hbody
  have hpad : e.reclen - dirent64FixedSize - e.name.len ≠ 0 := by
    simp only [DirEntry.reclen, direntReclen, dirent64FixedSize]
    omega
  -- The name has no zero byte, and what follows it in the record is nothing else.
  have hname : (Str.asBytes e.name ++ replicate (e.reclen - dirent64FixedSize - e.name.len)
      0).takeWhile (· ≠ 0) = Str.asBytes e.name := by
    have hfree : ∀ b ∈ Str.asBytes e.name, decide (b ≠ 0) = true := fun b hb =>
      decide_eq_true fun hz => h.1 (hz ▸ hb)
    rw [takeWhile_append_of_pos hfree, takeWhile_replicate, if_neg (by decide), append_nil]
  rw [parseOne, hlen, take_left' (length_record s k e), drop_left' (length_record s k e), hbody,
    if_pos ⟨by rw [length_append, length_record]; omega, mul_mod_left _ 8, by simp [hpad]⟩,
    hino, hoff, htype, hname]
  rfl

theorem encodable_of_parseOne {rest rest' : List UInt8}
    (h : parseOne (record s k e ++ rest) = some (direntOf s k e, rest')) :
    Encodable e ∧ rest' = rest := by
  simp only [parseOne, (fields_record s k e rest).2.2.1] at h
  split at h
  next hcond =>
    rcases hcond with ⟨_, hmod, hzero⟩
    simp only [Option.some.injEq, Prod.mk.injEq, direntOf, Dirent.mk.injEq] at h
    rcases h with ⟨⟨_, _, _, hname⟩, hrest⟩
    have hfree : 0 ∉ Str.asBytes e.name := by
      rw [← hname]
      intro hmem
      simpa using mem_takeWhile_imp hmem
    -- The NUL stands behind the name, so the name is shorter than what holds both.
    have hshort := (List.takeWhile_prefix (fun b : UInt8 => decide (b ≠ 0))
      (l := ((record s k e ++ rest).take (e.reclen % 256 ^ 2)).drop 19)).length_le
    have hne : (((record s k e ++ rest).take (e.reclen % 256 ^ 2)).drop 19).length ≠
        e.name.len := by
      intro hlen
      rw [← length_asBytes, ← hname] at hlen
      have hall := takeWhile_eq_self_iff.mp ((List.takeWhile_prefix _).eq_of_length hlen.symm)
      simpa using hall 0 hzero
    rw [hname, length_asBytes] at hshort
    rw [length_drop, length_take] at hshort hne
    have hlt : e.reclen < 2 ^ 16 := by
      simp only [DirEntry.reclen, direntReclen, dirent64FixedSize] at hshort hne hmod ⊢
      omega
    refine ⟨⟨hfree, hlt⟩, ?_⟩
    rw [← hrest, show e.reclen % 256 ^ 2 = e.reclen from mod_eq_of_lt hlt,
      drop_left' (length_record s k e)]
  · cases h

theorem parses_records (h : ∀ e ∈ es, Encodable e) (hidx : ∀ e ∈ es, e.nodeIdx < 2 ^ 32)
    (hk : k + es.length ≤ 2 ^ 32) : Parses (records s k es) (direntsOf s k es) := by
  induction es generalizing k with
  | nil => exact .nil
  | cons e es ih =>
    rw [length_cons] at hk
    rw [forall_mem_cons] at h hidx
    exact .cons (parseOne_record h.1 hidx.1 (by omega) _) (ih h.2 hidx.2 (by omega))

theorem encodable_of_parses (h : Parses (records s k es) (direntsOf s k es)) :
    ∀ e ∈ es, Encodable e := by
  induction es generalizing k with
  | nil => nofun
  | cons _ _ ih =>
    cases h with
    | cons hd hrest =>
      rcases encodable_of_parseOne hd with ⟨henc, rfl⟩
      exact forall_mem_cons.mpr ⟨henc, ih hrest⟩

theorem records_append (s : ImfsState) (k : Nat) (es es' : List DirEntry) :
    records s k (es ++ es') = records s k es ++ records s (k + es.length) es' := by
  induction es generalizing k with
  | nil => rfl
  | cons _ _ ih =>
    rw [cons_append, records, records, ih, append_assoc, length_cons, add_assoc, add_comm 1]

theorem records_arcs (s : ImfsState) (arcs : List FDInfo) (k : Nat) (es : List DirEntry) :
    records { s with arcs := arcs } k es = records s k es := by
  induction es generalizing k with
  | nil => rfl
  | cons e _ ih => exact congrArg (record s k e ++ ·) (ih (k + 1))

section Scan

variable {T : Type} [FdTables T] {w : World T} {cage fd len : Nat} {children : List DirEntry}

/-- The joined output of calls with buffers of the given lengths. -/
def scan (cage fd : Nat) : List Nat → World T → Outcome (List UInt8 × World T)
  | [], w => .ok ([], w)
  | len :: lens, w => do
    let r ← w.getdentsData cage fd len
    let r' ← scan cage fd lens r.2.2
    return (r.2.1 ++ r'.1, r'.2)

theorem onDir_setOffset (h : OnDir w cage fd children k) {p : Nat} (hp : p < 2 ^ 32) :
    ∃ arcs, w.fs.setOffset cage fd p = .ok { w.fs with arcs := arcs } ∧
      OnDir { w with fs := { w.fs with arcs := arcs } } cage fd children p := by
  rcases h with ⟨⟨i, flags, hn, hch, hflags⟩, ⟨a, hinfo, hlt, _, _⟩⟩
  have harc : ImfsState.arc { w.fs with arcs := w.fs.arcs.modify a fun r =>
      { r with offset := (p : Int) } } a = { w.fs.arc a with offset := (p : Int) } := by
    simp only [arc, getD_eq_getElem?_getD, getElem?_modify_eq, getElem?_eq_getElem hlt,
      Option.map_eq_map, Option.map_some, Option.getD_some]
  refine ⟨w.fs.arcs.modify a fun r => { r with offset := p }, by rw [setOffset, hinfo],
    ⟨i, flags, ?_, hch, hflags⟩, ⟨a, hinfo, by rw [length_modify]; exact hlt, ?_, ?_⟩⟩
  · rw [← hn]
    simp only [getNodeAndFlags, hinfo, harc]
    rfl
  · rw [harc]
    exact Int.natCast_nonneg p
  · rw [harc]
    change asUsize (p : Int) = p
    rw [asUsize]
    omega

theorem scan_spec {lens : List Nat} (hvec : children.length < 2 ^ 32)
    (hlens : ∀ len ∈ lens, ∀ e ∈ children, e.reclen ≤ len) (h : OnDir w cage fd children k)
    (hends : ∀ e ∈ children, Ends w.fs e) :
    ∃ m w', scan cage fd lens w = .ok (records w.fs k ((children.drop k).take m), w') ∧
      OnDir w' cage fd children (k + m) ∧ m ≤ children.length - k ∧
      min lens.length (children.length - k) ≤ m := by
  induction lens generalizing w k with
  | nil => exact ⟨0, w, rfl, h, zero_le _, min_le_left _ _⟩
  | cons len lens ih =>
    have hclear : Clear w.fs len 0 (children.drop k) := clear_of_ends
      (fun e he => hlens len (mem_cons_self ..) e (mem_of_mem_drop he))
      fun e he => hends e (mem_of_mem_drop he)
    have hle : fitting len 0 (children.drop k) ≤ children.length - k := by
      rw [← length_drop]
      exact fitting_le ..
    have hpos : 0 < children.length - k → 0 < fitting len 0 (children.drop k) := by
      rw [← length_drop]
      rcases hes : children.drop k with _ | e
      · exact fun h => absurd h (lt_irrefl 0)
      exact fun _ => fitting_pos
        (hlens len (mem_cons_self ..) e (mem_of_mem_drop (hes ▸ mem_cons_self ..)))
    generalize hn : fitting len 0 (children.drop k) = n at hle hpos
    rcases h.position with ⟨a, _, _, _, hk⟩
    have hlt : k + n < 2 ^ 32 := by
      rw [asUsize] at hk
      omega
    rcases onDir_setOffset h hlt with ⟨arcs, hset, h1⟩
    rcases ih (fun l hl => hlens l (mem_cons_of_mem _ hl)) h1 hends with
      ⟨m, w', hscan, hdir, hm, hmin⟩
    refine ⟨n + m, w', ?_, by rw [← add_assoc]; exact hdir, by omega,
      by rw [length_cons]; omega⟩
    rcases getdentsData_run h hclear (hn ▸ hset) with ⟨out, hout, hcall⟩
    rw [hn] at hout
    rw [scan, hcall]
    simp only [bind, Except.bind, hscan, pure, Except.pure, records_arcs, hout]
    rw [take_add, records_append, length_take, length_drop, min_eq_left hle, drop_drop]

/-- The directory comes back from its records, over all calls that are made. -/
def Encodes (w : World T) (cage fd : Nat) (children : List DirEntry) : Prop :=
  ∀ lens, (∀ len ∈ lens, ∀ e ∈ children, e.reclen ≤ len) →
    ∃ m out w', scan cage fd lens w = .ok (out, w') ∧
      Parses out (direntsOf w.fs 0 (children.take m)) ∧
      (children.length ≤ lens.length → children.length ≤ m) ∧
      (children.length ≤ m → ∀ len, ∃ w'', w'.getdentsData cage fd len = .ok (0, [], w''))

theorem encodable_of_encodes (h : OnDir w cage fd children 0) (hvec : children.length < 2 ^ 31)
    (hall : Encodes w cage fd children) : ∀ e ∈ children, Ends w.fs e ∧ Encodable e := by
  cases hlen : children.length with
  | zero =>
    rw [length_eq_zero_iff.mp hlen]
    nofun
  | succ n =>
    -- Every call gets a buffer for the whole directory.
    have hlens : ∀ len ∈ replicate (n + 1) (children.map DirEntry.reclen).sum,
        ∀ e ∈ children, e.reclen ≤ len := fun len hmem e he => by
      rw [eq_of_mem_replicate hmem]
      exact reclen_le_sum he
    rcases hall _ hlens with ⟨m, out, w', hscan, hparse, hm, _⟩
    have hfirst := hscan
    rw [replicate_succ, scan] at hfirst
    rcases (bind_eq_ok _ _ _).mp hfirst with ⟨r, hr, _⟩
    have hends := ends_of_getdentsData h hr
    rw [drop_zero] at hends
    rcases scan_spec (by omega) hlens h hends with ⟨m', w'', hscan', _, _, hmin⟩
    rw [length_replicate] at hm hmin
    rw [hscan, drop_zero, take_of_length_le (by omega)] at hscan'
    cases hscan'
    rw [take_of_length_le (by omega)] at hparse
    exact fun e he => ⟨hends e he, encodable_of_parses hparse e he⟩

/-- The directory comes back exactly when the hard links of its entries end and
    their names have no NUL and records of less than `2 ^ 16` bytes. A vector has
    less than `2 ^ 31` elements on the target, and an index is a `usize`. -/
theorem encodes_iff (h : OnDir w cage fd children 0) (hvec : children.length < 2 ^ 31)
    (hidx : ∀ e ∈ children, e.nodeIdx < 2 ^ 32) :
    Encodes w cage fd children ↔ ∀ e ∈ children, Ends w.fs e ∧ Encodable e := by
  refine ⟨encodable_of_encodes h hvec, fun hgood lens hlens => ?_⟩
  rcases scan_spec (by omega) hlens h fun e he => (hgood e he).1 with
    ⟨m, w', hscan, hdir, hle, hmin⟩
  rw [drop_zero] at hscan
  refine ⟨m, _, w', hscan, ?_, fun hlen => by omega, fun hm len => ?_⟩
  · refine parses_records (fun e he => (hgood e (mem_of_mem_take he)).2)
      (fun e he => hidx e (mem_of_mem_take he)) ?_
    rw [length_take]
    omega
  · have hnil : children.drop (0 + m) = [] := drop_eq_nil_iff.mpr (by omega)
    rcases getdentsData_clear hdir (by rw [hnil]; trivial) with ⟨out, w'', hout, hr, _⟩
    rw [hnil, take_nil, records] at hout
    have hzero : asI32 (([] : List UInt8).length : Int) = 0 := asI32_natCast (by decide)
    rw [hout, hzero] at hr
    exact ⟨w'', hr⟩

end Scan

theorem encodes_iff_longNameRun :
    Encodes (longNameRun.foldl serve (boot 8)) 1 3 longNameEntries := by
  refine (encodes_iff onDir_longNameRun (by decide) (by decide)).mpr ?_
  refine forall_mem_cons.mpr ⟨⟨⟨0, by decide +kernel⟩, by decide, by decide⟩, ?_⟩
  refine forall_mem_cons.mpr ⟨⟨⟨0, by decide +kernel⟩, by decide, by decide⟩, ?_⟩
  exact forall_mem_singleton.mpr ⟨⟨3, by decide +kernel⟩, by decide, by decide⟩

/-- A link to a link, whose slot is then taken by a link back to it. -/
def cycleRun : List Call :=
  [.preexec 1,
    .openPath 1 ['/', 'a'] oCreat 0o644#32,
    .link 1 ['/', 'a'] ['/', 'b'],
    .linkat 1 (-100) ['/', 'b'] (-100) ['/', 'c'] 0,
    .unlink 1 ['/', 'b'],
    .linkat 1 (-100) ['/', 'c'] (-100) ['/', 'd'] 0,
    .close 1 3,
    .openPath 1 ['/'] oRdonly 0]

/-- The entries of the root after that run. -/
def cycleEntries : List DirEntry :=
  [⟨['.'], 1⟩, ⟨['.', '.'], 2⟩, ⟨['a'], 3⟩, ⟨['c'], 5⟩, ⟨['d'], 4⟩]

/-- The two links lead to each other, and a listing with room for all entries
    never returns. -/
theorem listing_never_returns :
    Reachable Unrestricted (cycleRun.foldl serve (boot 8)) ∧
      OnDir (cycleRun.foldl serve (boot 8)) 1 3 cycleEntries 0 ∧
      ((cycleRun.foldl serve (boot 8)).getdentsData 1 3 120).map (·.1) = .error .hang ∧
      ¬ Encodes (cycleRun.foldl serve (boot 8)) 1 3 cycleEntries := by
  have hdir : OnDir (cycleRun.foldl serve (boot 8)) 1 3 cycleEntries 0 :=
    onDir_root 4 (by decide +kernel)
  have hhang : ((cycleRun.foldl serve (boot 8)).getdentsData 1 3 120).map (·.1) =
      .error .hang := by decide +kernel
  refine ⟨reachable_foldl_serve _ (.start _ (initial_boot 8)) (by decide +kernel), hdir, hhang,
    fun h => ?_⟩
  rcases h [120] (by decide) with ⟨m, out, w', hscan, _⟩
  rcases (bind_eq_ok _ _ _).mp hscan with ⟨r, hr, _⟩
  rw [hr] at hhang
  cases hhang

end LindGrates.Imfs
