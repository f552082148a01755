import LindGrates.Theory.Imfs.Dirents

/-!
# Scans Between Changes

A scan of a directory that other calls change meanwhile. The position is an index
into the vector of entries: when an entry before it is removed, those behind move
up, and the scan misses one of them.

## Main definitions

* `Scans`: A scan through a descriptor, with the entries it reported.
* `Spares`: The entries the scan has passed stay as they are.

## Theorems

* `reported_once`: What a scan reports if they do.
* `entry_skipped`: A scan that misses an entry.
-/

namespace LindGrates.Imfs

open ImfsState List World

variable {s : ImfsState} {es : List DirEntry}

theorem take_eq_of_records {k n m : Nat}
    (h : records s k (es.take n) = records s k (es.take m)) : es.take n = es.take m := by
  induction es generalizing k n m with
  | nil => rw [take_nil, take_nil]
  | cons e es ih =>
    cases n with
    | zero =>
      cases m with
      | zero => rfl
      | succ m => exact absurd h.symm (records_ne_nil s k e es m.succ_pos)
    | succ n =>
      cases m with
      | zero => exact absurd h (records_ne_nil s k e es n.succ_pos)
      | succ => exact congrArg (e :: ·) (ih (append_cancel_left h))

section Scans

variable {T : Type} [FdTables T] {w w' : World T} {cage fd len k k' n : Nat}
  {children children' es : List DirEntry}

theorem OnDir.unique (h : OnDir w cage fd children k) (h' : OnDir w cage fd children' k') :
    children = children' ∧ k = k' := by
  rcases h with ⟨⟨i, flags, hn, hch, _⟩, ⟨a, ha, _, _, hk⟩⟩
  rcases h' with ⟨⟨i', flags', hn', hch', _⟩, ⟨a', ha', _, _, hk'⟩⟩
  rw [hn] at hn'
  cases hn'
  rw [ha] at ha'
  cases ha'
  rw [hch] at hch'
  cases hch'
  exact ⟨rfl, hk.symm.trans hk'⟩

/-- A call whose buffer fits every record writes the records of these entries. -/
structure Lists (w : World T) (cage fd len : Nat) (children : List DirEntry) (k : Nat)
    (es : List DirEntry) : Prop where
  dir : OnDir w cage fd children k
  vec : children.length < 2 ^ 31
  fits : ∀ e ∈ children, e.reclen ≤ len
  ends : ∀ e ∈ children, Ends w.fs e
  wrote : (w.getdentsData cage fd len).map (fun r => r.2.1) = .ok (records w.fs k es)

/-- A scan through a descriptor, with the entries it reported. Between the calls
    that list, any calls change the directory in the way that is allowed. -/
inductive Scans (cage fd : Nat) (allowed : List DirEntry → Nat → List DirEntry → Prop)
    (w : World T) : List DirEntry → World T → Prop
  | start : Scans cage fd allowed w [] w
  | list {w' : World T} {es children : List DirEntry} {k len n : Nat}
      (h : Scans cage fd allowed w es w')
      (hlists : Lists w' cage fd len children k ((children.drop k).take n)) :
      Scans cage fd allowed w (es ++ (children.drop k).take n) (serve w' (.getdents cage fd len))
  | change {w' : World T} {es children children' : List DirEntry} {k : Nat} (call : Call)
      (h : Scans cage fd allowed w es w') (hdir : OnDir w' cage fd children k)
      (hdir' : OnDir (serve w' call) cage fd children' k) (ha : allowed children k children') :
      Scans cage fd allowed w es (serve w' call)

/-- The entries the scan has passed stay as they are. -/
def Spares (children : List DirEntry) (k : Nat) (children' : List DirEntry) : Prop :=
  children'.take k = children.take k

theorem Lists.moves (h : Lists w cage fd len children k ((children.drop k).take n)) :
    ∃ m, OnDir (serve w (.getdents cage fd len)) cage fd children (k + m) ∧
      min 1 (children.length - k) ≤ m ∧ (children.drop k).take n = (children.drop k).take m := by
  rcases scan_spec (by have := h.vec; omega) (forall_mem_singleton.mpr h.fits) h.dir h.ends with
    ⟨m, w1, hscan, hdir, _, hmin⟩
  rcases (bind_eq_ok _ _ _).mp hscan with ⟨r, hr, hscan⟩
  simp only [scan, bind, Except.bind, pure, Except.pure, append_nil, Except.ok.injEq,
    Prod.mk.injEq] at hscan
  rcases hscan with ⟨hrec, rfl⟩
  have hserve : serve w (.getdents cage fd len) = r.2.2 := by
    rw [serve, if_pos (show Call.Valid w (.getdents cage fd len) from rfl), step, getdents, hr]
    rfl
  have hwrote := h.wrote
  rw [hr] at hwrote
  exact ⟨m, hserve ▸ hdir, hmin, take_eq_of_records ((Except.ok.inj hwrote).symm.trans hrec)⟩

theorem passed_of_scans (h : OnDir w cage fd children 0) (hscan : Scans cage fd Spares w es w')
    (hdir : OnDir w' cage fd children' k) : es = children'.take k := by
  induction hscan generalizing children' k with
  | start =>
    rcases h.unique hdir with ⟨_, rfl⟩
    rfl
  | list _ hlists ih =>
    rcases hlists.moves with ⟨m, hdir1, _, htake⟩
    rcases hdir1.unique hdir with ⟨rfl, rfl⟩
    rw [ih hlists.dir, htake, ← take_add]
  | change _ _ hdir1 hdir2 hspares ih =>
    rcases hdir2.unique hdir with ⟨rfl, rfl⟩
    rw [ih hdir1, hspares]

/-- When no call takes away an entry the scan has passed, and there is nothing
    more to list, what was reported is the directory, each entry once. -/
theorem reported_once (h : OnDir w cage fd children 0) (hscan : Scans cage fd Spares w es w')
    (hend : Lists w' cage fd len children' k []) : es = children' := by
  have hnone : Lists w' cage fd len children' k ((children'.drop k).take 0) := hend
  rcases hnone.moves with ⟨m, _, hmin, htake⟩
  have hall : children'.length ≤ k := by
    have hlen := congrArg length htake
    rw [take_zero, length_take, length_drop, length_nil] at hlen
    omega
  rw [passed_of_scans h hscan hend.dir, take_of_length_le hall]

end Scans

/-- The root is opened after two directories were made in it. -/
def twoWorld : World (MapTables 8) :=
  [.preexec 1, .mkdir 1 ['/', 'a'] 0o755, .mkdir 1 ['/', 'b'] 0o755,
    .openPath 1 ['/'] oRdonly 0].foldl serve (boot 8)

def twoEntries : List DirEntry :=
  [⟨['.'], 1⟩, ⟨['.', '.'], 2⟩, ⟨['a'], 3⟩, ⟨['b'], 6⟩]

/-- The root after it was listed up to `b` and a directory was removed. -/
def removed (name : Char) : World (MapTables 8) :=
  serve (serve twoWorld (.getdents 1 3 72)) (.rmdir 1 ['/', name])

theorem onDir_twoWorld : OnDir twoWorld 1 3 twoEntries 0 := onDir_root 3 (by decide +kernel)

theorem ends_of_isSome (h : ∀ e ∈ es, (s.followHardLinks e.nodeIdx).toOption.isSome = true) :
    ∀ e ∈ es, Ends s e := by
  intro e he
  cases hi : s.followHardLinks e.nodeIdx with
  | error => exact absurd (h e he) (by rw [hi]; nofun)
  | ok i => exact ⟨i, hi⟩

theorem scans_removed {allowed : List DirEntry → Nat → List DirEntry → Prop} {name : Char}
    {children : List DirEntry} (hdir : OnDir (removed name) 1 3 children 3)
    (ha : allowed twoEntries 3 children) :
    Scans 1 3 allowed twoWorld (twoEntries.take 3) (removed name) := by
  have hlists : Lists twoWorld 1 3 72 twoEntries 0 ((twoEntries.drop 0).take 3) :=
    ⟨onDir_twoWorld, by decide, by decide, ends_of_isSome (by decide +kernel), by decide +kernel⟩
  have hmid : OnDir (serve twoWorld (.getdents 1 3 72)) 1 3 twoEntries 3 :=
    onDir_root 3 (by decide +kernel)
  exact .change _ (.list .start hlists) hmid hdir ha

/-- The last entry is removed before the scan comes to it. -/
theorem reported_once_removed :
    Scans 1 3 Spares twoWorld (twoEntries.take 3) (removed 'b') ∧
      ∀ es, Scans 1 3 Spares twoWorld es (removed 'b') → es = twoEntries.take 3 := by
  have hdir : OnDir (removed 'b') 1 3 (twoEntries.take 3) 3 := onDir_root 3 (by decide +kernel)
  have hend : Lists (removed 'b') 1 3 24 (twoEntries.take 3) 3 [] :=
    ⟨hdir, by decide, by decide, ends_of_isSome (by decide +kernel), by decide +kernel⟩
  exact ⟨scans_removed hdir rfl, fun es hscan => reported_once onDir_twoWorld hscan hend⟩

/-- When `a` is removed after it was listed, `b` is never reported, although it is
    there all the time. -/
theorem entry_skipped :
    Reachable Unrestricted twoWorld ∧ OnDir twoWorld 1 3 twoEntries 0 ∧ ⟨['b'], 6⟩ ∈ twoEntries ∧
      ∃ es, Scans 1 3 (fun _ _ children => ⟨['b'], 6⟩ ∈ children) twoWorld es (removed 'a') ∧
        (∃ children, Lists (removed 'a') 1 3 24 children 3 []) ∧ ⟨['b'], 6⟩ ∉ es := by
  have hdir : OnDir (removed 'a') 1 3 [⟨['.'], 1⟩, ⟨['.', '.'], 2⟩, ⟨['b'], 6⟩] 3 :=
    onDir_root 3 (by decide +kernel)
  exact ⟨reachable_foldl_serve _ (.start _ (initial_boot 8)) (by decide +kernel), onDir_twoWorld,
    by decide, _, scans_removed hdir (by decide), ⟨_, hdir, by decide, by decide,
      ends_of_isSome (by decide +kernel), by decide +kernel⟩, by decide⟩

end LindGrates.Imfs
