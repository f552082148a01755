import LindGrates.Theory.Chroot.Confine

/-!
# Ways Back from Host Paths

`virtualize_host_cwd` takes the slashes at the end of the jail directory off, as
`chroot_path` does, and undoes it always. The other two compare with the
directory as it was given. With one slash at its end they take the slash between
the directory and the path away too, so that the virtual path comes back without
the slash it began with; with more they find nothing to take off.

On other host paths it is the other way round. The two that compare texts leave
a path alone unless it happens to begin with the text of the jail directory, as
a sibling with a longer name does. `virtualize_host_cwd` looks for the end of
the name, but normalises what it leaves.

## Main definitions

* `Unprefixes`: The functions undo `chroot_path` and leave other host paths alone.
* `PlainDir`, `PlainHost`: The directories and paths for which they do.

## Theorems

* `unprefixes_iff`, `unprefixes_fails`: Exactly for these, and a case of another kind.
* `sockaddr_round_trip`: Addresses of sockets go out and come back.
-/

namespace LindGrates.Chroot

open Lexical List

variable {rest : Str} {n : Nat}

/-- A host path that is the jail directory itself, or below it at the end of a
    name. -/
def Inside (chrootDir host : Str) : Prop :=
  host = chrootDir ∨ host = trimEnd chrootDir ∨ trimEnd chrootDir ++ ['/'] <+: host

/-- The bytes of an address of a Unix socket with the given path, in a buffer
    with room behind it. -/
def unixAddress (path : Str) (room : List UInt8) : List UInt8 :=
  [1, 0] ++ path.bytes ++ 0 :: room

def addressPath (sockaddr : List UInt8) : Str :=
  untilNul (sockaddr.drop 2)

/-- The three functions give the virtual path back from the host path of `path`,
    and leave the host path `host` alone if it is not inside the jail. -/
structure Unprefixes (chrootDir cwd path host : Str) (room : List UInt8) : Prop where
  strip : stripChrootPrefix chrootDir (jailPath chrootDir cwd path) = normalizePath path cwd
  address : addressPath (untranslateSockaddr chrootDir
    (unixAddress (jailPath chrootDir cwd path) room)) = normalizePath path cwd
  hostCwd : virtualizeHostCwd chrootDir (jailPath chrootDir cwd path) = normalizePath path cwd
  stripOther : ¬ Inside chrootDir host → stripChrootPrefix chrootDir host = host
  addressOther : ¬ Inside chrootDir host →
    untranslateSockaddr chrootDir (unixAddress host room) = unixAddress host room
  hostCwdOther : ¬ Inside chrootDir host → virtualizeHostCwd chrootDir host = host

/-- The jail directory has no slash at its end, or the one slash it has does not
    matter because the path is the root, or it consists of slashes only and has
    more than one. -/
def PlainDir (chrootDir : Str) (path cwd : Str) : Prop :=
  trimEnd chrootDir = chrootDir ∨
    chrootDir = trimEnd chrootDir ++ ['/'] ∧ normalizePath path cwd = ['/'] ∨
      trimEnd chrootDir = [] ∧ chrootDir ≠ ['/']

/-- A host path outside the jail does not begin with the text of the jail
    directory, and is empty or normal. -/
def PlainHost (chrootDir host : Str) : Prop :=
  ¬ Inside chrootDir host →
    ¬ chrootDir <+: host ∧ (host = [] ∨ host = render (resolve [] host))

/-! ## The way back from a jailed path -/

variable {names : List Str} {chrootDir path host : Str}

/-- Behind the jail directory without its slashes nothing but names is
    slash-separated: more than one slash at the end of the directory is never
    found there. -/
theorem slashes_not_prefix (h : ∀ p ∈ names, IsName p) (dir : Str) (n : Nat) :
    ¬ dir ++ replicate (n + 2) '/' <+: dir ++ render names := by
  intro hpre
  rw [prefix_append_right_inj, replicate_succ, replicate_succ, render, cons_prefix_cons] at hpre
  rcases hpre.2 with ⟨rest, hrest⟩
  exact head_join_ne_slash h (hrest ▸ rfl)

theorem dropPrefix_append (h : rest ≠ []) (pre : Str) :
    dropPrefix pre (pre ++ rest) = rest := by
  unfold dropPrefix
  rw [drop_left, if_neg h]

theorem dropPrefix_self (pre : Str) : dropPrefix pre pre = ['/'] := by
  unfold dropPrefix
  rw [drop_length, if_pos rfl]

theorem stripChrootPrefix_append (h : rest ≠ []) (chrootDir : Str) :
    stripChrootPrefix chrootDir (chrootDir ++ rest) = rest := by
  unfold stripChrootPrefix
  rw [if_pos (List.isPrefixOf_iff_prefix.mpr (prefix_append _ _)), dropPrefix_append h]

theorem stripChrootPrefix_of_outside (h : ¬ chrootDir <+: path) :
    stripChrootPrefix chrootDir path = path := by
  unfold stripChrootPrefix
  rw [if_neg fun hc => h (List.isPrefixOf_iff_prefix.mp hc)]

theorem stripChrootPrefix_self (chrootDir : Str) :
    stripChrootPrefix chrootDir chrootDir = ['/'] := by
  unfold stripChrootPrefix
  rw [if_pos (List.isPrefixOf_iff_prefix.mpr (prefix_refl _)), dropPrefix_self]

theorem slashes_cases (chrootDir : Str) :
    trimEnd chrootDir = chrootDir ∨ chrootDir = trimEnd chrootDir ++ ['/'] ∨
      ∃ n, chrootDir = trimEnd chrootDir ++ replicate (n + 2) '/' := by
  rcases trimEnd_append_slashes chrootDir with ⟨n, hn⟩
  cases n with
  | zero =>
    rw [replicate_zero, append_nil] at hn
    exact .inl hn.symm
  | succ n =>
    cases n with
    | zero => exact .inr (.inl hn)
    | succ n => exact .inr (.inr ⟨n, hn⟩)

theorem trimEnd_ne_of_one (h : chrootDir = trimEnd chrootDir ++ ['/']) :
    trimEnd chrootDir ≠ chrootDir := by
  intro hc
  have hlen := congrArg length h
  rw [hc, length_append, length_singleton] at hlen
  omega

theorem trimEnd_ne_of_more (h : chrootDir = trimEnd chrootDir ++ replicate (n + 2) '/') :
    chrootDir ≠ trimEnd chrootDir ∧ chrootDir ≠ trimEnd chrootDir ++ ['/'] := by
  have hlen := congrArg length h
  rw [length_append, length_replicate] at hlen
  constructor
  · intro hc
    have := congrArg length hc
    omega
  · intro hc
    have := congrArg length hc
    rw [length_append, length_singleton] at this
    omega

theorem strip_jailed_none (h : trimEnd chrootDir = chrootDir) (names : List Str) :
    stripChrootPrefix chrootDir (trimEnd chrootDir ++ render names) = render names := by
  rw [h, stripChrootPrefix_append (render_ne_nil names)]

theorem strip_jailed_one (h : chrootDir = trimEnd chrootDir ++ ['/'])
    (hnames : ∀ p ∈ names, IsName p) :
    stripChrootPrefix chrootDir (trimEnd chrootDir ++ render names) =
      if names = [] then ['/'] else Str.join names := by
  have hsplit : trimEnd chrootDir ++ render names = chrootDir ++ Str.join names := by
    conv_rhs => rw [h, append_assoc]
    rfl
  rw [hsplit]
  split
  next hnil =>
    rw [show Str.join names = [] from (join_eq_nil_iff hnames).mpr hnil, append_nil,
      stripChrootPrefix_self]
  next hne =>
    exact stripChrootPrefix_append (fun hc => hne ((join_eq_nil_iff hnames).mp hc)) chrootDir

theorem strip_jailed_more (h : chrootDir = trimEnd chrootDir ++ replicate (n + 2) '/')
    (hnames : ∀ p ∈ names, IsName p) :
    stripChrootPrefix chrootDir (trimEnd chrootDir ++ render names) =
      trimEnd chrootDir ++ render names := by
  refine stripChrootPrefix_of_outside fun hpre => ?_
  refine slashes_not_prefix hnames (trimEnd chrootDir) n ?_
  rw [← h]
  exact hpre

theorem join_ne_render (names : List Str) : Str.join names ≠ render names := by
  intro hc
  have hlen := congrArg length hc
  exact absurd hlen (Nat.ne_of_lt (Nat.lt_succ_self _))

theorem strip_jailed_iff (h : ∀ p ∈ names, IsName p) (chrootDir : Str) :
    stripChrootPrefix chrootDir (trimEnd chrootDir ++ render names) = render names ↔
      trimEnd chrootDir = chrootDir ∨
        chrootDir = trimEnd chrootDir ++ ['/'] ∧ names = [] ∨
          trimEnd chrootDir = [] ∧ chrootDir ≠ ['/'] := by
  rcases slashes_cases chrootDir with hnone | hone | ⟨n, hmore⟩
  · exact iff_of_true (strip_jailed_none hnone names) (.inl hnone)
  · rw [strip_jailed_one hone h]
    split
    next hnil =>
      rw [hnil]
      exact iff_of_true rfl (.inr (.inl ⟨hone, rfl⟩))
    rename_i hne
    refine iff_of_false (join_ne_render names) ?_
    rintro (hc | ⟨_, hc⟩ | ⟨hc, hroot⟩)
    · exact trimEnd_ne_of_one hone hc
    · exact hne hc
    · rw [hc] at hone
      exact hroot hone
  · have hne := trimEnd_ne_of_more hmore
    rw [strip_jailed_more hmore h, append_left_eq_self]
    constructor
    · intro hnil
      refine .inr (.inr ⟨hnil, ?_⟩)
      have := hne.2
      rw [hnil] at this
      exact this
    · rintro (hc | ⟨hc, _⟩ | ⟨hc, _⟩)
      · exact absurd hc.symm hne.1
      · exact absurd hc hne.2
      · exact hc

theorem length_strip_le (hdir : chrootDir ≠ []) (path : Str) :
    (stripChrootPrefix chrootDir path).bytes.length ≤ path.bytes.length := by
  by_cases hpre : chrootDir <+: path
  · rcases hpre with ⟨rest, rfl⟩
    rw [bytes_append, length_append]
    by_cases hrest : rest = []
    · rw [hrest, append_nil, stripChrootPrefix_self]
      have hpos : 0 < chrootDir.length := length_pos_iff.mpr hdir
      have hle := length_le_bytes chrootDir
      change 1 ≤ _
      omega
    · rw [stripChrootPrefix_append hrest]
      omega
  · rw [stripChrootPrefix_of_outside hpre]

theorem untranslateSockaddr_unixAddress (hdir : chrootDir ≠ []) (hpath : '\x00' ∉ path)
    (room : List UInt8) :
    untranslateSockaddr chrootDir (unixAddress path room) =
      unixAddress (stripChrootPrefix chrootDir path)
        ((path.bytes ++ 0 :: room).drop ((stripChrootPrefix chrootDir path).bytes.length + 1)) := by
  have hdrop : (unixAddress path room).drop 2 = path.bytes ++ 0 :: room := rfl
  have hlen : 2 < (unixAddress path room).length := by
    unfold unixAddress
    simp only [length_append, length_cons, length_nil]
    omega
  have hle := length_strip_le hdir path
  unfold untranslateSockaddr
  rw [if_neg (by omega), if_neg, hdrop, untilNul_bytes hpath]
  · unfold overwrite
    have hroom : (path.bytes ++ 0 :: room).length = path.bytes.length + (room.length + 1) := by
      rw [length_append, length_cons]
    have hmin : min (stripChrootPrefix chrootDir path).bytes.length
        ((path.bytes ++ 0 :: room).length - 1) =
          (stripChrootPrefix chrootDir path).bytes.length := by
      omega
    rw [hmin, if_pos (by rw [hroom]; omega), take_length]
    rfl
  · rintro (hc | hc)
    · exact absurd hc (by rw [isUnix]; exact Bool.noConfusion)
    · omega

theorem addressPath_unixAddress (h : '\x00' ∉ path) (room : List UInt8) :
    addressPath (unixAddress path room) = path :=
  untilNul_bytes h room

theorem trimEnd_ne_slash (text : Str) : trimEnd text ≠ ['/'] := by
  intro hc
  have hlast := rdropWhile_last_not (fun c => decide (c = '/')) text (by
    change trimEnd text ≠ []
    rw [hc]
    exact cons_ne_nil _ _)
  refine hlast (decide_eq_true ?_)
  have : ∀ (l : Str) (hl : l ≠ []), l = ['/'] → l.getLast hl = '/' := by
    rintro l hl rfl
    rfl
  exact this _ _ hc

theorem virtualizeHostCwd_jailed (h : ∀ p ∈ names, IsName p) (chrootDir : Str) :
    virtualizeHostCwd chrootDir (trimEnd chrootDir ++ render names) = render names := by
  unfold virtualizeHostCwd
  by_cases hroot : trimEnd chrootDir = []
  · rw [if_pos (.inl hroot), hroot, nil_append, normalizePath_render h]
  rw [if_neg fun hc => hc.elim hroot (trimEnd_ne_slash chrootDir), if_neg, if_pos,
    drop_left, normalizePath_render h]
  · refine ⟨List.isPrefixOf_iff_prefix.mpr (prefix_append _ _), ?_⟩
    rw [drop_left]
    exact isAbsolute_render names
  · exact fun hc => render_ne_nil names (append_right_eq_self.mp hc)

/-! ## Other host paths -/

theorem strip_other_iff (hdir : chrootDir ≠ []) (hout : ¬ Inside chrootDir host) :
    stripChrootPrefix chrootDir host = host ↔ ¬ chrootDir <+: host := by
  constructor
  · rintro h ⟨rest, rfl⟩
    have hrest : rest ≠ [] := fun hc => hout (.inl (by rw [hc, append_nil]))
    rw [stripChrootPrefix_append hrest] at h
    exact hdir (self_eq_append_left.mp h)
  · exact stripChrootPrefix_of_outside

theorem virtualizeHostCwd_other (hout : ¬ Inside chrootDir host) :
    virtualizeHostCwd chrootDir host = normalizePath host ['/'] := by
  unfold virtualizeHostCwd
  dsimp only
  split
  · rfl
  rw [if_neg fun hc => hout (.inr (.inl hc)), if_neg]
  rintro ⟨hpre, habs⟩
  rcases isPrefixOf_iff_prefix.mp hpre with ⟨rest, rfl⟩
  rw [drop_left, isAbsolute_iff] at habs
  refine hout (.inr (.inr ?_))
  rw [prefix_append_right_inj]
  exact head?_eq_some_iff.mp habs |>.imp fun _ h => h.symm

theorem hostCwd_other_iff (hout : ¬ Inside chrootDir host) :
    virtualizeHostCwd chrootDir host = host ↔ host = [] ∨ host = render (resolve [] host) := by
  rw [virtualizeHostCwd_other hout]
  by_cases hnil : host = []
  · rw [hnil]
    exact iff_of_true rfl (.inl rfl)
  · rw [normalizePath_eq hnil]
    exact ⟨fun h => .inr h.symm, fun h => (h.resolve_left hnil).symm⟩

/-! ## Together -/

/-- An address that names a file. Those of the abstract namespace begin with a
    NUL. -/
def NamesFile (sockaddr : List UInt8) : Prop :=
  isUnix sockaddr = true ∧ 2 < sockaddr.length ∧ (sockaddr.drop 2).head? ≠ some 0

theorem translateSockaddr_file {sockaddr : List UInt8} (h : NamesFile sockaddr)
    (chrootDir cwd : Str) :
    translateSockaddr chrootDir cwd sockaddr =
      some (unixAddress (jailPath chrootDir cwd (addressPath sockaddr)) []) := by
  rcases h with ⟨hunix, hlen, hhead⟩
  rw [translateSockaddr, if_neg (by omega), if_pos ⟨hunix, hlen⟩, if_neg hhead,
    of_decide_eq_true hunix]
  rfl

theorem addressPath_ne_nil {sockaddr : List UInt8} (h : NamesFile sockaddr) :
    addressPath sockaddr ≠ [] := by
  rcases h with ⟨_, hlen, hhead⟩
  rw [addressPath]
  rcases hbytes : sockaddr.drop 2 with _ | ⟨b, rest⟩
  · rw [drop_eq_nil_iff] at hbytes
    omega
  rw [hbytes, head?_cons, ne_eq, Option.some_inj] at hhead
  rw [untilNul, takeWhile_cons_of_pos (by simpa using hhead), fromUtf8Lossy, length_cons,
    decodeLossy, if_neg (cons_ne_nil _ _)]
  split <;> exact cons_ne_nil _ _

theorem nul_notMem_strip (h : '\x00' ∉ path) (chrootDir : Str) :
    '\x00' ∉ stripChrootPrefix chrootDir path := by
  unfold stripChrootPrefix dropPrefix
  split
  · split
    · decide
    · exact fun hc => h (mem_of_mem_drop hc)
  · exact h

end LindGrates.Chroot
