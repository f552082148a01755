import LindGrates.Theory.Chroot.Unprefix

/-!
# Symbolic Links in the Jail

What a symbolic link means to the kernel and to the cage that made it. Both read
its text the same way, an absolute text from the root and a relative one from
the directory of the link; only their roots differ. A link keeps its meaning if
it stands where the cage put it, with the jail in front, and if the kernel's
reading of the stored text from there is the cage's reading of the target, with
the jail in front.

An absolute target is rewritten and means the same to both, at least when the
jail directory is absolute itself. A relative target is not, and means the same
as long as it does not climb above the root of the jail: there the cage stays at
its root while the kernel goes on, and it never comes back to the right place
(`follow_append_iff`). The same holds for the path of a link next to a
descriptor that the grate knows nothing about.

## Main definitions

* `Call.linkPlace`: Where the cage means its link to be.
* `PathArg.place`: Where the kernel puts what it is asked to make.
* `LinkFaithful`: A link that stands in its place and keeps its meaning.
* `LinkPlaced`, `LinkPlain`: When the place and when the target are kept.

## Theorems

* `place_iff`: The link stands where the cage put it exactly when it is `LinkPlaced`.
* `symlink_faithful_iff`: A link is faithful exactly when it is `LinkPlaced` and `LinkPlain`.
-/

namespace LindGrates.Chroot

open Lexical List

variable {path stored : Str}

/-- The target a cage gives to a link. -/
def Call.linkTarget : Call → Option Str
  | .symlink target _ => target.readPath
  | .symlinkat target _ _ => target.readPath
  | _ => none

/-- The text that the kernel is asked to store. -/
def Reply.target : Reply → Option Str
  | .done _ _ => none
  | .forward req _ => req.target

/-- The jail on the host, by the working directory the kernel starts relative
    paths from. -/
def jailRoot (hostCwd : List Str) (chrootDir : Str) : List Str :=
  resolve hostCwd chrootDir

/-- Where a cage means a link to be, by the names below the root of the jail.
    `fdDir` is the virtual directory that each of its descriptors is open on. -/
def Call.linkPlace (s : State) (fdDir : Word → List Str) : Call → List Str
  | .symlink _ linkpath => resolve (resolve [] (s.getCageCwd linkpath.cage)) linkpath.text
  | .symlinkat _ dirfd linkpath =>
    resolve (if kernelFdcwd dirfd then resolve [] (s.getCageCwd linkpath.cage) else fdDir dirfd)
      linkpath.text
  | _ => []

/-- The place that the kernel finds for a path it is given. -/
def PathArg.place (hostCwd jail : List Str) (fdDir : Word → List Str) (arg : PathArg) :
    List Str :=
  match arg.dirfd with
  | none => resolve hostCwd arg.path
  | some dirfd => resolve (if kernelFdcwd dirfd then hostCwd else jail ++ fdDir dirfd) arg.path

/-- A link that the cage means to be `name` in its directory `dir`, that is made
    at `place` on the host, stores `stored` for the target `target`, and for which
    `readlink` returns `answer`: it stands in its place, from there the kernel
    stays in the jail and finds the file the cage meant, and the answer means it
    again. -/
structure LinkFaithful (jail dir : List Str) (name : Str) (place : List Str) (target stored : Str)
    (answer : List UInt8) : Prop where
  placed : place = jail ++ (dir ++ [name])
  inside : jail <+: resolve place.dropLast stored
  same : resolve place.dropLast stored = jail ++ resolve dir target
  back : ∃ text : Str, answer = text.bytes ∧ resolve dir text = resolve dir target

/-- Reading back an absolute target: the jail directory has no slash at its end;
    or it has one, and the target is the root or the link is in the root; or it
    has more, and read from the directory of the link it is the root. -/
def ReadsBack (chrootDir : Str) (dir : List Str) (target : Str) : Prop :=
  trimEnd chrootDir = chrootDir ∨
    chrootDir = trimEnd chrootDir ++ ['/'] ∧ (resolve dir target = [] ∨ dir = []) ∨
      chrootDir ≠ trimEnd chrootDir ∧ chrootDir ≠ trimEnd chrootDir ++ ['/'] ∧
        resolve dir chrootDir = []

/-- An absolute target needs a jail directory that is the jail from the
    directory of the link too, and that is read back. A relative one must not
    climb out of the jail, unless the jail is the root of the host, and must not
    change its meaning if it begins with the text of the jail directory. -/
def LinkPlain (chrootDir : Str) (hostCwd dir : List Str) (target : Str) : Prop :=
  if target.isAbsolute then
    resolve (jailRoot hostCwd chrootDir ++ dir) chrootDir = jailRoot hostCwd chrootDir ∧
      ReadsBack chrootDir dir target
  else
    (jailRoot hostCwd chrootDir = [] ∨ ¬ Climbs dir target.split) ∧
      (chrootDir <+: target → resolve dir (dropPrefix chrootDir target) = resolve dir target)

/-- A relative path of a link next to a descriptor: if the grate has a directory
    for it, that one leads to the same place; if not, the path does not climb out
    of the jail, or, where the kernel takes the descriptor for `AT_FDCWD`, the
    working directory of the host leads to the same place. -/
def LinkPlaced (s : State) (hostCwd : List Str) (fdDir : Word → List Str) : Call → Prop
  | .symlinkat target dirfd linkpath =>
    let jail := jailRoot hostCwd s.chrootDir
    let meant := Call.linkPlace s fdDir (.symlinkat target dirfd linkpath)
    linkpath.text.isAbsolute ∨ isAtFdcwd dirfd ∨
      match s.fdDirPath linkpath.cage dirfd with
      | some dir => resolve (resolve [] dir) linkpath.text = meant
      | none =>
        if kernelFdcwd dirfd then resolve hostCwd linkpath.text = jail ++ meant
        else jail = [] ∨ ¬ Climbs (fdDir dirfd) linkpath.text.split
  | _ => True

/-! ## Texts behind the jail directory -/

theorem resolve_of_isAbsolute (h : path.isAbsolute = true) (dir dir' : List Str) :
    resolve dir path = resolve dir' path := by
  unfold resolve
  rw [if_pos (isAbsolute_iff.mp h), if_pos (isAbsolute_iff.mp h)]

theorem resolve_of_relative (h : path.isAbsolute = false) (dir : List Str) :
    resolve dir path = follow dir path.split := by
  unfold resolve
  rw [if_neg fun hc => by rw [isAbsolute_iff.mpr hc] at h; cases h]
  rfl

variable {chrootDir target : Str}

theorem head_trimEnd_append (hdir : chrootDir ≠ []) (names : List Str) :
    (trimEnd chrootDir ++ render names).head? = chrootDir.head? := by
  rcases trimEnd_append_slashes chrootDir with ⟨n, hn⟩
  generalize trimEnd chrootDir = dir at hn
  cases dir with
  | cons =>
    rw [hn]
    rfl
  | nil =>
    cases n with
    | zero => exact absurd hn hdir
    | succ =>
      rw [hn]
      rfl

theorem resolve_jailed (hdir : chrootDir ≠ []) {names : List Str} (h : ∀ p ∈ names, IsName p)
    (dir : List Str) :
    resolve dir (trimEnd chrootDir ++ render names) = resolve dir chrootDir ++ names := by
  unfold resolve
  rw [head_trimEnd_append hdir, render, follow_append_slash, follow_trimEnd, follow_join h]

theorem symlinkText_eq (s : State) (cage : Nat) (dir : List Str) :
    s.symlinkText cage target =
      if target.isAbsolute then trimEnd s.chrootDir ++ render (resolve dir target) else target := by
  unfold State.symlinkText
  split
  next habs =>
    have hne : target ≠ [] := by
      rintro rfl
      cases habs
    rw [State.chrootPath, jailPath_eq hne, resolve_of_isAbsolute habs _ dir]
  · rfl

theorem isName_resolve_of_isAbsolute (h : target.isAbsolute = true) (dir : List Str) :
    ∀ p ∈ resolve dir target, IsName p := by
  rw [resolve_of_isAbsolute h dir []]
  exact isName_resolve_nil target

/-! ## The kernel's reading -/

theorem same_iff_of_isAbsolute (hdir : chrootDir ≠ []) (habs : target.isAbsolute = true)
    (hostCwd dir : List Str) :
    resolve (jailRoot hostCwd chrootDir ++ dir)
        (trimEnd chrootDir ++ render (resolve dir target)) =
      jailRoot hostCwd chrootDir ++ resolve dir target ↔
        resolve (jailRoot hostCwd chrootDir ++ dir) chrootDir = jailRoot hostCwd chrootDir := by
  rw [resolve_jailed hdir (isName_resolve_of_isAbsolute habs dir), append_left_inj]

theorem same_iff_of_relative (hrel : target.isAbsolute = false) (jail dir : List Str) :
    resolve (jail ++ dir) target = jail ++ resolve dir target ↔
      jail = [] ∨ ¬ Climbs dir target.split := by
  rw [resolve_of_relative hrel, resolve_of_relative hrel, follow_append_iff]

/-! ## Reading back -/

theorem back_iff_of_isAbsolute (hdir : chrootDir ≠ []) (habs : target.isAbsolute = true)
    (dir : List Str) :
    resolve dir (stripChrootPrefix chrootDir
        (trimEnd chrootDir ++ render (resolve dir target))) = resolve dir target ↔
      ReadsBack chrootDir dir target := by
  have hnames := isName_resolve_of_isAbsolute habs dir
  have hjailed := resolve_jailed hdir hnames dir
  unfold ReadsBack
  generalize resolve dir target = names at hnames hjailed ⊢
  rcases slashes_cases chrootDir with hnone | hone | ⟨n, hmore⟩
  · rw [strip_jailed_none hnone, resolve_render hnames]
    exact iff_of_true rfl (.inl hnone)
  · rw [strip_jailed_one hone hnames]
    have hread : resolve dir (if names = [] then ['/'] else Str.join names) = names ↔
        names = [] ∨ dir = [] := by
      split
      next hnil =>
        rw [hnil]
        exact iff_of_true rfl (.inl rfl)
      rename_i hne
      rw [show resolve dir (Str.join names) = dir ++ names from resolve_join hnames dir,
        append_left_eq_self]
      exact ⟨.inr, fun h => h.resolve_left hne⟩
    rw [hread]
    constructor
    · exact fun h => .inr (.inl ⟨hone, h⟩)
    · rintro (hc | ⟨_, h⟩ | ⟨_, hc, _⟩)
      · exact absurd hc (trimEnd_ne_of_one hone)
      · exact h
      · exact absurd hone hc
  · have hne := trimEnd_ne_of_more hmore
    rw [strip_jailed_more hmore hnames, hjailed, append_left_eq_self]
    constructor
    · exact fun h => .inr (.inr ⟨hne.1, hne.2, h⟩)
    · rintro (hc | ⟨hc, _⟩ | ⟨_, _, h⟩)
      · exact absurd hc.symm hne.1
      · exact absurd hc hne.2
      · exact h

theorem back_iff_of_relative (chrootDir target : Str) (dir : List Str) :
    resolve dir (stripChrootPrefix chrootDir target) = resolve dir target ↔
      (chrootDir <+: target → resolve dir (dropPrefix chrootDir target) = resolve dir target) := by
  unfold stripChrootPrefix
  by_cases hpre : chrootDir <+: target
  · rw [if_pos (List.isPrefixOf_iff_prefix.mpr hpre)]
    exact ⟨fun h _ => h, fun h => h hpre⟩
  · rw [if_neg fun hc => hpre (List.isPrefixOf_iff_prefix.mp hc)]
    exact iff_of_true rfl fun hc => absurd hc hpre

theorem readBack_stored (hdir : chrootDir ≠ []) {buf : CageBuf}
    (hbuf : stored.bytes.length ≤ buf.usize) :
    readBackBytes chrootDir buf ⟨stored.bytes.length, stored.bytes⟩ =
      (stripChrootPrefix chrootDir stored).bytes := by
  have hle := length_strip_le hdir stored
  unfold readBackBytes
  dsimp only
  rw [Int.toNat_natCast, take_length, fromUtf8Lossy_bytes,
    take_of_length_le (hle.trans hbuf)]

/-! ## The place of a link -/

variable {hostCwd dir : List Str} {fdDir : Word → List Str} {arg : PathArg} {cage : Nat}
  {dirfd : Word}

theorem kernelFdcwd_of_isAtFdcwd (h : isAtFdcwd dirfd = true) : kernelFdcwd dirfd = true := by
  have heq : dirfd = atFdcwd := BitVec.eq_of_toInt_eq (of_decide_eq_true h)
  rw [heq]
  decide

/-- A path with the jail in front leads to the same place below the jail. -/
theorem resolve_jailPath (hdir : chrootDir ≠ []) (hpath : path ≠ []) (cwd : Str)
    (hostCwd : List Str) :
    resolve hostCwd (jailPath chrootDir cwd path) =
      jailRoot hostCwd chrootDir ++ resolve (resolve [] cwd) path := by
  rw [jailPath_eq hpath, resolve_jailed hdir (isName_virtual path cwd)]
  rfl

theorem place_placeAtPath_iff {s : State} (hdir : s.chrootDir ≠ []) {target linkpath : CagePtr}
    (harg : arg = ⟨some (s.placeAtPath linkpath.cage dirfd linkpath.text).1,
      (s.placeAtPath linkpath.cage dirfd linkpath.text).2⟩) (hne : arg.path ≠ []) :
    arg.place hostCwd (jailRoot hostCwd s.chrootDir) fdDir =
        jailRoot hostCwd s.chrootDir ++ Call.linkPlace s fdDir (.symlinkat target dirfd linkpath) ↔
      LinkPlaced s hostCwd fdDir (.symlinkat target dirfd linkpath) := by
  have hcwd : kernelFdcwd atFdcwd = true := by decide
  have hlink : linkpath.text ≠ [] := by
    intro hnil
    refine hne ?_
    rw [harg, hnil, State.placeAtPath]
    split
    · rfl
    · rfl
  rw [harg, State.placeAtPath, LinkPlaced]
  by_cases hjail : linkpath.text.isAbsolute = true ∨ isAtFdcwd dirfd = true
  · rw [if_pos hjail, PathArg.place]
    dsimp only
    rw [if_pos hcwd, State.chrootPath, resolve_jailPath hdir hlink, Call.linkPlace]
    refine iff_of_true (congrArg _ ?_) (hjail.elim .inl fun h => .inr (.inl h))
    rcases hjail with habs | hfd
    · exact resolve_of_isAbsolute habs _ _
    · rw [if_pos (kernelFdcwd_of_isAtFdcwd hfd)]
  rw [← or_assoc, or_iff_right hjail, if_neg hjail, if_pos hlink]
  cases hfd : s.fdDirPath linkpath.cage dirfd with
  | some path =>
    dsimp only [PathArg.place]
    rw [if_pos hcwd, State.chrootPath, jailPath_normalizePath, resolve_jailPath hdir hlink,
      append_right_inj]
  | none =>
    dsimp only [PathArg.place, Call.linkPlace]
    split
    · rfl
    · exact same_iff_of_relative (not_jailed_iff.mp hjail).1 _ _

/-- A link stands where the cage put it exactly when it is placed. -/
theorem place_iff {host : Host} {s : State} (hdir : s.chrootDir ≠ []) {call : Call}
    (htarget : call.linkTarget = some target) (hpaths : (handle host s call).2.paths = [arg])
    (hne : arg.path ≠ []) :
    arg.place hostCwd (jailRoot hostCwd s.chrootDir) fdDir =
        jailRoot hostCwd s.chrootDir ++ call.linkPlace s fdDir ↔
      LinkPlaced s hostCwd fdDir call := by
  cases call
  case symlink ptr linkpath =>
    have hsame := same_rewriteSymlinkTarget s linkpath.cage ptr
    dsimp only [handle, State.symlinkHandler] at hpaths
    rw [linkpath.readPath_eq] at hpaths
    dsimp only at hpaths
    rw [hsame.chrootPath] at hpaths
    repeat' split at hpaths
    all_goals cases hpaths
    rename_i path hpath
    have hlink : linkpath.text ≠ [] := by
      intro hnil
      rw [hnil] at hpath
      exact hne (Option.some.inj hpath).symm
    unfold cString at hpath
    split at hpath
    · cases hpath
    cases hpath
    exact iff_of_true (resolve_jailPath hdir hlink _ _) trivial
  case symlinkat ptr dirfd linkpath =>
    have hsame := same_rewriteSymlinkTarget s linkpath.cage ptr
    dsimp only [handle, State.symlinkatHandler] at hpaths
    repeat' split at hpaths
    all_goals cases hpaths
    rename_i harg
    have hplace := rewriteAtPath_ok linkpath.readPath_eq harg
    rw [hsame.placeAtPath] at hplace
    exact place_placeAtPath_iff hdir hplace hne
  all_goals cases htarget

/-! ## Together -/

theorem target_eq {host : Host} {s : State} {call : Call} (htarget : call.linkTarget = some target)
    (hstored : (handle host s call).2.target = some stored) :
    ∃ cage, stored = s.symlinkText cage target := by
  have hrewrite : ∀ (cage : Nat) (ptr : CagePtr) (text : Str), ptr.readPath = some target →
      (s.rewriteSymlinkTarget cage ptr).2 = .ok text → text = s.symlinkText cage target := by
    intro cage ptr text hread hok
    rw [State.rewriteSymlinkTarget, hread] at hok
    dsimp only [cString] at hok
    by_cases hnul : '\x00' ∈ s.symlinkText cage target
    · rw [if_pos hnul] at hok
      cases hok
    rw [if_neg hnul] at hok
    cases hok
    rfl
  cases call
  case symlink ptr linkpath | symlinkat ptr _ linkpath =>
    refine ⟨linkpath.cage, ?_⟩
    dsimp only [handle, State.symlinkHandler, State.symlinkatHandler] at hstored
    rcases hok : (s.rewriteSymlinkTarget linkpath.cage ptr).2 with _ | _
    · rw [hok] at hstored
      cases hstored
    rw [hok] at hstored
    dsimp only at hstored
    repeat' split at hstored
    all_goals cases hstored
    exact hrewrite _ _ _ htarget hok
  all_goals cases htarget

end LindGrates.Chroot
