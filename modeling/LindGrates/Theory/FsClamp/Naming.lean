import LindGrates.Theory.FsClamp.Paths
import LindGrates.Theory.FsClamp.Sides
import LindGrates.Theory.FsClamp.Steps
import LindGrates.Theory.PathBytes

/-!
# Routing by Name

The clamp is to send a call to the clamped side exactly when the file it names lies
below the prefix. A file is named by an absolute path, by a path that starts at the
working directory, or by one that starts at the directory behind a descriptor.

The clamp compares the beginning of the normalised path with the prefix as it was
given. Beside a descriptor it goes by the side the descriptor is on. Of two paths
`link` and `rename` look at the first one only.

## Main definitions

* `Naming`: A call with the paths and directories its names are made of.
* `Naming.Inside`: The file of a name is below the prefix.
* `Naming.Told`: A name tells the clamp where its file is.

## Theorems

* `routes_by_name_iff`: A call goes where its files are, if its names tell.
* `routes_sibling`: Calls that go to the wrong side.
-/

namespace LindGrates.FsClamp

open FdTables Posix Dialogue Lexical List State
open Option (mem_some_iff some_ne_none getD_some)

/-- The side a handler's first call goes to. -/
def goesTo {A : Type} : Asking A → Option Side
  | .ask (.syscall f) _ => some f.side
  | _ => none

/-- Where a name stands among the arguments: its path, and the descriptor of the
    directory it starts from if there is one. -/
structure PathArg where
  dirfd : Option (Fin 6)
  path : Fin 6
  deriving DecidableEq

/-- The names among the arguments of a call. The first path of `symlink` and of
    `symlinkat` is what the link says, and names nothing yet. -/
def namesOf : Sys → List PathArg
  | .open | .xstat | .lstat | .access | .unlink | .mkdir | .rmdir | .truncate | .chmod | .chown
  | .lchown | .chdir | .mknod | .readlink | .statfs => [⟨none, 0⟩]
  | .symlink => [⟨none, 1⟩]
  | .link | .rename => [⟨none, 0⟩, ⟨none, 1⟩]
  | .openat | .unlinkat | .readlinkat | .newfstatat | .statx | .faccessat | .fchmodat | .fchownat
  | .utimensat => [⟨some 0, 1⟩]
  | .symlinkat => [⟨some 1, 2⟩]
  | .linkat => [⟨some 0, 1⟩, ⟨some 2, 3⟩]
  | _ => []

/-- A path stands in the memory of a cage and can name a file: it is not empty and
    short enough. -/
structure NamedAt (mem : Memory) (cage : Nat) (ptr : Word) (path : List UInt8) : Prop where
  ptr_ne : ptr ≠ 0
  path_ne : path ≠ []
  no_nul : 0 ∉ path
  length_lt : path.length < maxPathLen
  read : ∃ rest, mem cage ptr = some (path ++ 0 :: rest)

theorem NamedAt.readPath {mem : Memory} {cage : Nat} {ptr : Word}
    {path : List UInt8} (h : NamedAt mem cage ptr path) :
    readPathFromCage mem ptr cage = fromUtf8 path := by
  rcases h.read with ⟨rest, hread⟩
  have hlt := h.length_lt
  have htake :
      ((path ++ 0 :: rest).take maxPathLen).takeWhile (fun b => decide (b ≠ 0)) = path := by
    rw [take_append, take_of_length_le (Nat.le_of_lt hlt)]
    rw [show maxPathLen - path.length = (maxPathLen - path.length - 1) + 1 by omega,
      take_succ_cons, takeWhile_append_of_pos]
    · rw [takeWhile_cons_of_neg (by decide), append_nil]
    · intro b hb
      exact decide_eq_true fun hz => h.no_nul (hz ▸ hb)
  rw [readPathFromCage, hread, copyInto_eq, getD_some, Option.bind_some, htake]

/-- A call of a cage that has a route, with the paths among its arguments and the
    directories behind its descriptors. -/
structure Naming (T : Type) where
  sys : Sys
  state : State T
  mem : Memory
  cage : Nat
  args : Fin 6 → Word
  path : Fin 6 → List UInt8
  dir : Fin 6 → List Str
  named : ∀ a ∈ namesOf sys, NamedAt mem cage (args a.path) (path a.path)
  routed : (state.getRoute cage sys).isSome = true
  absolute : state.routingPrefix.head? = some '/'

namespace Naming

variable {T : Type}

def cwd (n : Naming T) : List Str :=
  resolve [] (n.state.getCageCwd n.cage)

def base (n : Naming T) (a : PathArg) : List Str :=
  match a.dirfd with
  | none => n.cwd.map byteName
  | some i => if n.args i = atFdcwd then n.cwd.map byteName else n.dir i

def file (n : Naming T) (a : PathArg) : List Str :=
  resolve (n.base a) (bytePath (n.path a.path))

/-- The file is the one the prefix stands for or lies below it. -/
def Inside (n : Naming T) (a : PathArg) : Prop :=
  (resolve [] n.state.routingPrefix).map byteName <+: n.file a

instance (n : Naming T) (a : PathArg) : Decidable (n.Inside a) :=
  inferInstanceAs (Decidable (List.IsPrefix _ _))

/-- The name starts at the directory of a descriptor, as far as the clamp can tell:
    there is a descriptor, and the path is not text or not absolute. -/
def ByDescriptor (n : Naming T) (a : PathArg) : Prop :=
  (∃ i ∈ a.dirfd, n.args i ≠ atFdcwd) ∧
    ∀ path ∈ fromUtf8 (n.path a.path), path.head? ≠ some '/'

def entry [FdTables T] (n : Naming T) (a : PathArg) : Option FDTableEntry :=
  a.dirfd.bind fun i => translateVirtualFd n.state.fds n.cage (n.args i).toNat

/-- The name tells the clamp where its file is. Beside a descriptor that is on the
    clamped side the file is inside, and beside another it is not. Otherwise a file
    inside has a path that is text and begins with the prefix as it is spelled, and
    no file is named whose path begins with it but goes on in the same part. -/
structure Told [FdTables T] (n : Naming T) (a : PathArg) : Prop where
  byDescriptor : n.ByDescriptor a →
    ((∃ e ∈ n.entry a, e.perfdinfo ≠ 0) ↔ n.Inside a)
  spelled : ¬n.ByDescriptor a → n.Inside a →
    ∃ path ∈ fromUtf8 (n.path a.path), Spelled n.state.routingPrefix (resolve n.cwd path)
  no_sibling : ¬n.ByDescriptor a →
    ∀ path ∈ fromUtf8 (n.path a.path), ¬Sibling n.state.routingPrefix (resolve n.cwd path)

def Refused [FdTables T] (n : Naming T) (a : PathArg) : Prop :=
  n.ByDescriptor a ∧ n.entry a = none

/-- Two names tell the clamp where both their files are. -/
def ToldBoth [FdTables T] (n : Naming T) (a b : PathArg) : Prop :=
  if n.sys = .linkat then
    n.Refused a ∨ n.Refused b ∨
      (n.Inside a ∧ n.Inside b ∧ (n.Told a ∨ n.Told b)) ∨
      (¬n.Inside a ∧ ¬n.Inside b ∧ n.Told a ∧ n.Told b)
  else (n.Inside a ↔ n.Inside b) ∧ n.Told a

def request (n : Naming T) : Request :=
  ⟨n.sys, n.args, fun _ => n.cage⟩

/-- The side the call goes to, if it goes anywhere. -/
def goesTo [FdTables T] (n : Naming T) : Option Side :=
  (nsHandler n.state n.mem n.request).bind FsClamp.goesTo

/-! ## The decision of the clamp -/

/-- What the clamp decides about a name: by the descriptor, or by the text. -/
def Clamps [FdTables T] (n : Naming T) (a : PathArg) : Prop :=
  (n.ByDescriptor a ∧ ∃ e ∈ n.entry a, e.perfdinfo ≠ 0) ∨
    (¬n.ByDescriptor a ∧
      ∃ path ∈ fromUtf8 (n.path a.path), n.state.routingPrefix <+: render (resolve n.cwd path))

variable {a b : PathArg} {path : Str} {i j : Fin 6} {clamped : Prop} {sys : Sys}

section

variable (n : Naming T)

theorem file_eq (h : ¬n.ByDescriptor a) (hpath : fromUtf8 (n.path a.path) = some path) :
    n.file a = (resolve n.cwd path).map byteName := by
  have hbytes : bytePath (n.path a.path) = byteName path := by
    rw [byteName, fromUtf8_eq_some_iff.mp hpath]
  have hbase : n.base a = n.cwd.map byteName ∨ path.head? = some '/' := by
    unfold base
    rcases hfd : a.dirfd with _ | i
    · exact .inl rfl
    by_cases hcwd : n.args i = atFdcwd
    · exact .inl (if_pos hcwd)
    refine .inr (by_contra fun habs => h ⟨⟨i, hfd, hcwd⟩, ?_⟩)
    intro path' hpath'
    cases hpath.symm.trans hpath'
    exact habs
  unfold file
  rw [hbytes]
  rcases hbase with hbase | habs
  · rw [hbase, resolve_byteName]
  · rw [← resolve_byteName, resolve, resolve, if_pos ((head_byteName path).mpr habs),
      if_pos ((head_byteName path).mpr habs)]

theorem clamps_text_iff [FdTables T] (n : Naming T) (hby : ¬n.ByDescriptor a) :
    n.Clamps a ↔
      ∃ path ∈ fromUtf8 (n.path a.path), n.state.routingPrefix <+: render (resolve n.cwd path) := by
  simp only [Clamps, hby, false_and, not_false_eq_true, true_and, false_or]

theorem clamps_iff_inside_iff [FdTables T] (n : Naming T) (a : PathArg) :
    (n.Clamps a ↔ n.Inside a) ↔ n.Told a := by
  by_cases hby : n.ByDescriptor a
  · have hclamps : n.Clamps a ↔ ∃ e ∈ n.entry a, e.perfdinfo ≠ 0 := by
      simp only [Clamps, hby, true_and, not_true_eq_false, false_and, or_false]
    rw [hclamps]
    exact ⟨fun h => ⟨fun _ => h, fun hn => absurd hby hn, fun hn => absurd hby hn⟩,
      fun h => h.byDescriptor hby⟩
  rw [n.clamps_text_iff hby]
  cases hpath : fromUtf8 (n.path a.path) with
  | none =>
    constructor
    · intro h
      refine ⟨fun hc => absurd hc hby, fun _ hin => ?_, fun _ path hmem => ?_⟩
      · rcases h.mpr hin with ⟨path, hmem, _⟩
        cases hmem
      · rw [hpath] at hmem
        cases hmem
    · intro h
      constructor
      · rintro ⟨path, hmem, _⟩
        cases hmem
      · intro hin
        rcases h.spelled hby hin with ⟨path, hmem, _⟩
        rw [hpath] at hmem
        cases hmem
  | some path =>
    have hnames : ∀ p ∈ resolve n.cwd path, IsName p := isName_resolve (isName_root _) path
    have hin : n.Inside a ↔ resolve [] n.state.routingPrefix <+: resolve n.cwd path := by
      rw [Inside, n.file_eq hby hpath, map_byteName_prefix_iff]
    have htext : (∃ p ∈ some path, n.state.routingPrefix <+: render (resolve n.cwd p)) ↔
        n.state.routingPrefix <+: render (resolve n.cwd path) := by
      simp only [mem_some_iff, exists_eq_left']
    rw [htext, hin, prefix_iff_below_iff n.absolute hnames]
    constructor
    · rintro ⟨hspelled, hsibling⟩
      refine ⟨fun hc => absurd hc hby, fun _ h => ⟨path, hpath, hspelled (hin.mp h)⟩, ?_⟩
      intro _ p hp
      cases hpath.symm.trans hp
      exact hsibling
    · intro h
      refine ⟨fun hbelow => ?_, h.no_sibling hby path hpath⟩
      rcases h.spelled hby (hin.mpr hbelow) with ⟨p, hp, hs⟩
      cases hpath.symm.trans hp
      exact hs

theorem not_byDescriptor_none (j : Fin 6) : ¬n.ByDescriptor ⟨none, j⟩ := by
  rintro ⟨⟨i, hi, _⟩, _⟩
  cases hi

/-! ## What the clamp reads -/

theorem matchesAt_iff (ha : a ∈ namesOf n.sys) :
    n.state.matchesAt n.mem n.cage (n.args a.path) n.cage = true ↔
      ∃ path ∈ fromUtf8 (n.path a.path),
        n.state.routingPrefix <+: render (resolve n.cwd path) := by
  rw [matchesAt, resolvePathFromCage, (n.named a ha).readPath]
  rcases fromUtf8 (n.path a.path) with _ | _
  · simp
  simp only [Option.map_some, Option.any_some, pathMatchesPrefix,
    isPrefixOf_iff_prefix, resolvePathForCage_eq, mem_some_iff, exists_eq_left']
  rfl

theorem path_ne_nil (ha : a ∈ namesOf n.sys)
    (hpath : fromUtf8 (n.path a.path) = some path) : path ≠ [] := by
  rintro rfl
  exact (n.named a ha).path_ne (fromUtf8_eq_some_iff.mp hpath).symm

theorem clamps_entry_iff [FdTables T] (n : Naming T) {e : FDTableEntry}
    (hby : n.ByDescriptor ⟨some i, j⟩)
    (he : translateVirtualFd n.state.fds n.cage (n.args i).toNat = some e) :
    n.Clamps ⟨some i, j⟩ ↔ e.perfdinfo ≠ 0 := by
  have hentry : n.entry ⟨some i, j⟩ = some e := he
  simp only [Clamps, hby, hentry, true_and, not_true_eq_false, false_and, or_false,
    mem_some_iff, exists_eq_left']

theorem byDescriptor_iff :
    n.ByDescriptor ⟨some i, j⟩ ↔ n.args i ≠ atFdcwd ∧
      ((fromUtf8 (n.path j)).getD []).isAbsolute = false := by
  cases hpath : fromUtf8 (n.path j) with
  | none | some => simp [ByDescriptor, hpath, Str.isAbsolute]

theorem eq_atFdcwd (hby : ¬n.ByDescriptor ⟨some i, j⟩)
    (habs : ((fromUtf8 (n.path j)).getD []).isAbsolute = false) : n.args i = atFdcwd := by
  by_contra hne
  exact hby (n.byDescriptor_iff.mpr ⟨hne, habs⟩)

theorem matches_absolute_iff (habs : path.isAbsolute = true) :
    n.state.pathMatchesPrefix (normalizePath path) = true ↔
      n.state.routingPrefix <+: render (resolve n.cwd path) := by
  have hresolve : resolve [] path = resolve n.cwd path := by
    rw [resolve, resolve, ite_self, if_pos (isAbsolute_eq_true_iff.mp habs)]
  rw [pathMatchesPrefix, isPrefixOf_iff_prefix, normalizePath_eq, hresolve]

theorem prepare_cases [FdTables T] (n : Naming T) (ha : ⟨some i, j⟩ ∈ namesOf n.sys)
    (args : Fin 6 → Word) (k : Fin 6) :
    (¬n.Refused ⟨some i, j⟩ ∧ ∃ clamp args',
      prepareAtPathRoute n.state n.mem n.cage (n.args i) (n.args j) n.cage args k =
        .ok (clamp, args') ∧ (clamp = true ↔ n.Clamps ⟨some i, j⟩)) ∨ (n.Refused ⟨some i, j⟩ ∧ ∃ e,
      prepareAtPathRoute n.state n.mem n.cage (n.args i) (n.args j) n.cage args k = .error e) := by
  have hread := (n.named _ ha).readPath
  unfold prepareAtPathRoute
  rw [hread]
  by_cases hby : n.ByDescriptor ⟨some i, j⟩
  · have hdir := n.byDescriptor_iff.mp hby
    simp only [hdir.2, Bool.false_eq_true, if_false, if_neg hdir.1]
    rcases he : translateVirtualFd n.state.fds n.cage (n.args i).toNat with _ | e
    · exact .inr ⟨⟨hby, he⟩, _, rfl⟩
    refine .inl ⟨fun h => some_ne_none e (he.symm.trans h.2), ?_⟩
    have hclamps := n.clamps_entry_iff hby he
    by_cases hp : e.perfdinfo = 0
    · simp only [ne_eq, hp, not_true_eq_false, if_false]
      exact ⟨_, _, rfl, by simp [hclamps, hp]⟩
    · simp only [ne_eq, hp, not_false_eq_true, if_true]
      exact ⟨_, _, rfl, by simp [hclamps, hp]⟩
  · refine .inl ⟨fun h => hby h.1, ?_⟩
    rw [n.clamps_text_iff hby]
    rcases hpath : fromUtf8 (n.path j) with _ | path
    · have hcwd : n.args i = atFdcwd := n.eq_atFdcwd hby (by rw [hpath]; rfl)
      simp only [Option.getD_none, hcwd, if_true]
      exact ⟨false, args, rfl, by simp⟩
    have hne := n.path_ne_nil ha hpath
    by_cases habs : path.isAbsolute = true
    · simp only [getD_some, habs, if_true]
      refine ⟨_, _, rfl, ?_⟩
      rw [n.matches_absolute_iff habs]
      simp only [mem_some_iff, exists_eq_left']
    have hcwd : n.args i = atFdcwd := n.eq_atFdcwd hby (by
      rw [hpath]
      exact Bool.not_eq_true _ ▸ habs)
    simp only [getD_some, habs, hcwd, if_true]
    refine ⟨_, _, rfl, ?_⟩
    rw [isEmpty_eq_false_iff.mpr hne]
    simp only [Bool.not_false, Bool.true_and, pathMatchesPrefix,
      isPrefixOf_iff_prefix, resolvePathForCage_eq, mem_some_iff,
      exists_eq_left']
    rfl

theorem translate_cases [FdTables T] (n : Naming T) :
    (¬n.Refused ⟨some 0, j⟩ ∧ ∃ clamped args,
      translateDirfd n.state n.cage ((fromUtf8 (n.path j)).getD []) n.args = .ok (clamped, args) ∧
        (clamped = true ↔ n.ByDescriptor ⟨some 0, j⟩ ∧ n.Clamps ⟨some 0, j⟩)) ∨
    (n.Refused ⟨some 0, j⟩ ∧ ∃ e,
      translateDirfd n.state n.cage ((fromUtf8 (n.path j)).getD []) n.args = .error e) := by
  unfold translateDirfd
  by_cases hby : n.ByDescriptor ⟨some 0, j⟩
  · have hdir := n.byDescriptor_iff.mp hby
    rw [if_neg fun h => h.elim hdir.1 fun habs => Bool.false_ne_true (hdir.2.symm.trans habs)]
    rcases he : translateVirtualFd n.state.fds n.cage (n.args 0).toNat with _ | e
    · exact .inr ⟨⟨hby, he⟩, _, rfl⟩
    refine .inl ⟨fun h => some_ne_none e (he.symm.trans h.2), ?_⟩
    have hclamps := n.clamps_entry_iff hby he
    by_cases hp : e.perfdinfo = 0
    · simp only [ne_eq, hp, not_true_eq_false, if_false]
      exact ⟨_, _, rfl, by simp [hclamps, hp]⟩
    · simp only [ne_eq, hp, not_false_eq_true, if_true]
      exact ⟨_, _, rfl, by simp [hclamps, hp, hby]⟩
  · refine .inl ⟨fun h => hby h.1, false, n.args, if_pos ?_, by simp [hby]⟩
    by_contra hc
    rw [not_or] at hc
    exact hby (n.byDescriptor_iff.mpr ⟨hc.1, Bool.not_eq_true _ ▸ hc.2⟩)

/-! ## Where the calls go -/

/-- The call goes to the clamped side or to the kernel, as decided. -/
def Sent [FdTables T] (n : Naming T) (clamped : Prop) : Prop :=
  (clamped ∧ n.goesTo = some .clamped) ∨ (¬clamped ∧ n.goesTo = some .kernel)

/-- The call goes as decided about one name, or nowhere although it was not to go to
    the clamped side. -/
def SentFor [FdTables T] (n : Naming T) (a : PathArg) : Prop :=
  n.Sent (n.Clamps a) ∨ (¬n.Clamps a ∧ n.goesTo = none)

theorem sent_route [FdTables T] (n : Naming T) {clamp : Bool} {d : Asking (State T × Int)}
    (hd : nsHandler n.state n.mem n.request = some d)
    (hgoes : FsClamp.goesTo d = some (n.state.routeSide n.cage n.sys clamp))
    (h : clamp = true ↔ clamped) : n.Sent clamped := by
  have hto : n.goesTo = some (n.state.routeSide n.cage n.sys clamp) := by
    rw [goesTo, hd]
    exact hgoes
  unfold routeSide at hto
  rw [n.routed] at hto
  cases clamp with
  | false => exact .inr ⟨fun hc => Bool.false_ne_true (h.mpr hc), hto⟩
  | true => exact .inl ⟨h.mp rfl, hto⟩

theorem goesTo_callClamped [FdTables T] {A : Type} (n : Naming T) (args : Fin 6 → Word)
    (argcages : Fin 6 → Nat) (k : Int → Asking A) :
    FsClamp.goesTo (n.state.callClamped n.cage n.sys args argcages >>= k) = some .clamped := by
  rcases n.state.callClamped_eq n.cage n.sys args argcages with ⟨f, hf, _, _, _, hside⟩
  rw [hf]
  exact congrArg some hside

theorem goesTo_routeIf {A : Type} (n : Naming T) (hsys : n.sys = sys) (clamp : Bool)
    (args : Fin 6 → Word) (argcages : Fin 6 → Nat) (k : Int → Asking A) :
    FsClamp.goesTo (doSyscall n.cage (n.state.routeIf n.cage sys clamp) args argcages >>= k) =
      some (n.state.routeSide n.cage n.sys clamp) := by
  rw [hsys]
  exact congrArg some (side_routeIf n.state n.cage sys clamp n.cage args argcages)

end

variable [FdTables T] (n : Naming T)

theorem sent_text {args : Fin 6 → Word} {argcages : Fin 6 → Nat}
    {k : Int → Asking (State T × Int)} (hsys : n.sys = sys) (ha : ⟨none, j⟩ ∈ namesOf n.sys)
    (hd : nsHandler n.state n.mem n.request = some (doSyscall n.cage (n.state.routeIf n.cage sys
      (n.state.matchesAt n.mem n.cage (n.args j) n.cage)) args argcages >>= k)) :
    n.Sent (n.Clamps ⟨none, j⟩) :=
  n.sent_route hd (n.goesTo_routeIf hsys _ _ _ _) ((n.matchesAt_iff ha).trans
    (n.clamps_text_iff (n.not_byDescriptor_none j)).symm)

theorem sentFor_chdir (hsys : n.sys = .chdir) (ha : ⟨none, 0⟩ ∈ namesOf n.sys)
    (hd : nsHandler n.state n.mem n.request = some (nsChdirHandler n.state n.mem n.request)) :
    n.SentFor ⟨none, 0⟩ := by
  have hread : readPathFromCage n.mem (n.request.args 0) (n.request.argcages 0) =
      fromUtf8 (n.path 0) := (n.named _ ha).readPath
  unfold nsChdirHandler at hd
  simp only [hread] at hd
  have hclamps := n.clamps_text_iff (n.not_byDescriptor_none 0)
  rcases hpath : fromUtf8 (n.path 0) with _ | _
  · rw [hpath] at hd hclamps
    refine .inr ⟨fun hc => ?_, by rw [goesTo, hd]; rfl⟩
    rcases hclamps.mp hc with ⟨path, hmem, _⟩
    cases hmem
  rw [hpath] at hd hclamps
  refine .inl (n.sent_route hd (n.goesTo_routeIf hsys _ _ _ _) ?_)
  rw [hclamps, pathMatchesPrefix, isPrefixOf_iff_prefix]
  simp only [mem_some_iff, exists_eq_left']
  rw [show n.request.argcages 0 = n.cage from rfl, resolvePathForCage_eq]
  rfl

theorem not_clamps_of_refused (h : n.Refused a) : ¬n.Clamps a := by
  rintro (⟨_, e, he, _⟩ | ⟨hby, _⟩)
  · rw [h.2] at he
    cases he
  · exact hby h.1

theorem sentFor_at (hsys : n.sys = sys) (ha : ⟨some i, j⟩ ∈ namesOf n.sys)
    (hd : nsHandler n.state n.mem n.request = some (atHandler sys i j n.state n.mem n.request)) :
    n.SentFor ⟨some i, j⟩ := by
  unfold atHandler at hd
  rcases n.prepare_cases ha n.args i with ⟨_, clamp, args, hprep, hclamp⟩ | ⟨href, e, hprep⟩
  · simp only [request, hprep] at hd
    exact .inl (n.sent_route hd (n.goesTo_routeIf hsys _ _ _ _) hclamp)
  · simp only [request, hprep] at hd
    exact .inr ⟨n.not_clamps_of_refused href, by rw [goesTo, request, hd]; rfl⟩

theorem sentFor_utimensat (hsys : n.sys = .utimensat) (ha : ⟨some 0, 1⟩ ∈ namesOf n.sys)
    (hd : nsHandler n.state n.mem n.request = some (nsUtimensatHandler n.state n.mem n.request)) :
    n.SentFor ⟨some 0, 1⟩ := by
  have hptr : n.request.args 1 ≠ 0 := (n.named _ ha).ptr_ne
  unfold nsUtimensatHandler at hd
  simp only [hptr, if_false] at hd
  exact n.sentFor_at hsys ha hd

/-- `linkat` goes nowhere if it is refused, and otherwise to the clamped side for one
    name or the other. -/
theorem sent_linkat (hsys : n.sys = .linkat) (ha : ⟨some 0, 1⟩ ∈ namesOf n.sys)
    (hb : ⟨some 2, 3⟩ ∈ namesOf n.sys)
    (hd : nsHandler n.state n.mem n.request = some (nsLinkatHandler n.state n.mem n.request)) :
    (¬n.Refused ⟨some 0, 1⟩ ∧ ¬n.Refused ⟨some 2, 3⟩ ∧
      n.Sent (n.Clamps ⟨some 0, 1⟩ ∨ n.Clamps ⟨some 2, 3⟩)) ∨
    ((n.Refused ⟨some 0, 1⟩ ∨ n.Refused ⟨some 2, 3⟩) ∧ n.goesTo = none) := by
  unfold nsLinkatHandler at hd
  rcases n.prepare_cases ha n.args 0 with ⟨hrefa, clamp, args, hprep, hclamp⟩ | ⟨href, e, hprep⟩
  · simp only [request, hprep] at hd
    rcases n.prepare_cases hb args 2 with
      ⟨hrefb, clamp', args', hprep', hclamp'⟩ | ⟨href, e, hprep'⟩
    · simp only [hprep'] at hd
      refine .inl ⟨hrefa, hrefb, n.sent_route hd (n.goesTo_routeIf hsys _ _ _ _) ?_⟩
      rw [Bool.or_eq_true, hclamp, hclamp']
    · simp only [hprep'] at hd
      exact .inr ⟨.inr href, by rw [goesTo, request, hd]; rfl⟩
  · simp only [request, hprep] at hd
    exact .inr ⟨.inl href, by rw [goesTo, request, hd]; rfl⟩

theorem sent_clamped {clamp : Bool} {d : Asking (State T × Int)} {args : Fin 6 → Word}
    {argcages : Fin 6 → Nat} {k : Int → Asking (State T × Int)} (hsys : n.sys = sys)
    (hd : nsHandler n.state n.mem n.request = some d)
    (hcall : d = if clamp = true then n.state.callClamped n.cage sys args argcages >>= k
      else doSyscall n.cage (.plain sys) args argcages >>= k) (h : clamp = true ↔ clamped) :
    n.Sent clamped := by
  subst hsys hcall
  rcases clamp with _ | _
  · exact .inr ⟨fun hc => Bool.false_ne_true (h.mpr hc), by rw [goesTo, hd]; rfl⟩
  exact .inl ⟨h.mp rfl, by
    rw [goesTo, hd]
    exact n.goesTo_callClamped args argcages k⟩

theorem fstatatClamps_iff (ha : ⟨some 0, 1⟩ ∈ namesOf n.sys) {clamped : Bool}
    (h : clamped = true ↔ n.ByDescriptor ⟨some 0, 1⟩ ∧ n.Clamps ⟨some 0, 1⟩) :
    fstatatClamps n.state n.mem n.request ((fromUtf8 (n.path 1)).getD []) clamped = true ↔
      n.Clamps ⟨some 0, 1⟩ := by
  have hmatches := n.matchesAt_iff ha
  unfold fstatatClamps
  by_cases hby : n.ByDescriptor ⟨some 0, 1⟩
  · have hdir := n.byDescriptor_iff.mp hby
    have hfd : n.request.args 0 ≠ atFdcwd := hdir.1
    simp only [hdir.2, hfd, Bool.false_eq_true, if_false, ite_self, h]
    exact and_iff_right hby
  have hclamps := n.clamps_text_iff hby
  rcases hpath : fromUtf8 (n.path 1) with _ | path
  · rw [hclamps, hpath]
    simp [h, hby]
  have hne : path.isEmpty = false := isEmpty_eq_false_iff.mpr (n.path_ne_nil ha hpath)
  simp only [getD_some, hne, Bool.false_eq_true, if_false]
  by_cases habs : path.isAbsolute = true
  · rw [if_pos habs, hclamps, n.matches_absolute_iff habs, hpath]
    simp only [mem_some_iff, exists_eq_left']
  have hcwd : n.request.args 0 = atFdcwd := n.eq_atFdcwd hby (by
    rw [hpath]
    exact Bool.not_eq_true _ ▸ habs)
  rw [if_neg habs, if_pos hcwd, hclamps, ← hmatches]
  rfl

theorem openatClamps_iff (ha : ⟨some 0, 1⟩ ∈ namesOf n.sys) {clamped : Bool}
    (h : clamped = true ↔ n.ByDescriptor ⟨some 0, 1⟩ ∧ n.Clamps ⟨some 0, 1⟩) :
    openatClamps n.state n.mem n.request ((fromUtf8 (n.path 1)).getD []) clamped = true ↔
      n.Clamps ⟨some 0, 1⟩ := by
  have hmatches : n.state.matchesAt n.mem (n.request.argcages 1) (n.request.args 1)
      (n.request.argcages 0) = true ↔ _ := n.matchesAt_iff ha
  unfold openatClamps
  simp only [Bool.or_eq_true, Bool.and_eq_true, hmatches, h]
  by_cases hby : n.ByDescriptor ⟨some 0, 1⟩
  · have hdir := n.byDescriptor_iff.mp hby
    have hfd : n.request.args 0 ≠ atFdcwd := hdir.1
    simp only [hdir.2, hfd, hby, true_and, decide_false, Bool.false_eq_true, or_self, and_false,
      false_and, or_false]
  rw [n.clamps_text_iff hby]
  simp only [hby, false_and, false_or, and_iff_right_iff_imp]
  rintro ⟨path, hpath, _⟩
  have hread : fromUtf8 (n.path 1) = some path := hpath
  rw [hread]
  refine ⟨?_, ?_⟩
  · rw [getD_some, isEmpty_eq_false_iff.mpr (n.path_ne_nil ha hread)]
    rfl
  · by_cases habs : path.isAbsolute = true
    · exact .inl habs
    exact .inr (decide_eq_true (n.eq_atFdcwd hby (by
      rw [hread]
      exact Bool.not_eq_true _ ▸ habs)))

theorem sentFor_translated (ha : ⟨some 0, 1⟩ ∈ namesOf n.sys) (hd : n.sys = .newfstatat ∧
        nsHandler n.state n.mem n.request = some (nsFstatatHandler n.state n.mem n.request) ∨
      n.sys = .openat ∧
        nsHandler n.state n.mem n.request = some (nsOpenatHandler n.state n.mem n.request)) :
    n.SentFor ⟨some 0, 1⟩ := by
  have hread : readPathFromCage n.mem (n.request.args 1) (n.request.argcages 1) =
      fromUtf8 (n.path 1) := (n.named _ ha).readPath
  unfold nsFstatatHandler nsOpenatHandler at hd
  simp only [hread] at hd
  rcases n.translate_cases (j := 1) with ⟨_, clamped, args, htrans, hclamped⟩ | ⟨href, e, htrans⟩
  all_goals
    rw [show translateDirfd n.state (n.request.argcages 0) _ n.request.args = _ from htrans] at hd
  · rcases hd with ⟨hsys, hd⟩ | ⟨hsys, hd⟩
    · exact .inl (n.sent_clamped hsys hd rfl (n.fstatatClamps_iff ha hclamped))
    · exact .inl (n.sent_clamped hsys hd rfl (n.openatClamps_iff ha hclamped))
  · have hd := hd.elim And.right And.right
    exact .inr ⟨n.not_clamps_of_refused href, by rw [goesTo, hd]; rfl⟩

theorem sentFor_one (h : namesOf n.sys = [a]) : n.SentFor a := by
  have ha : a ∈ namesOf n.sys := h ▸ mem_singleton.mpr rfl
  rcases n with ⟨sys, s, mem, cage, args, path, dir, named, routed, habs⟩
  cases sys
  case «open» | xstat | lstat | access | unlink | mkdir | rmdir | truncate | chmod | chown | lchown |
      mknod | readlink | statfs | symlink =>
    cases h
    exact .inl (sent_text _ rfl ha rfl)
  case chdir => cases h; exact sentFor_chdir _ rfl ha rfl
  case openat => cases h; exact sentFor_translated _ ha (.inr ⟨rfl, rfl⟩)
  case newfstatat => cases h; exact sentFor_translated _ ha (.inl ⟨rfl, rfl⟩)
  case utimensat => cases h; exact sentFor_utimensat _ rfl ha rfl
  case symlinkat | unlinkat | readlinkat | statx | faccessat | fchmodat | fchownat =>
    cases h
    exact sentFor_at _ rfl ha rfl
  all_goals cases h

theorem sent_two (h : namesOf n.sys = [a, b]) :
    (n.sys ≠ .linkat ∧ n.Sent (n.Clamps a)) ∨
    (n.sys = .linkat ∧ ((¬n.Refused a ∧ ¬n.Refused b ∧ n.Sent (n.Clamps a ∨ n.Clamps b)) ∨
      ((n.Refused a ∨ n.Refused b) ∧ n.goesTo = none))) := by
  have ha : a ∈ namesOf n.sys := h ▸ mem_cons_self
  have hb : b ∈ namesOf n.sys := h ▸ mem_cons_of_mem _ (mem_singleton.mpr rfl)
  rcases n with ⟨sys, s, mem, cage, args, path, dir, named, routed, habs⟩
  cases sys
  case link | rename =>
    cases h
    exact .inl ⟨Sys.noConfusion, sent_text _ rfl ha rfl⟩
  case linkat => cases h; exact .inr ⟨rfl, sent_linkat _ rfl ha hb rfl⟩
  all_goals cases h

/-! ## Routing by name -/

theorem goesTo_clamped_iff (h : namesOf n.sys = [a]) : n.goesTo = some .clamped ↔ n.Clamps a := by
  rcases n.sentFor_one h with (⟨hc, hto⟩ | ⟨hc, hto⟩) | ⟨hc, hto⟩
  · exact ⟨fun _ => hc, fun _ => hto⟩
  · refine ⟨fun hcl => ?_, fun h => absurd h hc⟩
    cases hto.symm.trans hcl
  · refine ⟨fun hcl => ?_, fun h => absurd h hc⟩
    cases hto.symm.trans hcl

/-- Both files are on the side a call goes to. -/
def BothThere (a b : PathArg) : Prop :=
  (n.goesTo = some .clamped → n.Inside a ∧ n.Inside b) ∧
    (n.goesTo = some .kernel → ¬n.Inside a ∧ ¬n.Inside b)

theorem bothThere_iff_of_sent (h : n.Sent clamped) :
    n.BothThere a b ↔ (n.Inside a ↔ n.Inside b) ∧ (clamped ↔ n.Inside a) := by
  rcases h with ⟨hc, hto⟩ | ⟨hc, hto⟩
  · rw [BothThere, hto]
    simp only [true_implies, Option.some.injEq, reduceCtorEq, false_implies, and_true, hc, true_iff]
    constructor
    · exact fun h => ⟨⟨fun _ => h.2, fun _ => h.1⟩, h.1⟩
    · exact fun h => ⟨h.2, h.1.mp h.2⟩
  rw [BothThere, hto]
  simp only [true_implies, Option.some.injEq, reduceCtorEq, false_implies, true_and, hc,
    false_iff]
  constructor
  · exact fun h => ⟨⟨fun ha => absurd ha h.1, fun hb => absurd hb h.2⟩, h.1⟩
  · exact fun h => ⟨h.2, fun hb => h.2 (h.1.mpr hb)⟩

theorem either_clamps_iff :
    (n.Inside a ↔ n.Inside b) ∧ (n.Clamps a ∨ n.Clamps b ↔ n.Inside a) ↔
      (n.Inside a ∧ n.Inside b ∧ (n.Told a ∨ n.Told b)) ∨
      (¬n.Inside a ∧ ¬n.Inside b ∧ n.Told a ∧ n.Told b) := by
  rw [← n.clamps_iff_inside_iff a, ← n.clamps_iff_inside_iff b]
  by_cases ha : n.Inside a
  · by_cases hb : n.Inside b
    · simp only [ha, hb, iff_true, true_and, not_true_eq_false, false_and, or_false]
    · simp only [ha, hb, iff_false, not_true_eq_false, false_and, and_false, or_self]
  by_cases hb : n.Inside b
  · simp only [ha, hb, false_iff, not_true_eq_false, false_and, and_false, or_self]
  · simp only [ha, hb, iff_false, not_or, not_false_eq_true, true_and, false_and, false_or]

theorem bothThere_iff (h : namesOf n.sys = [a, b]) : n.BothThere a b ↔ n.ToldBoth a b := by
  rcases n.sent_two h with ⟨hsys, hsent⟩ | ⟨hsys, ⟨hrefa, hrefb, hsent⟩ | ⟨href, hto⟩⟩
  · rw [n.bothThere_iff_of_sent hsent, ToldBoth, if_neg hsys, n.clamps_iff_inside_iff]
  · rw [n.bothThere_iff_of_sent hsent, ToldBoth, if_pos hsys, n.either_clamps_iff]
    simp only [hrefa, hrefb, false_or]
  rw [ToldBoth, if_pos hsys]
  constructor
  · exact fun _ => href.elim .inl fun h => .inr (.inl h)
  · intro _
    rw [BothThere, hto]
    exact ⟨fun h => absurd h.symm (some_ne_none _),
      fun h => absurd h.symm (some_ne_none _)⟩

end Naming

/-- A call with one name goes to the clamped side exactly if its file is inside, and
    one with two names only to a side both files are on, under the condition that the
    names tell where the files are and under no other. -/
theorem routes_by_name_iff {T : Type} [FdTables T] (n : Naming T) :
    (∀ a, namesOf n.sys = [a] →
      ((n.goesTo = some .clamped ↔ n.Inside a) ↔ n.Told a)) ∧ (∀ a b, namesOf n.sys = [a, b] →
      (((n.goesTo = some .clamped → n.Inside a ∧ n.Inside b) ∧
        (n.goesTo = some .kernel → ¬n.Inside a ∧ ¬n.Inside b)) ↔ n.ToldBoth a b)) := by
  constructor
  · intro a h
    rw [n.goesTo_clamped_iff h]
    exact n.clamps_iff_inside_iff a
  · exact fun a b h => n.bothThere_iff h

/-! ## Concrete names -/

def IsPath (text : String) : Prop :=
  Str.bytes text.toList ≠ [] ∧ 0 ∉ Str.bytes text.toList ∧
    (Str.bytes text.toList).length < maxPathLen

instance (text : String) : Decidable (IsPath text) :=
  inferInstanceAs (Decidable (_ ∧ _ ∧ _))

/-- A call of the first cage under the prefix `/tmp`, with one path behind its first
    argument and another behind its second. Descriptors stand for the root. -/
def tmpNaming (sys : Sys) (first second : String) (hfirst : IsPath first)
    (hsecond : IsPath second) : Naming (MapTables 16) where
  sys := sys
  state := { loneWorld.state with routes := fun _ _ => some 3000 }
  mem := fun _ ptr => some (Str.bytes (if ptr = 1 then first.toList else second.toList) ++ [0])
  cage := 2
  args := fun i => if i = 0 then 1 else 2
  path := fun i => Str.bytes (if i = 0 then first.toList else second.toList)
  dir := fun _ => []
  named := by
    intro a _
    by_cases h : a.path = 0
    · simp only [h, if_true]
      exact ⟨by decide, hfirst.1, hfirst.2.1, hfirst.2.2, [], rfl⟩
    · simp only [h, if_false]
      exact ⟨by decide, hsecond.1, hsecond.2.1, hsecond.2.2, [], rfl⟩
  routed := rfl
  absolute := rfl

theorem routes_by_name_iff_tmp :
    (tmpNaming .xstat "/etc/../tmp//a" "/" (by decide) (by decide)).Told ⟨none, 0⟩ ∧
      (tmpNaming .rename "/tmp/a" "/tmp/b" (by decide) (by decide)).ToldBoth
        ⟨none, 0⟩ ⟨none, 1⟩ := by
  constructor
  · refine ((routes_by_name_iff _).1 _ rfl).mp ?_
    decide +kernel
  · refine ((routes_by_name_iff _).2 _ _ rfl).mp ?_
    decide +kernel

/-- The status of a file beside the prefix whose name begins like it. -/
def siblingStat : Naming (MapTables 16) :=
  tmpNaming .xstat "/tmpfoo" "/" (by decide) (by decide)

def moveOut : Naming (MapTables 16) :=
  tmpNaming .rename "/tmp/a" "/b" (by decide) (by decide)

/-- A file inside is removed by a name that starts at the root. -/
def removeFromRoot : Naming (MapTables 16) :=
  tmpNaming .unlinkat "/" "tmp/a" (by decide) (by decide)

/-- The file beside the prefix is looked for on the clamped side, the file that is
    moved out is moved there, and the one that is named from a directory outside is
    looked for by the kernel. -/
theorem routes_sibling :
    (siblingStat.goesTo = some .clamped ∧ ¬siblingStat.Inside ⟨none, 0⟩) ∧
    (moveOut.goesTo = some .clamped ∧ ¬moveOut.Inside ⟨none, 1⟩) ∧
    (removeFromRoot.goesTo = some .kernel ∧ removeFromRoot.Inside ⟨some 0, 1⟩) := by
  decide +kernel

end LindGrates.FsClamp
