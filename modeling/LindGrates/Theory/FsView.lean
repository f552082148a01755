import LindGrates.Core.FsView
import LindGrates.Theory.Chroot.Paths
import LindGrates.Theory.PathBytes

/-!
# What a View Isolates

The path forwarded for a cage begins with the cage's directory as text. What it
leads to is decided below the grate, where `..` is followed, so the text says
nothing yet: the parts behind the directory can climb out of it. They end in it
exactly when they do not, or when the last time they pass the root the name of
the directory comes next (`Keeps`). Two calls whose paths do so for different
cages never name one file, since different numbers give different directories.
The path of an `exec` is not rewritten, and begins wherever it begins.

The view is a file system of its own only for paths that start at its root. A
relative path is put behind the directory of the cage whatever the cage's working
directory is; and a path is read whole only if 4096 bytes are mapped behind its
address, and is forwarded in vain if the longer text is too long for the kernel.

## Main definitions

* `pathAt`: The path that a kernel reads at an address.
* `Inside`, `Keeps`: Parts that lead to the directory of a cage, by where they end and by how.
* `rooted`: What a path names in a file system whose root is the directory of a cage.
* `Kept`: A path that means the same once it is rewritten.

## Theorems

* `isolated_iff`: Two cages name no file in common exactly when all their paths are kept inside.
* `view_consistent_iff`: A call names what it would in a private file system exactly when its
  paths are kept.
-/

namespace LindGrates.FsView

open Chroot Lexical List

variable {mem mem' : Memory} {call call' : Call} {h h' : Handler} {fs gs : List Forward}

/-- The path at the start of some memory, as bytes. There is none if it is empty,
    or if no NUL ends it within the mapped bytes and within `maxPath`. -/
def pathAt (bytes : List UInt8) : Option Str :=
  let path := bytes.takeWhile (· ≠ 0)
  if path ≠ [] ∧ path.length < min maxPath bytes.length then some (bytePath path) else none

/-- The paths that some calls give to the kernel. -/
def forwarded (mem : Memory) (calls : List Forward) : List Str :=
  calls.flatMap fun f =>
    f.texts.map (fun text => byteName text.2) ++ f.pointers.filterMap fun p => pathAt (mem p.1 p.2)

/-- The parts that lead to a path from the root, for a working directory. -/
def route (cwd : List Str) (path : Str) : List Str :=
  (if path.head? = some '/' then [] else cwd) ++ path.splitOn '/'

/-- The name of a cage's directory, as bytes. -/
def cageDir (cage : Nat) : Str :=
  byteName (cageName cage)

/-- Parts that lead to the directory of a cage or to something below it. -/
def Inside (cage : Nat) (parts : List Str) : Prop :=
  [cageDir cage] <+: follow [] parts

instance (cage : Nat) (parts : List Str) : Decidable (Inside cage parts) :=
  inferInstanceAs (Decidable (_ <+: _))

/-- After the last time the parts pass the root, the name of the cage's directory
    comes next and is not left again. -/
def Keeps (cage : Nat) (parts : List Str) : Prop :=
  ∃ front back, parts = front ++ cageDir cage :: back ∧ follow [] front = [] ∧ ¬ Climbs [] back

/-- The text that `read_path` makes of some memory. -/
def readText (bytes : List UInt8) : Str :=
  if maxPath ≤ bytes.length then untilNul (bytes.take maxPath) else []

/-- The parts of the paths of a call: behind the directory of its cage if they
    are rewritten, and otherwise from the working directory that the kernel has
    for the cage. -/
def Handler.routes (cwd : List Str) (mem : Memory) (call : Call) (h : Handler) :
    List (List Str) :=
  (call.memoryAt mem h.indices).map (fun bytes =>
      cageDir (h.cage call) :: (byteName (readText bytes)).splitOn '/') ++
    ((call.memoryAt mem h.kept).filterMap pathAt).map (route cwd)

/-! ## The directories of the cages -/

theorem isName_cageName (cage : Nat) : IsName (cageName cage) := by
  refine ⟨fun hc => ?_, fun hc => ?_, fun hc => ?_, fun hslash => ?_⟩
  · cases hc
  · exact absurd (congrArg List.head? hc) (by change some 'c' ≠ some '.'; decide)
  · exact absurd (congrArg List.head? hc) (by change some 'c' ≠ some '.'; decide)
  · rcases mem_append.mp hslash with hslash | hslash
    · exact absurd hslash (by decide)
    · exact absurd (Nat.isDigit_of_mem_toDigits (by decide) (by decide) hslash) (by decide)

theorem isName_cageDir (cage : Nat) : IsName (cageDir cage) where
  ne_nil := byteName_injective.ne (isName_cageName cage).ne_nil
  ne_dot := fun hc => (isName_cageName cage).ne_dot (byteName_injective hc)
  ne_dotdot := fun hc => (isName_cageName cage).ne_dotdot (byteName_injective hc)
  no_slash := fun hslash => (isName_cageName cage).no_slash (slash_mem_byteName hslash)

theorem cageDir_injective : Function.Injective cageDir := by
  intro c d h
  have hdigits := append_cancel_left (byteName_injective h)
  rw [← Nat.ofDigitChars_ten_toDigits (n := c), hdigits, Nat.ofDigitChars_ten_toDigits]

theorem follow_cageName (cage : Nat) :
    follow [] ((cageName cage).splitOn '/') = [cageName cage] := by
  have hnames : ∀ p ∈ [cageName cage], IsName p :=
    fun p hp => mem_singleton.mp hp ▸ isName_cageName cage
  simpa using follow_join hnames []

theorem inside_iff_keeps (cage : Nat) (parts : List Str) : Inside cage parts ↔ Keeps cage parts :=
  prefix_follow_iff (isName_cageDir cage)

theorem cage_unique {c d : Nat} {parts parts' : List Str} (hc : Inside c parts)
    (hd : Inside d parts') (h : follow [] parts = follow [] parts') : c = d := by
  rw [Inside, h] at hc
  rcases hc with ⟨rest, hrest⟩
  rcases hd with ⟨rest', hrest'⟩
  exact cageDir_injective (List.cons.inj (hrest.trans hrest'.symm)).1

/-! ## Rewritten paths -/

theorem resolve_cagePath (path : Str) (cage : Nat) :
    resolve [] (cagePath path cage) = follow [] (cageName cage :: path.splitOn '/') := by
  have hbehind : ∀ rest : Str, resolve [] ('/' :: (cageName cage ++ '/' :: rest)) =
      follow [cageName cage] (rest.splitOn '/') := by
    intro rest
    rw [resolve, ite_self, follow_slash_cons, follow_append_slash, follow_cageName]
  rw [follow_cons, push_name (isName_cageName cage), nil_append]
  unfold cagePath
  split
  next habs =>
    rcases path with _ | ⟨c, path⟩
    · cases habs
    have hc : c = '/' := by simpa [Str.isAbsolute] using habs
    rw [hc, hbehind, follow_slash_cons]
  · exact hbehind path

/-- The rewritten path leads where the parts of the path lead behind the
    directory of the cage. -/
theorem resolve_byteName_cagePath (path : Str) (cage : Nat) :
    resolve [] (byteName (cagePath path cage)) =
      follow [] (cageDir cage :: (byteName path).splitOn '/') := by
  have hbytes := resolve_byteName [] (cagePath path cage)
  rw [map_nil, resolve_cagePath, ← follow_byteName, map_cons, ← splitOn_byteName] at hbytes
  exact hbytes

theorem follow_route {cwd : List Str} {path : Str} (h : path.head? = some '/') :
    follow [] (route cwd path) = resolve [] path := by
  rw [route, if_pos h, nil_append, resolve, ite_self]

theorem inside_cagePath_iff (cwd : List Str) (path : Str) (cage : Nat) :
    Inside cage (route cwd (byteName (cagePath path cage))) ↔
      Keeps cage (cageDir cage :: (byteName path).splitOn '/') := by
  rw [← inside_iff_keeps, Inside, Inside, follow_route ((head_byteName _).mpr rfl),
    resolve_byteName_cagePath]

theorem inside_root (cwd : List Str) (cage : Nat) :
    Inside cage (route cwd (byteName ('/' :: cageName cage))) := by
  have hroot : resolve [] ('/' :: cageName cage) = [cageName cage] := by
    rw [resolve, ite_self, follow_slash_cons, follow_cageName]
  have hbytes := resolve_byteName [] ('/' :: cageName cage)
  rw [map_nil, hroot] at hbytes
  rw [Inside, follow_route ((head_byteName _).mpr rfl), hbytes]
  exact prefix_refl _

/-! ## What a handler forwards -/

theorem readPath_eq (mem : Memory) (ptr cage : Nat) :
    readPath mem ptr cage = some (readText (mem cage ptr)) := by
  rw [readPath, copyInto_eq, Option.map_some, readText]
  split
  · rfl
  · rfl

/-- A handler that rewrites forwards the directory of the cage and the texts it
    read, rewritten for the cage. -/
theorem texts_of_handle (hh : h.handle mem call = .ok fs) :
    texts fs = if h.indices = [] then [] else ('/' :: cageName (h.cage call)) ::
      (call.memoryAt mem h.indices).map fun bytes => cagePath (readText bytes) (h.cage call) := by
  cases h with
  | path =>
    simp only [Handler.handle, pathRewriteHandler, bind_eq_ok, okOr_eq_ok, readPath_eq,
      Option.some.injEq, exists_eq_left'] at hh
    rcases hh with ⟨c, hc, hfs⟩
    cases hfs
    rw [cString_eq_some hc]
    rfl
  | twoPath =>
    simp only [Handler.handle, twoPathRewriteHandler, bind_eq_ok, okOr_eq_ok, readPath_eq,
      Option.some.injEq, exists_eq_left'] at hh
    rcases hh with ⟨c, hc, d, hd, hfs⟩
    cases hfs
    rw [cString_eq_some hc, cString_eq_some hd]
    rfl
  | plain =>
    cases hh
    rfl

theorem forwarded_of_handle (hh : h.handle mem call = .ok fs) :
    forwarded mem fs =
      (texts fs).map byteName ++ (call.memoryAt mem h.kept).filterMap pathAt := by
  cases h with
  | path =>
    simp only [Handler.handle, pathRewriteHandler, bind_eq_ok] at hh
    rcases hh with ⟨_, _, _, _, hfs⟩
    cases hfs
    rfl
  | twoPath =>
    simp only [Handler.handle, twoPathRewriteHandler, bind_eq_ok] at hh
    rcases hh with ⟨_, _, _, _, _, _, _, _, hfs⟩
    cases hfs
    rfl
  | plain =>
    cases hh
    simp [forwarded, texts, Call.memoryAt, Handler.kept, filterMap_map]

theorem forwarded_inside_iff (hh : h.handle mem call = .ok fs) (cwd : List Str) :
    (∀ p ∈ forwarded mem fs, Inside (h.cage call) (route cwd p)) ↔
      ∀ parts ∈ h.routes cwd mem call, Keeps (h.cage call) parts := by
  have hkept : ∀ p, Inside (h.cage call) (route cwd p) ↔ Keeps (h.cage call) (route cwd p) :=
    fun p => inside_iff_keeps _ _
  rw [forwarded_of_handle hh, texts_of_handle hh, Handler.routes, forall_mem_append,
    forall_mem_append, forall_mem_map (l := filterMap ..)]
  refine and_congr ?_ (forall₂_congr fun p _ => hkept p)
  split
  next hnil =>
    rw [hnil]
    exact iff_of_true (forall_mem_nil _) (forall_mem_nil _)
  · simp only [map_cons, forall_mem_cons, inside_root, true_and, forall_mem_map,
      inside_cagePath_iff]

/-- The calls two cages have forwarded stay in their own directories, and so
    name no file in common, exactly when all the paths do. -/
theorem isolated_iff (hh : h.handle mem call = .ok fs) (hh' : h'.handle mem' call' = .ok gs)
    (hne : h.cage call ≠ h'.cage call') (cwd cwd' : List Str) :
    ((∀ p ∈ forwarded mem fs, Inside (h.cage call) (route cwd p)) ∧
      (∀ q ∈ forwarded mem' gs, Inside (h'.cage call') (route cwd' q)) ∧
      ∀ p ∈ forwarded mem fs, ∀ q ∈ forwarded mem' gs,
        follow [] (route cwd p) ≠ follow [] (route cwd' q)) ↔
    (∀ parts ∈ h.routes cwd mem call, Keeps (h.cage call) parts) ∧
      ∀ parts ∈ h'.routes cwd' mem' call', Keeps (h'.cage call') parts := by
  rw [← forwarded_inside_iff hh, ← forwarded_inside_iff hh']
  constructor
  · exact fun hin => ⟨hin.1, hin.2.1⟩
  · exact fun hin => ⟨hin.1, hin.2, fun p hp q hq heq =>
      hne (cage_unique (hin.1 p hp) (hin.2 q hq) heq)⟩

/-- Memory with a path at every address, and zeros behind it. -/
@[irreducible] def memoryOf (path : String) : Memory :=
  fun _ _ => Str.bytes path.toList ++ replicate maxPath 0

/-- A call whose arguments all come from one cage. -/
def callOf (cage : Nat) : Call :=
  { args := fun _ => 0, cages := fun _ => cage }

/-- Cage 1 renames `./b` while cage 11 executes `/cage-11/b`. -/
theorem isolated_iff_rename : ∃ fs gs,
    (Handler.twoPath .rename 0 1).handle (memoryOf "./b") (callOf 1) = .ok fs ∧
    (Handler.plain .exec [0]).handle (memoryOf "/cage-11/b") (callOf 11) = .ok gs ∧
    ∀ p ∈ forwarded (memoryOf "./b") fs, ∀ q ∈ forwarded (memoryOf "/cage-11/b") gs,
      follow [] (route [] p) ≠ follow [] (route [] q) := by
  have hfs : (Handler.twoPath .rename 0 1).handle (memoryOf "./b") (callOf 1) =
      .ok [ensureCageRoot 1, ⟨.rename, 1,
        [(0, "/cage-1/./b".toList), (1, "/cage-1/./b".toList)], []⟩] := by
    decide +kernel
  have hgs : (Handler.plain .exec [0]).handle (memoryOf "/cage-11/b") (callOf 11) =
      .ok [⟨.exec, 11, [], [(11, 0)]⟩] := rfl
  refine ⟨_, _, hfs, hgs, ((isolated_iff hfs hgs (by decide) [] []).mpr ⟨?_, ?_⟩).2.2⟩
  · exact fun parts hparts => (inside_iff_keeps ..).mp ((by decide +kernel :
      ∀ parts ∈ (Handler.twoPath .rename 0 1).routes [] (memoryOf "./b") (callOf 1),
        Inside 1 parts) parts hparts)
  · exact fun parts hparts => (inside_iff_keeps ..).mp ((by decide +kernel :
      ∀ parts ∈ (Handler.plain .exec [0]).routes [] (memoryOf "/cage-11/b") (callOf 11),
        Inside 11 parts) parts hparts)

/-- Cage 3 opens `../cage-4/k` and gets the file that cage 4 calls `/k`. -/
theorem view_escapes : ∃ fs gs,
    (Handler.path .open 0).handle (memoryOf "../cage-4/k") (callOf 3) = .ok fs ∧
    (Handler.path .open 0).handle (memoryOf "/k") (callOf 4) = .ok gs ∧
    ∃ p ∈ forwarded (memoryOf "../cage-4/k") fs, ¬ Inside 3 (route [] p) ∧
      ∃ q ∈ forwarded (memoryOf "/k") gs, follow [] (route [] p) = follow [] (route [] q) :=
  ⟨[ensureCageRoot 3, ⟨.open, 3, [(0, "/cage-3/../cage-4/k".toList)], []⟩],
    [ensureCageRoot 4, ⟨.open, 4, [(0, "/cage-4/k".toList)], []⟩],
    by decide +kernel, by decide +kernel, "/cage-3/../cage-4/k".toList, by decide +kernel,
    by decide +kernel, "/cage-4/k".toList, by decide +kernel, by decide +kernel⟩

/-! ## The view as a file system -/

/-- A call that has been made, and whether it succeeded. -/
structure Served where
  handler : Handler
  mem : Memory
  call : Call
  done : Bool

/-- The working directory of a cage after a call, as names below its root. -/
def Served.cwd (cwd : List Str) (x : Served) : List Str :=
  if x.handler = .path .chdir 0 ∧ x.done then
    ((x.call.memoryAt x.mem [0]).filterMap pathAt).foldl resolve cwd
  else cwd

/-- Where a relative path starts: for `unlinkat` in the directory of the descriptor, if it is
    given one. -/
def Handler.base (past : List Served) (dirfd : Option (List Str)) (h : Handler) : List Str :=
  let cwd := past.foldl Served.cwd []
  if h = .path .unlinkat 1 then dirfd.getD cwd else cwd

/-- What the path at some memory names in a file system whose root is the
    directory of a cage. -/
def rooted (cage : Nat) (dir : List Str) (bytes : List UInt8) : Option (List Str) :=
  (pathAt bytes).map fun path => cageDir cage :: resolve dir path

/-- What an absolute path in the grate's memory names; one that does not fit into
    `maxPath` bytes with its NUL names nothing. -/
def kernelName (text : Str) : Option (List Str) :=
  if text.bytes.length < maxPath then some (resolve [] (byteName text)) else none

/-- A path that the rewriting takes to where it leads from a directory. It fits
    with the directory of the cage in front; if it was read whole, it is text and
    absolute or starts from the root, and if it was read as empty, it leads to the
    root. A path that names nothing is forwarded as one that is too long. -/
def Kept (cage : Nat) (dir : List Str) (bytes : List UInt8) : Prop :=
  match pathAt bytes with
  | none => maxPath ≤ (cagePath (readText bytes) cage).bytes.length
  | some path =>
    (cagePath (readText bytes) cage).bytes.length < maxPath ∧
      if maxPath ≤ bytes.length then
        (∃ text, path = byteName text) ∧ (path.head? = some '/' ∨ dir = [])
      else resolve dir path = []

variable {bytes : List UInt8} {dir : List Str} {path : Str}

theorem pathAt_eq_some (h : pathAt bytes = some path) :
    path = bytePath (bytes.takeWhile (· ≠ 0)) ∧ (bytes.takeWhile (· ≠ 0)).length < maxPath := by
  dsimp only [pathAt] at h
  split at h
  next hpath => exact ⟨(Option.some.inj h).symm, hpath.2.trans_le (Nat.min_le_left ..)⟩
  · cases h

/-- A path that is text and read whole is read as that text. -/
theorem readText_eq {text : Str} (h : pathAt bytes = some path) (htext : path = byteName text)
    (hlen : maxPath ≤ bytes.length) : readText bytes = text := by
  rcases pathAt_eq_some h with ⟨hpath, hlt⟩
  have htake : (bytes.take maxPath).takeWhile (· ≠ 0) = bytes.takeWhile (· ≠ 0) := by
    rw [← take_takeWhile, take_of_length_le hlt.le]
  have hbytes : bytes.takeWhile (· ≠ 0) = text.bytes := bytePath_injective (hpath.symm.trans htext)
  rw [readText, if_pos hlen, untilNul, htake, hbytes, fromUtf8Lossy_bytes]

theorem exists_byteName (h : ∀ part ∈ path.splitOn '/', ∃ text, part = byteName text) :
    ∃ text, path = byteName text := by
  have hparts : ∃ texts : List Str, path.splitOn '/' = texts.map byteName := by
    generalize path.splitOn '/' = parts at h
    induction parts with
    | nil => exact ⟨[], rfl⟩
    | cons part parts ih =>
      rcases h part mem_cons_self with ⟨text, rfl⟩
      rcases ih fun p hp => h p (mem_cons_of_mem _ hp) with ⟨texts, rfl⟩
      exact ⟨text :: texts, rfl⟩
  rcases hparts with ⟨texts, htexts⟩
  refine ⟨['/'].intercalate texts, ?_⟩
  rw [byteName_join, ← htexts, intercalate_splitOn]

theorem resolve_cagePath_of_notMem (cage : Nat) {text : Str}
    (hdots : ['.', '.'] ∉ (byteName text).splitOn '/') :
    resolve [] (byteName (cagePath text cage)) =
      cageDir cage :: follow [] ((byteName text).splitOn '/') := by
  rw [resolve_byteName_cagePath, follow_cons, push_name (isName_cageDir cage), nil_append,
    follow_of_notMem hdots, follow_of_notMem hdots]
  rfl

/-- The rewritten path leads to what the path names from a directory if it is
    text and does not start from the directory. -/
theorem resolve_rewritten_iff (cage : Nat) (h : pathAt bytes = some path)
    (hdots : ['.', '.'] ∉ path.splitOn '/') (hlen : maxPath ≤ bytes.length) :
    resolve [] (byteName (cagePath (readText bytes) cage)) = cageDir cage :: resolve dir path ↔
      (∃ text, path = byteName text) ∧ (path.head? = some '/' ∨ dir = []) := by
  have hdir := resolve_of_notMem hdots dir
  constructor
  · intro hall
    -- the parts that are not skipped are names of the forwarded text, and the others are text
    have htext : ∃ text, path = byteName text := by
      refine exists_byteName fun part hpart => ?_
      by_cases hskip : part = [] ∨ part = ['.']
      · exact hskip.elim (fun hp => ⟨[], hp⟩) fun hp => ⟨['.'], hp⟩
      have hmem : part ∈ resolve dir path := by
        rw [hdir, follow_of_notMem hdots]
        refine mem_append_right _ (mem_append_right _ (mem_filter.mpr ⟨hpart, ?_⟩))
        exact decide_eq_true (not_or.mp hskip)
      have hbytes := resolve_byteName [] (cagePath (readText bytes) cage)
      rw [map_nil, hall] at hbytes
      rcases mem_map.mp (hbytes ▸ mem_cons_of_mem _ hmem) with ⟨text, _, htext⟩
      exact ⟨text, htext.symm⟩
    refine ⟨htext, ?_⟩
    rcases htext with ⟨text, htext⟩
    rw [readText_eq h htext hlen, resolve_cagePath_of_notMem cage (htext ▸ hdots), ← htext,
      hdir] at hall
    have hnil := self_eq_append_left.mp (cons.inj hall).2
    by_cases hslash : path.head? = some '/'
    · exact .inl hslash
    · exact .inr (by rwa [if_neg hslash] at hnil)
  · rintro ⟨⟨text, htext⟩, hstart⟩
    rw [readText_eq h htext hlen, resolve_cagePath_of_notMem cage (htext ▸ hdots), ← htext, hdir]
    rcases hstart with hstart | rfl
    · rw [if_pos hstart, nil_append]
    · rw [ite_self, nil_append]

theorem kernelName_eq_some {text : Str} {file : List Str} :
    kernelName text = some file ↔
      text.bytes.length < maxPath ∧ resolve [] (byteName text) = file := by
  unfold kernelName
  split
  next hlt => rw [Option.some.injEq, and_iff_right hlt]
  next hle => exact iff_of_false (Option.some_ne_none file ∘ Eq.symm) fun hc => hle hc.1

/-- The rewritten path names what the path names in the file system of the cage
    exactly when it is kept. -/
theorem kernelName_eq_rooted_iff (cage : Nat)
    (hdots : ∀ path, pathAt bytes = some path → ['.', '.'] ∉ path.splitOn '/') :
    kernelName (cagePath (readText bytes) cage) = rooted cage dir bytes ↔ Kept cage dir bytes := by
  unfold rooted Kept
  rcases hpath : pathAt bytes with _ | path
  · simp only [Option.map_none, kernelName, ite_eq_right_iff, reduceCtorEq, imp_false, Nat.not_lt]
  rw [Option.map_some, kernelName_eq_some]
  refine and_congr_right fun _ => ?_
  split
  next hlen => exact resolve_rewritten_iff cage hpath (hdots path hpath) hlen
  next hlen =>
    have hroot : resolve [] (byteName (cagePath [] cage)) = [cageDir cage] :=
      resolve_cagePath_of_notMem cage (by decide)
    rw [readText, if_neg hlen, hroot, cons.injEq, and_iff_right rfl, eq_comm]

/-- After any calls, a call names what it would in the file system of its cage
    exactly when its paths are kept. -/
theorem view_consistent_iff (hh : h.handle mem call = .ok fs) (past : List Served)
    (dirfd : Option (List Str))
    (hdots : ∀ bytes ∈ call.memoryAt mem h.indices, ∀ path, pathAt bytes = some path →
      ['.', '.'] ∉ path.splitOn '/') :
    (texts fs).tail.map kernelName =
        (call.memoryAt mem h.indices).map (rooted (h.cage call) (h.base past dirfd)) ↔
      ∀ bytes ∈ call.memoryAt mem h.indices, Kept (h.cage call) (h.base past dirfd) bytes := by
  have htail : (texts fs).tail = (call.memoryAt mem h.indices).map fun bytes =>
      cagePath (readText bytes) (h.cage call) := by
    rw [texts_of_handle hh]
    split
    next hnil =>
      rw [hnil]
      rfl
    · rfl
  rw [htail, map_map, map_inj_left]
  exact forall₂_congr fun bytes hbytes => kernelName_eq_rooted_iff _ (hdots bytes hbytes)

/-- Cage 3 opens `/b` after it has gone to `/d`. -/
theorem view_consistent_iff_absolute :
    (texts [ensureCageRoot 3, ⟨.open, 3, [(0, "/cage-3/b".toList)], []⟩]).tail.map kernelName =
      [rooted 3 [['d']] (memoryOf "/b" 3 0)] := by
  have hopen : (Handler.path .open 0).handle (memoryOf "/b") (callOf 3) =
      .ok [ensureCageRoot 3, ⟨.open, 3, [(0, "/cage-3/b".toList)], []⟩] := by
    decide +kernel
  have hpath : pathAt (memoryOf "/b" 3 0) = some "/b".toList := by decide +kernel
  have hbase : (Handler.path .open 0).base
      [⟨.path .chdir 0, memoryOf "/d", callOf 3, true⟩] none = [['d']] := by
    decide +kernel
  have hkept : Kept 3 [['d']] (memoryOf "/b" 3 0) := by
    rw [Kept, hpath]
    exact ⟨by decide +kernel, (if_pos (by decide +kernel)).mpr
      ⟨⟨['/', 'b'], by decide⟩, .inl (by decide)⟩⟩
  have hmem : ∀ bytes ∈ (callOf 3).memoryAt (memoryOf "/b") [0], bytes = memoryOf "/b" 3 0 :=
    fun bytes hbytes => mem_singleton.mp hbytes
  rw [← hbase] at hkept ⊢
  refine (view_consistent_iff hopen _ none fun bytes hbytes path h => ?_).mpr
    fun bytes hbytes => hmem bytes hbytes ▸ hkept
  rw [hmem bytes hbytes, hpath] at h
  cases h
  decide

/-- Cage 3 goes to `/d` and opens `x`, and gets `/x`. -/
theorem view_forgets_directory : ∃ fs,
    (Handler.path .open 0).handle (memoryOf "x") (callOf 3) = .ok fs ∧
    (texts fs).tail.map kernelName = [rooted 3 [] (memoryOf "x" 3 0)] ∧
    (Handler.path .open 0).base [⟨.path .chdir 0, memoryOf "/d", callOf 3, true⟩] none =
      [['d']] ∧
    rooted 3 [] (memoryOf "x" 3 0) ≠ rooted 3 [['d']] (memoryOf "x" 3 0) :=
  ⟨[ensureCageRoot 3, ⟨.open, 3, [(0, "/cage-3/x".toList)], []⟩], by decide +kernel,
    by decide +kernel, by decide +kernel, by decide +kernel⟩

end LindGrates.FsView
