import LindGrates.Core.Chroot.Handlers
import LindGrates.Theory.Utf8

/-!
# Virtual Paths

A normalised path is the rendering of the names its text leads to.

## Main definitions

* `Jailed`: A path with the jail directory in front of a normal one.

## Theorems

* `normalizePath_normalizePath`: A normalised path says the same in every directory.
* `jailPath_jailed`: With the jail in front it leads below that directory.
* `CagePtr.readPath_eq`: Reading a path always gives one.
-/

namespace LindGrates.Chroot

open Lexical List

/-! ## Normalisation -/

variable {path cwd : Str}

theorem isAbsolute_iff : path.isAbsolute = true ↔ path.head? = some '/' := by
  rw [Str.isAbsolute, decide_eq_true_eq]

theorem isAbsolute_render (names : List Str) : Str.isAbsolute (render names) = true :=
  isAbsolute_iff.mpr rfl

theorem normalizePath_eq (h : path ≠ []) (cwd : Str) :
    normalizePath path cwd = render (resolve (resolve [] cwd) path) := by
  unfold normalizePath
  rw [if_neg h]
  change '/' :: Str.join (follow [] (Str.split _)) = '/' :: Str.join _
  congr 2
  by_cases habs : path.isAbsolute = true
  · rw [if_pos habs, resolve, if_pos (isAbsolute_iff.mp habs)]
    rfl
  rw [if_neg habs, Str.split, follow_append_slash, follow_trimEnd]
  rw [resolve, if_neg fun hc => habs (isAbsolute_iff.mpr hc)]
  congr 1
  rw [resolve, ite_self]

theorem isName_resolve_nil (cwd : Str) : ∀ p ∈ resolve [] cwd, IsName p :=
  isName_resolve (fun _ hp => absurd hp not_mem_nil) cwd

theorem isName_virtual (path cwd : Str) : ∀ p ∈ resolve (resolve [] cwd) path, IsName p :=
  isName_resolve (isName_resolve_nil cwd) path

theorem render_ne_nil (names : List Str) : render names ≠ [] :=
  cons_ne_nil _ _

theorem normalizePath_render {names : List Str} (h : ∀ p ∈ names, IsName p) (cwd : Str) :
    normalizePath (render names) cwd = render names := by
  rw [normalizePath_eq (render_ne_nil names), resolve_render h]

theorem normalizePath_normalizePath (path cwd cwd' : Str) :
    normalizePath (normalizePath path cwd) cwd' = normalizePath path cwd := by
  by_cases h : path = []
  · rw [h]
    rfl
  · rw [normalizePath_eq h, normalizePath_render (isName_virtual path cwd)]

theorem normalizePath_ne_nil (h : path ≠ []) (cwd : Str) : normalizePath path cwd ≠ [] := by
  rw [normalizePath_eq h]
  exact render_ne_nil _

/-- A path with the jail directory in front of a normal one. -/
def Jailed (chrootDir path : Str) : Prop :=
  ∃ names, (∀ p ∈ names, IsName p) ∧ path = trimEnd chrootDir ++ render names

theorem jailPath_eq (h : path ≠ []) (chrootDir cwd : Str) :
    jailPath chrootDir cwd path =
      trimEnd chrootDir ++ render (resolve (resolve [] cwd) path) := by
  rw [jailPath, if_neg h, normalizePath_eq h]

theorem jailPath_jailed (h : path ≠ []) (chrootDir cwd : Str) :
    Jailed chrootDir (jailPath chrootDir cwd path) :=
  ⟨_, isName_virtual path cwd, jailPath_eq h chrootDir cwd⟩

theorem jailPath_normalizePath (chrootDir path cwd cwd' : Str) :
    jailPath chrootDir cwd' (normalizePath path cwd) = jailPath chrootDir cwd path := by
  by_cases h : path = []
  · rw [h]
    rfl
  · rw [jailPath, if_neg (normalizePath_ne_nil h cwd), normalizePath_normalizePath, jailPath,
      if_neg h]

/-! ## Texts without NUL -/

theorem mem_normalizePath {c : Char} (h : c ∈ normalizePath path cwd) :
    c = '/' ∨ c ∈ path ∨ c ∈ cwd := by
  unfold normalizePath at h
  split at h
  · cases h
  rcases mem_cons.mp h with h | h
  · exact .inl h
  rcases mem_intercalate h with h | ⟨part, hpart, hc⟩
  · exact .inl h
  have hsplit := (mem_of_mem_follow [] hpart).resolve_left not_mem_nil
  have hmem := (mem_splitOn part hsplit c hc).1
  split at hmem
  · exact .inr (.inl hmem)
  rcases mem_append.mp hmem with hmem | hmem
  · exact .inr (.inr ((List.rdropWhile_prefix _ _).subset hmem))
  rcases mem_cons.mp hmem with hmem | hmem
  · exact .inl hmem
  · exact .inr (.inl hmem)

theorem nul_notMem_normalizePath (hpath : '\x00' ∉ path) (hcwd : '\x00' ∉ cwd) :
    '\x00' ∉ normalizePath path cwd := by
  intro h
  rcases mem_normalizePath h with h | h | h
  · exact absurd h (by decide)
  · exact hpath h
  · exact hcwd h

theorem nul_notMem_jailPath {chrootDir : Str} (hdir : '\x00' ∉ chrootDir) (hpath : '\x00' ∉ path)
    (hcwd : '\x00' ∉ cwd) : '\x00' ∉ jailPath chrootDir cwd path := by
  unfold jailPath
  split
  · exact not_mem_nil
  intro h
  rcases mem_append.mp h with h | h
  · exact hdir ((List.rdropWhile_prefix _ _).subset h)
  · exact nul_notMem_normalizePath hpath hcwd h

theorem cString_eq {text : Str} (h : '\x00' ∉ text) : cString text = some text :=
  if_neg h

theorem cString_eq_some {text text' : Str} (h : cString text = some text') : text' = text := by
  unfold cString at h
  split at h
  · cases h
  · exact (Option.some.inj h).symm

theorem nul_notMem_untilNul (bytes : List UInt8) : '\x00' ∉ untilNul bytes := by
  intro h
  have hzero : (0 : UInt8) ∉ bytes.takeWhile (· ≠ 0) := fun hmem =>
    absurd (mem_takeWhile_imp hmem) (by decide)
  exact zero_notMem_decodeLossy _ _ hzero (mem_flatMap.mpr ⟨'\x00', h, by decide⟩)

theorem untilNul_bytes {text : Str} (h : '\x00' ∉ text) (room : List UInt8) :
    untilNul (text.bytes ++ 0 :: room) = text := by
  have htake : (text.bytes ++ 0 :: room).takeWhile (· ≠ 0) = text.bytes := by
    rw [takeWhile_append_of_pos]
    · rw [takeWhile_cons_of_neg (by decide), append_nil]
    · intro b hb
      exact decide_eq_true fun hc => zero_notMem_bytes h (hc ▸ hb)
  rw [untilNul, htake, fromUtf8Lossy_bytes]

/-- The path a pointer is read as, which is empty if the copy fails. -/
def CagePtr.text (ptr : CagePtr) : Str :=
  untilNul ((ptr.mem.getD []).take 4096)

theorem CagePtr.readPath_eq (ptr : CagePtr) : ptr.readPath = some ptr.text := by
  rw [readPath, copyInto_eq, Option.map_some, text]

theorem CagePtr.nul_notMem_text (ptr : CagePtr) : '\x00' ∉ ptr.text :=
  nul_notMem_untilNul _

end LindGrates.Chroot
