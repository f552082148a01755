import LindGrates.Base.Lexical
import LindGrates.Theory.Imfs.Range

/-!
# Normalised Paths

Splitting a normalised path gives its components back, so everything about resolution
can be said about the list of them.

## Main definitions

* `CleanName`: A component that is not empty and no dots.
* `NormalPath`: A path that normalisation can leave behind.

## Theorems

* `clean_components_normalize`: Normalisation leaves clean names.
* `components_restart`: The components a symbolic link restarts the walk on.
-/

namespace LindGrates.Imfs

open FdTables ImfsState List

variable {path : Str} {call : Call}

structure CleanName (name : Str) : Prop where
  ne_nil : name ≠ []
  notDots : World.isDots name = false
  no_slash : '/' ∉ name

variable {name : Str} {parts : List Str}

theorem isDots_iff : World.isDots name = true ↔ name = ['.'] ∨ name = ['.', '.'] := by
  simp only [World.isDots, decide_eq_true_eq]

theorem CleanName.ne_dot (h : CleanName name) : name ≠ ['.'] := by
  intro hc
  have := h.notDots
  rw [isDots_iff.mpr (.inl hc)] at this
  cases this

theorem CleanName.ne_dotdot (h : CleanName name) : name ≠ ['.', '.'] := by
  intro hc
  have := h.notDots
  rw [isDots_iff.mpr (.inr hc)] at this
  cases this

theorem CleanName.isName (h : CleanName name) : Lexical.IsName name :=
  ⟨h.ne_nil, h.ne_dot, h.ne_dotdot, h.no_slash⟩

theorem cleanName_of_isName (h : Lexical.IsName name) : CleanName name := by
  refine ⟨h.ne_nil, ?_, h.no_slash⟩
  rw [Bool.eq_false_iff]
  exact fun hc => (isDots_iff.mp hc).elim h.ne_dot h.ne_dotdot

theorem foldl_pushPart_clean (h : ∀ p ∈ parts, CleanName p) (acc : List Str) :
    parts.foldl pushPart acc = acc ++ parts :=
  Lexical.follow_names (fun p hp => (h p hp).isName) acc

theorem clean_normalizeParts (base path : Str) : ∀ p ∈ normalizeParts base path, CleanName p := by
  intro p hp
  refine cleanName_of_isName (Lexical.isName_follow (fun part hpart => ?_) [] nofun p hp)
  rcases mem_append.mp hpart with hpart | hpart
  · exact Lexical.no_slash_of_mem_splitOn base part hpart
  · exact Lexical.no_slash_of_mem_splitOn path part hpart

theorem renderPath_eq (parts : List Str) : renderPath parts = '/' :: Str.join parts := by
  unfold renderPath
  split
  next h =>
    rw [h]
    rfl
  · rfl

section

variable (h : ∀ p ∈ parts, CleanName p)

include h

theorem split_join (hne : parts ≠ []) : (Str.join parts).split = parts :=
  splitOn_intercalate '/' (fun p hp => (h p hp).no_slash) hne

theorem split_renderPath : (renderPath parts).split = [] :: if parts = [] then [[]] else parts := by
  rw [renderPath_eq, Str.split, Lexical.splitOn_slash_cons]
  congr 1
  split
  next hnil =>
    rw [hnil]
    rfl
  next hne => exact split_join h hne

theorem foldl_split_renderPath : (renderPath parts).split.foldl pushPart [] = parts := by
  rw [renderPath_eq]
  exact Lexical.follow_render (fun p hp => (h p hp).isName) []

theorem filter_ne_nil_of_clean : (parts.filter fun part => part ≠ []) = parts :=
  filter_eq_self.mpr fun p hp => decide_eq_true (h p hp).ne_nil

theorem components_renderPath : components (renderPath parts) = parts := by
  rw [components, split_renderPath h]
  split
  next hnil =>
    rw [hnil]
    rfl
  · rw [filter_cons_of_neg (by decide), filter_ne_nil_of_clean h]

end

theorem components_normalizePathFromBase (base path : Str) :
    components (normalizePathFromBase base path) =
      normalizeParts (if path.isAbsolute then ['/'] else base) path :=
  components_renderPath (clean_normalizeParts _ _)

theorem clean_components_normalize (base path : Str) :
    ∀ p ∈ components (normalizePathFromBase base path), CleanName p := by
  rw [components_normalizePathFromBase]
  exact clean_normalizeParts _ _

theorem isAbsolute_join (h : ∀ p ∈ parts, CleanName p) : (Str.join parts).isAbsolute = false := by
  rw [Bool.eq_false_iff]
  intro hc
  unfold Str.isAbsolute at hc
  rw [decide_eq_true_eq] at hc
  rcases parts with _ | ⟨part, parts⟩
  · cases hc
  have hpart := h part (mem_cons_self ..)
  rcases part with _ | ⟨c, part⟩
  · exact hpart.ne_nil rfl
  have hhead : (Str.join ((c :: part) :: parts)).head? = some c := by
    cases parts <;> rfl
  rw [hhead] at hc
  exact hpart.no_slash (Option.some.inj hc ▸ mem_cons_self ..)

/-- The components a symbolic link restarts the walk on: the link's own path,
    then what was still to come. -/
theorem components_restart (base target : Str) {remaining : List Str}
    (h : ∀ p ∈ remaining, CleanName p) :
    components (if remaining = [] then normalizePathFromBase base target
      else normalizePathFromBase (normalizePathFromBase base target) (Str.join remaining)) =
        components (normalizePathFromBase base target) ++ remaining := by
  split
  next hnil => rw [hnil, append_nil]
  rename_i hne
  rw [components_normalizePathFromBase _ (Str.join remaining), isAbsolute_join h,
    if_neg (by decide), normalizeParts, split_join h hne, foldl_append,
    foldl_pushPart_clean h, components_normalizePathFromBase]
  congr 1
  exact foldl_split_renderPath (clean_normalizeParts _ _)

/-- A path that normalisation can leave behind. -/
def NormalPath (path : Str) : Prop :=
  ∃ parts, (∀ p ∈ parts, CleanName p) ∧ path = renderPath parts

theorem normalPath_normalize (base path : Str) : NormalPath (normalizePathFromBase base path) :=
  ⟨_, clean_normalizeParts _ _, rfl⟩

theorem NormalPath.clean (h : NormalPath path) :
    ∀ p ∈ components path, CleanName p := by
  rcases h with ⟨parts, hclean, hpath⟩
  rw [hpath, components_renderPath hclean]
  exact hclean

variable {T : Type} [FdTables T] {w : World T} {q : Str}

theorem normalPath_normalizePathAt {cage : Nat} {dirfd : Int}
    (h : w.normalizePathAt cage dirfd path = .ok (.ok q)) : NormalPath q := by
  unfold World.normalizePathAt at h
  split at h
  · cases h
    exact normalPath_normalize _ _
  split at h
  · cases h
  rcases (bind_eq_ok _ _ _).mp h with ⟨i, _, h⟩
  split at h
  · cases h
  rcases (bind_eq_ok _ _ _).mp h with ⟨base, _, h⟩
  cases h
  exact normalPath_normalize _ _

theorem normalPath_names (h : call.Names w q) : NormalPath q := by
  cases call
  case openPath => exact h ▸ normalPath_normalize _ _
  case openat => exact normalPath_normalizePathAt h
  case mkdir => exact h ▸ normalPath_normalize _ _
  case mknod => exact h ▸ normalPath_normalize _ _
  case link => exact h ▸ normalPath_normalize _ _
  case linkat => exact normalPath_normalizePathAt h
  case symlink => exact h ▸ normalPath_normalize _ _
  case symlinkat => exact normalPath_normalizePathAt h
  case rmdir => exact h ▸ normalPath_normalize _ _
  case unlink => exact h ▸ normalPath_normalize _ _
  case unlinkat => exact normalPath_normalizePathAt h
  case rename => exact h ▸ normalPath_normalize _ _
  case renameat => exact normalPath_normalizePathAt h
  all_goals exact absurd h id

theorem normalPath_oldNames (h : call.OldNames w q) : NormalPath q := by
  cases call
  case link => exact h ▸ normalPath_normalize _ _
  case linkat => exact normalPath_normalizePathAt h
  case rename => exact h ▸ normalPath_normalize _ _
  case renameat => exact normalPath_normalizePathAt h
  all_goals exact absurd h id

end LindGrates.Imfs
