import LindGrates.Core.FsClamp.State

/-!
# Normalised Paths

What the clamp makes of the text of a path.

## Theorems

* `normalizePath_eq`: The rendering of the names a path leads to.
* `resolvePathForCage_eq`: The same for a path behind a working directory.
-/

namespace LindGrates.FsClamp

open Lexical

theorem isAbsolute_eq_true_iff {path : Str} : path.isAbsolute = true ↔ path.head? = some '/' := by
  rw [Str.isAbsolute, decide_eq_true_eq]

theorem normalizePath_eq (path : Str) : normalizePath path = render (resolve [] path) := by
  unfold normalizePath
  rw [resolve, ite_self]
  change (if follow [] (Str.split path) = [] then ['/'] else '/' :: Str.join _) = _
  split
  next hnil =>
    rw [show path.splitOn '/' = Str.split path from rfl, hnil]
    rfl
  · rfl

theorem isName_root (path : Str) : ∀ p ∈ resolve [] path, IsName p :=
  isName_resolve (fun _ hp => absurd hp List.not_mem_nil) path

theorem normalizePath_normalizePath (path : Str) :
    normalizePath (normalizePath path) = normalizePath path := by
  rw [normalizePath_eq, normalizePath_eq, resolve_render (isName_root path)]

theorem resolvePathForCage_eq {T : Type} (s : State T) (cage : Nat) (path : Str) :
    s.resolvePathForCage cage path =
      render (resolve (resolve [] (s.getCageCwd cage)) path) := by
  unfold State.resolvePathForCage
  by_cases habs : path.isAbsolute = true
  · rw [if_pos habs, normalizePath_eq, resolve, resolve, ite_self,
      if_pos (isAbsolute_eq_true_iff.mp habs)]
  rw [if_neg habs, normalizePath_eq]
  rw [resolve, ite_self, follow_append_slash, follow_trimEnd]
  rw [resolve, if_neg fun hc => habs (isAbsolute_eq_true_iff.mpr hc)]
  rw [resolve, ite_self]

end LindGrates.FsClamp
