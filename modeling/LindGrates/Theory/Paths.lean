import LindGrates.Theory.Chroot.Paths
import LindGrates.Theory.FsClamp.Paths
import LindGrates.Theory.Imfs.Normal

/-!
# One Normal Form

Three grates normalise paths, each with code of its own. All three render the
names a path leads to from the working directory.

## Theorems

* `normal_forms_agree`: The form of a path, that it is its own, and what a path continued
  by another means.
-/

namespace LindGrates

open Lexical

theorem Imfs.normalizePathForCage_eq (s : Imfs.ImfsState) (cage : Nat) (path : Str) :
    s.normalizePathForCage cage path =
      render (resolve (resolve [] ((s.cwdInfo cage).getD ['/'])) path) := by
  rw [Imfs.ImfsState.normalizePathForCage, Imfs.normalizePathFromBase, Imfs.renderPath_eq]
  change render (follow [] (_ ++ _)) = _
  rw [follow_append]
  by_cases habs : path.isAbsolute = true
  · rw [if_pos habs, resolve, if_pos (FsClamp.isAbsolute_eq_true_iff.mp habs)]
    rfl
  rw [if_neg habs, resolve, if_neg fun hc => habs (FsClamp.isAbsolute_eq_true_iff.mpr hc),
    resolve, ite_self]
  rfl

variable {a b : Str}

/-- Normalisation gives a path of names, changes it no more, takes a path and a relative one
    after it as the two joined, and is the same in all three grates. -/
theorem normal_forms_agree (ha : a ≠ []) (hb : b ≠ []) (hrel : b.isAbsolute = false) (c : Str) :
    (∃ names, (∀ p ∈ names, IsName p) ∧ Chroot.normalizePath a c = render names) ∧
      (∀ c', Chroot.normalizePath (Chroot.normalizePath a c) c' = Chroot.normalizePath a c) ∧
      Chroot.normalizePath b (Chroot.normalizePath a c) =
        Chroot.normalizePath (a ++ '/' :: b) c ∧
      (∀ (T : Type) (s : FsClamp.State T) (cage : Nat), s.getCageCwd cage = c →
        s.resolvePathForCage cage a = Chroot.normalizePath a c) ∧
      ∀ (s : Imfs.ImfsState) (cage : Nat), (s.cwdInfo cage).getD ['/'] = c →
        s.normalizePathForCage cage a = Chroot.normalizePath a c := by
  have hhead : b.head? ≠ some '/' := by
    rw [Ne, ← Chroot.isAbsolute_iff, hrel]
    exact Bool.false_ne_true
  have hform := Chroot.normalizePath_eq ha c
  have hnames := Chroot.isName_virtual a c
  refine ⟨⟨_, hnames, hform⟩, Chroot.normalizePath_normalizePath a c, ?_, ?_, ?_⟩
  · rw [Chroot.normalizePath_eq hb, hform, resolve_render hnames, resolve_resolve ha hhead,
      Chroot.normalizePath_eq (List.append_ne_nil_of_left_ne_nil ha _)]
  · intro T s cage hs
    rw [FsClamp.resolvePathForCage_eq, hs, hform]
  · intro s cage hs
    rw [Imfs.normalizePathForCage_eq, hs, hform]

theorem normal_forms_agree_climbing :
    Chroot.normalizePath ['b'] (Chroot.normalizePath ['.', '.', '/', '/', 'a'] ['/', 'd']) =
      Chroot.normalizePath ['.', '.', '/', '/', 'a', '/', 'b'] ['/', 'd'] :=
  (normal_forms_agree (by decide) (by decide) rfl ['/', 'd']).2.2.1

end LindGrates
