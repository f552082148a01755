import Mathlib.Data.List.Basic

/-!
# Words of a Text

A text cut at its blanks. `words` is the cut; `Written` says without cutting
which texts a list of words can be read from: the words in their order, with
blanks between them and possibly around them. The two agree, so a parser that
cuts can be compared with a grammar that writes.

## Main definitions

* `words`: What stands between the blanks of a text.
* `Written`: A text in which the given words are written.

## Theorems

* `words_eq_iff`: The words of a text are those that are written in it.
-/

namespace LindGrates

open List

variable {α : Type} {blank : α → Bool} {gap text : List α} {ws : List (List α)}

/-- The words of a text, which are never empty. -/
def words (blank : α → Bool) (text : List α) : List (List α) :=
  (text.splitOnP blank).filter fun word => !word.isEmpty

/-- The words are written in the text, each ended by a blank or by the end of the
    text. -/
inductive Written (blank : α → Bool) : List (List α) → List α → Prop
  | nil {gap : List α} (hgap : ∀ c ∈ gap, blank c = true) : Written blank [] gap
  | cons {gap word rest : List α} {ws : List (List α)} (hgap : ∀ c ∈ gap, blank c = true)
      (hne : word ≠ []) (hword : ∀ c ∈ word, blank c = false)
      (hend : ∀ c, rest.head? = some c → blank c = true) (hrest : Written blank ws rest) :
      Written blank (word :: ws) (gap ++ (word ++ rest))

theorem words_append_blank {c : α} (h : blank c = true) (front back : List α) :
    words blank (front ++ c :: back) = words blank front ++ words blank back := by
  rw [words, splitOnP_append_cons front back h, filter_append]
  rfl

theorem words_gap_append (h : ∀ c ∈ gap, blank c = true) (text : List α) :
    words blank (gap ++ text) = words blank text := by
  induction gap with
  | nil => rfl
  | cons c gap ih =>
    rw [forall_mem_cons] at h
    exact (words_append_blank h.1 [] _).trans (ih h.2)

theorem words_word {word : List α} (hne : word ≠ []) (h : ∀ c ∈ word, blank c = false) :
    words blank word = [word] := by
  rw [words, splitOnP_eq_singleton h]
  simp [hne]

theorem words_of_written (h : Written blank ws text) : words blank text = ws := by
  induction h with
  | nil hgap => simpa [words] using words_gap_append hgap []
  | @cons gap word rest ws hgap hne hword hend _ ih =>
    rw [words_gap_append hgap]
    cases rest with
    | nil =>
      rw [append_nil, words_word hne hword, ← ih]
      rfl
    | cons c rest =>
      have hc := hend c rfl
      rw [words_append_blank hc, words_word hne hword, ← ih]
      exact congrArg (word :: ·) (words_append_blank hc [] rest).symm

theorem exists_written (blank : α → Bool) (text : List α) : ∃ ws, Written blank ws text := by
  induction text with
  | nil => exact ⟨[], .nil (forall_mem_nil _)⟩
  | cons c text ih =>
    rcases ih with ⟨ws, h⟩
    by_cases hc : blank c = true
    · cases h with
      | nil hgap => exact ⟨[], .nil (forall_mem_cons.mpr ⟨hc, hgap⟩)⟩
      | cons hgap hne hword hend hrest =>
        exact ⟨_, .cons (forall_mem_cons.mpr ⟨hc, hgap⟩) hne hword hend hrest⟩
    -- the character begins a word, or goes in front of the one that follows at once
    have hword : ∀ x ∈ [c], blank x = false := by simpa using hc
    have hnew : (∀ x, text.head? = some x → blank x = true) → ∃ ws, Written blank ws (c :: text) :=
      fun hend => ⟨_, .cons (forall_mem_nil _) (cons_ne_nil c []) hword hend h⟩
    cases h with
    | nil hgap => exact hnew fun x hx => hgap x (mem_of_head? hx)
    | @cons gap word rest ws hgap hne hword' hend hrest =>
      cases gap with
      | nil =>
        have hlonger : ∀ x ∈ c :: word, blank x = false :=
          forall_mem_cons.mpr ⟨hword c mem_cons_self, hword'⟩
        exact ⟨_, .cons (forall_mem_nil _) (cons_ne_nil c word) hlonger hend hrest⟩
      | cons x gap => exact hnew fun y hy => hgap y (mem_of_head? hy)

/-- The words of a text are those that are written in it. -/
theorem words_eq_iff : words blank text = ws ↔ Written blank ws text := by
  constructor
  · rcases exists_written blank text with ⟨ws', h⟩
    intro hws
    rwa [← hws, words_of_written h]
  · exact words_of_written

theorem Written.append_gap (h : Written blank ws text) (hgap : ∀ c ∈ gap, blank c = true) :
    Written blank ws (text ++ gap) := by
  induction h with
  | nil hgap' => exact .nil (forall_mem_append.mpr ⟨hgap', hgap⟩)
  | @cons gap' word rest ws hgap' hne hword hend _ ih =>
    rw [append_assoc, append_assoc]
    refine .cons hgap' hne hword (fun c hc => ?_) ih
    cases rest with
    | nil => exact hgap c (mem_of_head? hc)
    | cons => exact hend c hc

/-- Blanks around a text do not change its words. -/
theorem words_append_gap (hgap : ∀ c ∈ gap, blank c = true) (text : List α) :
    words blank (text ++ gap) = words blank text :=
  words_of_written ((words_eq_iff.mp rfl).append_gap hgap)

/-- What stands between separators is from the text and has no separator. -/
theorem mem_splitOn [BEq α] [LawfulBEq α] {sep : α} {text : List α} :
    ∀ part ∈ text.splitOn sep, ∀ c ∈ part, c ∈ text ∧ c ≠ sep := by
  induction text with
  | nil =>
    intro part hpart c hc
    rw [splitOn_nil, mem_singleton] at hpart
    rw [hpart] at hc
    cases hc
  | cons d text ih =>
    intro part hpart c hc
    rw [splitOn_cons_eq_if_modifyHead] at hpart
    split at hpart
    · rcases mem_cons.mp hpart with hpart | hpart
      · rw [hpart] at hc
        cases hc
      · exact ⟨mem_cons_of_mem _ (ih part hpart c hc).1, (ih part hpart c hc).2⟩
    rename_i hd
    rcases hs : text.splitOn sep with _ | first
    · exact absurd hs (splitOn_ne_nil sep text)
    rw [hs] at hpart ih
    rcases mem_cons.mp hpart with hpart | hpart
    · rw [hpart] at hc
      rcases mem_cons.mp hc with hc | hc
      · exact ⟨hc ▸ mem_cons_self .., fun hsep => hd (beq_iff_eq.mpr (hc ▸ hsep))⟩
      · have := ih first (mem_cons_self ..) c hc
        exact ⟨mem_cons_of_mem _ this.1, this.2⟩
    · have := ih part (mem_cons_of_mem _ hpart) c hc
      exact ⟨mem_cons_of_mem _ this.1, this.2⟩

end LindGrates
