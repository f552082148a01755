import LindGrates.Base.Lexical

/-!
# Paths that Begin Other Paths

A program that wants to know whether a file lies below a directory may compare
the text of the directory with the beginning of the text of the file. The text
`/tmp` also begins `/tmpfoo`, and `/tmp/` does not begin `/tmp` although it is a
spelling of that directory.

## Main definitions

* `Spelled`, `Sibling`: What the text of a directory and the last name are like.

## Theorems

* `prefix_join_iff`: What begins a path, part by part.
* `prefix_iff_below_iff`: Where the comparison of texts gives the right answer.
-/

namespace LindGrates.Lexical

open List

variable {last name : List Char} {parts : List (List Char)} {rest part path : List Char}
  {names file : List (List Char)}

theorem prefix_part_iff (h : '/' ∉ last) :
    last <+: name ++ '/' :: rest ↔ last <+: name := by
  constructor
  · intro hpre
    rcases prefix_or_prefix_of_prefix hpre (prefix_append name ('/' :: rest)) with hp | hp
    · exact hp
    rcases hp with ⟨tail, rfl⟩
    rcases hpre with ⟨more, hmore⟩
    rw [append_assoc, append_cancel_left_eq] at hmore
    rcases tail with _ | _
    · exact ⟨[], by rw [append_nil, append_nil]⟩
    cases hmore
    exact absurd (mem_append_right _ (mem_cons_self ..)) h
  · exact fun hpre => hpre.trans (prefix_append _ _)

theorem prefix_cons_slash_iff {more : List Char} (hpart : '/' ∉ part) (hname : '/' ∉ name) :
    part ++ '/' :: rest <+: name ++ '/' :: more ↔ part = name ∧ rest <+: more := by
  induction part generalizing name with
  | nil =>
    rcases name with _ | _
    · simp
    simp only [nil_append, cons_append, cons_prefix_cons]
    constructor
    · rintro ⟨rfl, _⟩
      exact absurd (mem_cons_self ..) hname
    · rintro ⟨h, _⟩
      cases h
  | cons _ _ ih =>
    rcases name with _ | d
    · simp only [nil_append, cons_append, cons_prefix_cons]
      constructor
      · rintro ⟨rfl, _⟩
        exact absurd (mem_cons_self ..) hpart
      · rintro ⟨h, _⟩
        cases h
    have hrest := ih (fun h => hpart (mem_cons_of_mem _ h))
      fun h => hname (mem_cons_of_mem d h)
    simp only [cons_append, cons_prefix_cons, List.cons.injEq, hrest]
    exact and_assoc.symm

theorem join_cons (h : names ≠ []) (name : List Char) :
    ['/'].intercalate (name :: names) = name ++ '/' :: ['/'].intercalate names := by
  rcases names with _ | _
  · exact absurd rfl h
  rw [intercalate_cons_cons, append_assoc]
  rfl

/-- Joined parts begin joined names exactly when all parts but the last are the
    first names, and the last one begins the name that follows. -/
theorem prefix_join_iff (hparts : ∀ p ∈ parts, '/' ∉ p) (hlast : '/' ∉ last) :
    ∀ {names : List (List Char)}, (∀ p ∈ names, IsName p) →
      (['/'].intercalate (parts ++ [last]) <+: ['/'].intercalate names ↔
        (∃ name rest, names = parts ++ name :: rest ∧ last <+: name) ∨
          (names = [] ∧ parts = [] ∧ last = [])) := by
  induction parts with
  | nil =>
    intro names _
    rw [nil_append, show ['/'].intercalate [last] = last from append_nil last]
    rcases names with _ | ⟨name, rest⟩
    · rw [show ['/'].intercalate ([] : List (List Char)) = [] from rfl, prefix_nil]
      constructor
      · exact fun h => .inr ⟨rfl, rfl, h⟩
      · rintro (⟨name, rest, h, _⟩ | ⟨_, _, h⟩)
        · cases h
        · exact h
    have hpre : last <+: ['/'].intercalate (name :: rest) ↔ last <+: name := by
      by_cases hrest : rest = []
      · rw [hrest, show ['/'].intercalate [name] = name from append_nil name]
      · rw [join_cons hrest, prefix_part_iff hlast]
    rw [hpre]
    constructor
    · exact fun h => .inl ⟨name, rest, rfl, h⟩
    · rintro (⟨name', rest', h, hlast'⟩ | ⟨h, _⟩)
      · cases h
        exact hlast'
      · cases h
  | cons part parts ih =>
    intro names hnames
    have hne : parts ++ [last] ≠ [] := append_ne_nil_of_right_ne_nil _ (cons_ne_nil _ _)
    have hpart : '/' ∉ part := hparts part (mem_cons_self ..)
    rw [cons_append, join_cons hne]
    rcases names with _ | ⟨name, rest⟩
    · rw [show ['/'].intercalate ([] : List (List Char)) = [] from rfl, prefix_nil]
      constructor
      · intro h
        exact absurd h (append_ne_nil_of_right_ne_nil _ (cons_ne_nil _ _))
      · rintro (⟨name, rest, h, _⟩ | ⟨_, h, _⟩)
        · cases h
        · cases h
    have hname := (hnames name (mem_cons_self ..)).no_slash
    by_cases hrest : rest = []
    · -- a single name has no slash for the first part to end at
      rw [hrest, show ['/'].intercalate [name] = name from append_nil name]
      constructor
      · intro h
        exact absurd (h.subset (mem_append_right _ (mem_cons_self ..))) hname
      · rintro (⟨name', rest', h, _⟩ | ⟨h, _⟩)
        · rw [cons_append, List.cons.injEq] at h
          exact absurd h.2.symm (append_ne_nil_of_right_ne_nil _ (cons_ne_nil _ _))
        · cases h
    · rw [join_cons hrest, prefix_cons_slash_iff hpart hname,
        ih (fun p hp => hparts p (mem_cons_of_mem _ hp))
          fun p hp => hnames p (mem_cons_of_mem _ hp)]
      constructor
      · rintro ⟨rfl, ⟨name', rest', h, hlast'⟩ | ⟨h, _⟩⟩
        · exact .inl ⟨name', rest', by rw [h, cons_append], hlast'⟩
        · exact absurd h hrest
      · rintro (⟨name', rest', h, hlast'⟩ | ⟨h, _⟩)
        · rw [cons_append, List.cons.injEq] at h
          exact ⟨h.1.symm, .inl ⟨name', rest', h.2, hlast'⟩⟩
        · cases h

theorem prefix_render_iff (hparts : ∀ p ∈ parts, '/' ∉ p)
    (hlast : '/' ∉ last) (hnames : ∀ p ∈ names, IsName p) :
    render (parts ++ [last]) <+: render names ↔
      (∃ name rest, names = parts ++ name :: rest ∧ last <+: name) ∨
        (names = [] ∧ parts = [] ∧ last = []) := by
  rw [render, render, cons_prefix_cons, ← prefix_join_iff hparts hlast hnames]
  exact and_iff_right rfl

theorem render_prefix {place : List (List Char)} (hplace : ∀ p ∈ place, IsName p)
    (hfile : ∀ p ∈ file, IsName p) (h : place <+: file) : render place <+: render file := by
  rcases eq_nil_or_concat place with hnil | ⟨parts, last, hlast⟩
  · rw [hnil]
    exact cons_prefix_cons.mpr ⟨rfl, nil_prefix⟩
  rw [concat_eq_append] at hlast
  subst hlast
  rcases h with ⟨tail, rfl⟩
  have hslash : ∀ p ∈ parts, '/' ∉ p :=
    fun p hp => (hplace p (mem_append_left _ hp)).no_slash
  have hend := (hplace last (mem_append_right _ (mem_singleton.mpr rfl))).no_slash
  refine (prefix_render_iff hslash hend hfile).mpr (.inl ⟨last, tail, ?_, prefix_rfl⟩)
  rw [append_assoc]
  rfl

theorem exists_render_of_absolute (h : path.head? = some '/') :
    ∃ parts last, path = render (parts ++ [last]) ∧ (∀ p ∈ parts, '/' ∉ p) ∧ '/' ∉ last := by
  rcases path with _ | ⟨c, rest⟩
  · cases h
  cases h
  rcases eq_nil_or_concat (rest.splitOn '/') with hnil | ⟨parts, last, hsplit⟩
  · exact absurd hnil (splitOn_ne_nil '/' rest)
  rw [concat_eq_append] at hsplit
  have hslash := no_slash_of_mem_splitOn rest
  rw [hsplit] at hslash
  refine ⟨parts, last, ?_, fun p hp => hslash p (mem_append_left _ hp),
    hslash last (mem_append_right _ (mem_singleton.mpr rfl))⟩
  rw [render, ← hsplit, intercalate_splitOn]

/-! ## Text and place -/

/-- A path is spelled so that its text begins the path of a file below it: as it is
    rendered; with a slash at its end, for files properly below it; or with a dot or
    two at its end, for files whose name there begins with them. -/
def Spelled (path : List Char) (file : List (List Char)) : Prop :=
  path = render (resolve [] path) ∨
    (resolve [] path ≠ [] ∧ path = render (resolve [] path) ++ ['/'] ∧ file ≠ resolve [] path) ∨
    ∃ parts dots name rest, (dots = ['.'] ∨ dots = ['.', '.']) ∧
      path = render (parts ++ [dots]) ∧ file = parts ++ name :: rest ∧ dots <+: name

/-- The last name of a path begins the name a file has in its place, and is not that
    name. -/
def Sibling (path : List Char) (file : List (List Char)) : Prop :=
  ∃ parts last name rest, IsName last ∧ path = render (parts ++ [last]) ∧
    file = parts ++ name :: rest ∧ last <+: name ∧ last ≠ name

theorem resolve_parts (hparts : ∀ p ∈ parts, '/' ∉ p) (hlast : '/' ∉ last) :
    resolve [] (render (parts ++ [last])) = push (follow [] parts) last := by
  have hslash : ∀ p ∈ parts ++ [last], '/' ∉ p := by
    intro p hp
    rcases mem_append.mp hp with hp | hp
    · exact hparts p hp
    · rw [mem_singleton.mp hp]
      exact hlast
  have hne : parts ++ [last] ≠ [] := append_ne_nil_of_right_ne_nil _ (cons_ne_nil _ _)
  rw [resolve, ite_self, render, follow_slash_cons, splitOn_intercalate '/' hslash hne,
    follow_append]
  rfl

theorem render_concat_nil (h : parts ≠ []) : render (parts ++ [[]]) = render parts ++ ['/'] := by
  induction parts with
  | nil => exact absurd rfl h
  | cons _ parts ih =>
    by_cases hparts : parts = []
    · rw [hparts, cons_append, nil_append, render, join_cons (cons_ne_nil _ _),
        render, intercalate_singleton, intercalate_singleton]
      rfl
    have hstep : render (parts ++ [[]]) = '/' :: (['/'].intercalate parts ++ ['/']) := ih hparts
    have hne : parts ++ [[]] ≠ [] :=
      append_ne_nil_of_right_ne_nil _ (cons_ne_nil _ _)
    rw [render, cons_append, join_cons hne, (List.cons.inj hstep).2, render, join_cons hparts]
    simp only [cons_append, append_assoc]

theorem resolve_parts_names (hparts : ∀ p ∈ parts, IsName p) (hlast : '/' ∉ last) :
    resolve [] (render (parts ++ [last])) = push parts last := by
  rw [resolve_parts (fun p hp => (hparts p hp).no_slash) hlast, follow_names hparts, nil_append]

theorem part_cases (h : '/' ∉ part) :
    part = [] ∨ part = ['.'] ∨ part = ['.', '.'] ∨ IsName part := by
  by_cases h1 : part = []
  · exact .inl h1
  by_cases h2 : part = ['.']
  · exact .inr (.inl h2)
  by_cases h3 : part = ['.', '.']
  · exact .inr (.inr (.inl h3))
  · exact .inr (.inr (.inr ⟨h1, h2, h3, h⟩))

theorem eq_of_prefix_concat {rest : List (List Char)}
    (h : parts ++ [last] <+: parts ++ name :: rest) : last = name := by
  rw [prefix_append_right_inj] at h
  exact (cons_prefix_cons.mp h).1

/-- The text of an absolute path begins the path of a file exactly when the file is
    below its place, if and only if the path is spelled plainly for a file below it
    and the file is no sibling. -/
theorem prefix_iff_below_iff (hpath : path.head? = some '/') (hfile : ∀ p ∈ file, IsName p) :
    (path <+: render file ↔ resolve [] path <+: file) ↔
      (resolve [] path <+: file → Spelled path file) ∧ ¬Sibling path file := by
  rcases exists_render_of_absolute hpath with ⟨parts, last, rfl, hparts, hlast⟩
  have hmatch := prefix_render_iff hparts hlast hfile
  constructor
  · intro hiff
    constructor
    · intro hbelow
      rcases hmatch.mp (hiff.mpr hbelow) with ⟨name, rest, heq, hpre⟩ | ⟨_, hnil, hempty⟩
      · have hnames : ∀ p ∈ parts, IsName p :=
          fun p hp => hfile p (heq ▸ mem_append_left _ hp)
        have hplace := resolve_parts_names hnames hlast
        rcases part_cases hlast with hl | hl | hl | hl
        · subst hl
          rw [push_empty] at hplace
          by_cases hnil : parts = []
          · subst hnil
            exact .inl (by rw [hplace]; rfl)
          refine .inr (.inl ⟨by rw [hplace]; exact hnil, ?_, ?_⟩)
          · rw [hplace]
            exact render_concat_nil hnil
          · rw [hplace, heq]
            intro hself
            have hlen := congrArg List.length hself
            simp only [length_append, length_cons] at hlen
            omega
        · exact .inr (.inr ⟨parts, last, name, rest, .inl hl, rfl, heq, hpre⟩)
        · exact .inr (.inr ⟨parts, last, name, rest, .inr hl, rfl, heq, hpre⟩)
        · rw [push_name hl] at hplace
          exact .inl (by rw [hplace])
      · subst hnil hempty
        exact .inl rfl
    · rintro ⟨parts', last', name, rest, hl, heqp, heq, hpre, hne⟩
      have hnames : ∀ p ∈ parts', IsName p :=
        fun p hp => hfile p (heq ▸ mem_append_left _ hp)
      have hbegin := (prefix_render_iff (fun p hp => (hnames p hp).no_slash) hl.no_slash hfile).mpr
        (.inl ⟨name, rest, heq, hpre⟩)
      rw [← heqp] at hbegin
      have hbelow := hiff.mp hbegin
      rw [heqp, resolve_parts_names hnames hl.no_slash, push_name hl, heq] at hbelow
      exact hne (eq_of_prefix_concat hbelow)
  · rintro ⟨hspelled, hsibling⟩
    constructor
    · intro hbegin
      rcases hmatch.mp hbegin with ⟨name, rest, heq, hpre⟩ | ⟨_, hnil, hempty⟩
      · have hnames : ∀ p ∈ parts, IsName p :=
          fun p hp => hfile p (heq ▸ mem_append_left _ hp)
        rw [resolve_parts_names hnames hlast, heq]
        rcases part_cases hlast with hl | hl | hl | hl
        · rw [hl, push_empty]
          exact prefix_append _ _
        · rw [hl]
          exact prefix_append _ _
        · rw [hl]
          exact (List.dropLast_prefix parts).trans (prefix_append _ _)
        rw [push_name hl]
        by_cases hsame : last = name
        · rw [hsame]
          exact (prefix_append_right_inj _).mpr
            (cons_prefix_cons.mpr ⟨rfl, nil_prefix⟩)
        · exact absurd ⟨parts, last, name, rest, hl, rfl, heq, hpre, hsame⟩ hsibling
      · subst hnil hempty
        exact nil_prefix
    · intro hbelow
      have hplaceNames : ∀ p ∈ resolve [] (render (parts ++ [last])), IsName p :=
        isName_resolve (fun _ hp => absurd hp not_mem_nil) _
      rcases hspelled hbelow with hplain | ⟨hne, hslash, hdiff⟩ | ⟨parts', dots, name, rest, hdots,
        heqp, heq, hpre⟩
      · rw [hplain]
        exact render_prefix hplaceNames hfile hbelow
      · rcases hbelow with ⟨tail, htail⟩
        rcases tail with _ | ⟨name, rest⟩
        · rw [append_nil] at htail
          exact absurd htail.symm hdiff
        rw [hslash, ← render_concat_nil hne]
        exact (prefix_render_iff (fun p hp => (hplaceNames p hp).no_slash) not_mem_nil
          hfile).mpr (.inl ⟨name, rest, htail.symm, nil_prefix⟩)
      · have hnames : ∀ p ∈ parts', IsName p :=
          fun p hp => hfile p (heq ▸ mem_append_left _ hp)
        have hnoslash : '/' ∉ dots := by
          rcases hdots with hd | hd
          · rw [hd]
            decide
          · rw [hd]
            decide
        rw [heqp]
        exact (prefix_render_iff (fun p hp => (hnames p hp).no_slash) hnoslash hfile).mpr
          (.inl ⟨name, rest, heq, hpre⟩)

end LindGrates.Lexical
