import LindGrates.Base.Words
import Mathlib.Data.List.DropRight
import Mathlib.Data.List.Infix

/-!
# Paths as Text

What a path means when only its text is looked at. The parts of a path between
its slashes act one after the other on a stack of names: an empty part and `.`
do nothing, `..` takes the last name away, anything else is a name and is put on
top. A `..` that meets the empty stack stays there.

## Main definitions

* `follow`, `resolve`: The stack that parts and a path lead to.
* `render`: The absolute path of a stack.
* `Climbs`: A `..` meets the empty stack.

## Theorems

* `follow_render`, `resolve_render`: A rendered path leads to its names.
* `follow_append_iff`: When a stack underneath is left alone.
* `prefix_follow_iff`: When parts end at a name or below it.
-/

namespace LindGrates.Lexical

open List

variable {p name : List Char} {c : Char} {m : Nat}

/-- A part of a path that names something in a directory. -/
structure IsName (part : List Char) : Prop where
  ne_nil : part ≠ []
  ne_dot : part ≠ ['.']
  ne_dotdot : part ≠ ['.', '.']
  no_slash : '/' ∉ part

/-- What one part does to the stack. -/
def push (stack : List (List Char)) (part : List Char) : List (List Char) :=
  if part = [] ∨ part = ['.'] then stack
  else if part = ['.', '.'] then stack.dropLast
  else stack ++ [part]

/-- The stack that parts lead to. -/
def follow (stack parts : List (List Char)) : List (List Char) :=
  parts.foldl push stack

/-- The absolute path of a stack. -/
def render (stack : List (List Char)) : List Char :=
  '/' :: ['/'].intercalate stack

/-- The stack that a path leads to from a directory. -/
def resolve (dir : List (List Char)) (path : List Char) : List (List Char) :=
  follow (if path.head? = some '/' then [] else dir) (path.splitOn '/')

/-- A text without the slashes at its end. -/
def trimEnd (path : List Char) : List Char :=
  path.rdropWhile fun c => c = '/'

/-! ## Following parts -/

@[simp]
theorem follow_nil (stack : List (List Char)) : follow stack [] = stack :=
  rfl

@[simp]
theorem follow_cons (stack : List (List Char)) (part : List Char) (parts : List (List Char)) :
    follow stack (part :: parts) = follow (push stack part) parts :=
  rfl

theorem follow_append (stack ps qs : List (List Char)) :
    follow stack (ps ++ qs) = follow (follow stack ps) qs :=
  foldl_append

@[simp]
theorem push_empty (stack : List (List Char)) : push stack [] = stack :=
  if_pos (.inl rfl)

variable {part : List Char} {names stack parts base : List (List Char)}

theorem push_name (h : IsName part) (stack : List (List Char)) :
    push stack part = stack ++ [part] := by
  unfold push
  rw [if_neg (fun hc => hc.elim h.ne_nil h.ne_dot), if_neg h.ne_dotdot]

theorem follow_names (h : ∀ p ∈ names, IsName p) :
    ∀ stack, follow stack names = stack ++ names := by
  induction names with
  | nil => exact fun stack => (append_nil stack).symm
  | cons name _ ih =>
    intro stack
    rw [follow_cons, push_name (h name (mem_cons_self ..)),
      ih (fun p hp => h p (mem_cons_of_mem _ hp)), append_assoc]
    rfl

theorem isName_push (hstack : ∀ p ∈ stack, IsName p) (hpart : '/' ∉ part) :
    ∀ p ∈ push stack part, IsName p := by
  intro p hp
  unfold push at hp
  split at hp
  · exact hstack p hp
  rename_i hkeep
  split at hp
  · exact hstack p (mem_of_mem_dropLast hp)
  rename_i hdotdot
  rcases mem_append.mp hp with hp | hp
  · exact hstack p hp
  · rw [mem_singleton.mp hp]
    exact ⟨fun hc => hkeep (.inl hc), fun hc => hkeep (.inr hc), hdotdot, hpart⟩

theorem isName_follow (hparts : ∀ p ∈ parts, '/' ∉ p) :
    ∀ stack : List (List Char), (∀ p ∈ stack, IsName p) → ∀ p ∈ follow stack parts, IsName p := by
  induction parts with
  | nil => exact fun stack hstack => hstack
  | cons part _ ih =>
    intro stack hstack
    exact ih (fun p hp => hparts p (mem_cons_of_mem _ hp)) _
      (isName_push hstack (hparts part (mem_cons_self ..)))

theorem mem_of_mem_push (h : p ∈ push stack part) : p ∈ stack ∨ p = part := by
  unfold push at h
  split at h
  · exact .inl h
  split at h
  · exact .inl (mem_of_mem_dropLast h)
  rcases mem_append.mp h with h | h
  · exact .inl h
  · exact .inr (mem_singleton.mp h)

theorem mem_of_mem_follow :
    ∀ stack : List (List Char), p ∈ follow stack parts → p ∈ stack ∨ p ∈ parts := by
  induction parts with
  | nil => exact fun stack h => .inl h
  | cons _ _ ih =>
    intro stack h
    rcases ih _ h with h | h
    · rcases mem_of_mem_push h with h | h
      · exact .inl h
      · exact .inr (h ▸ mem_cons_self ..)
    · exact .inr (mem_cons_of_mem _ h)

/-! ## Splitting and rendering -/

theorem no_slash_of_mem_splitOn (path : List Char) : ∀ part ∈ path.splitOn '/', '/' ∉ part :=
  fun part hpart hmem => (mem_splitOn part hpart '/' hmem).2 rfl

theorem splitOn_slash_cons (path : List Char) :
    ('/' :: path).splitOn '/' = [] :: path.splitOn '/' := by
  rw [splitOn_cons_eq_if_modifyHead, if_pos (beq_self_eq_true '/')]

theorem follow_slash_cons (stack : List (List Char)) (path : List Char) :
    follow stack (('/' :: path).splitOn '/') = follow stack (path.splitOn '/') := by
  rw [splitOn_slash_cons, follow_cons, push_empty]

theorem follow_join (h : ∀ p ∈ names, IsName p) (stack : List (List Char)) :
    follow stack ((['/'].intercalate names).splitOn '/') = stack ++ names := by
  by_cases hnil : names = []
  · rw [hnil, append_nil]
    exact push_empty stack
  · rw [splitOn_intercalate '/' (fun p hp => (h p hp).no_slash) hnil, follow_names h]

theorem follow_render (h : ∀ p ∈ names, IsName p) (stack : List (List Char)) :
    follow stack ((render names).splitOn '/') = stack ++ names := by
  rw [render, follow_slash_cons, follow_join h]

theorem join_eq_nil_iff (h : ∀ p ∈ names, IsName p) :
    ['/'].intercalate names = [] ↔ names = [] := by
  constructor
  · intro hjoin
    have hfollow := follow_join h []
    rw [hjoin, nil_append] at hfollow
    exact hfollow.symm
  · intro hnil
    rw [hnil]
    rfl

theorem follow_append_slash (stack : List (List Char)) (front back : List Char) :
    follow stack ((front ++ '/' :: back).splitOn '/') =
      follow (follow stack (front.splitOn '/')) (back.splitOn '/') := by
  rw [splitOn_append_cons_self, follow_append]

theorem mem_intercalate :
    c ∈ ['/'].intercalate names → c = '/' ∨ ∃ p ∈ names, c ∈ p := by
  induction names with
  | nil => exact fun h => absurd h not_mem_nil
  | cons name names ih =>
    intro h
    rcases names with _ | _
    · exact .inr ⟨name, mem_cons_self .., by simpa using h⟩
    rw [intercalate_cons_cons] at h
    rcases mem_append.mp h with h | h
    · rcases mem_append.mp h with h | h
      · exact .inr ⟨name, mem_cons_self .., h⟩
      · exact .inl (mem_singleton.mp h)
    rcases ih h with h | ⟨p, hp, hc⟩
    · exact .inl h
    · exact .inr ⟨p, mem_cons_of_mem _ hp, hc⟩

theorem head_join_ne_slash (h : ∀ p ∈ names, IsName p) :
    (['/'].intercalate names).head? ≠ some '/' := by
  intro hc
  rcases names with _ | ⟨name, names⟩
  · cases hc
  have hname := h name (mem_cons_self ..)
  rcases name with _ | ⟨c, name⟩
  · exact hname.ne_nil rfl
  have hhead : (['/'].intercalate ((c :: name) :: names)).head? = some c := by
    cases names <;> rfl
  rw [hhead] at hc
  exact hname.no_slash (Option.some.inj hc ▸ mem_cons_self ..)

/-! ## Resolving a path -/

theorem isName_resolve {dir : List (List Char)} (h : ∀ p ∈ dir, IsName p) (path : List Char) :
    ∀ p ∈ resolve dir path, IsName p := by
  refine isName_follow (no_slash_of_mem_splitOn path) _ ?_
  split
  · exact fun p hp => absurd hp not_mem_nil
  · exact h

theorem resolve_render (h : ∀ p ∈ names, IsName p) (dir : List (List Char)) :
    resolve dir (render names) = names := by
  have hslash : (render names).head? = some '/' := rfl
  rw [resolve, if_pos hslash, follow_render h, nil_append]

theorem resolve_resolve (hp : p ≠ []) (hpart : part.head? ≠ some '/') (dir : List (List Char)) :
    resolve (resolve dir p) part = resolve dir (p ++ '/' :: part) := by
  rw [resolve, if_neg hpart, resolve, resolve, head?_append_of_ne_nil p hp, follow_append_slash]

theorem resolve_join (h : ∀ p ∈ names, IsName p) (dir : List (List Char)) :
    resolve dir (['/'].intercalate names) = dir ++ names := by
  rw [resolve, if_neg (head_join_ne_slash h), follow_join h]

/-! ## Slashes at the end -/

theorem trimEnd_concat_slash (path : List Char) : trimEnd (path ++ ['/']) = trimEnd path :=
  rdropWhile_concat_pos _ _ _ rfl

theorem trimEnd_concat (hc : c ≠ '/') (path : List Char) :
    trimEnd (path ++ [c]) = path ++ [c] :=
  rdropWhile_concat_neg _ _ _ fun h => hc (of_decide_eq_true h)

theorem trimEnd_append_slashes (path : List Char) :
    ∃ n, path = trimEnd path ++ List.replicate n '/' := by
  induction path using List.reverseRecOn with
  | nil => exact ⟨0, rfl⟩
  | append_singleton _ c ih =>
    by_cases hc : c = '/'
    · rcases ih with ⟨n, hn⟩
      refine ⟨n + 1, ?_⟩
      rw [hc, trimEnd_concat_slash, replicate_succ', ← append_assoc]
      exact congrArg (· ++ ['/']) hn
    refine ⟨0, ?_⟩
    rw [trimEnd_concat hc]
    exact (append_nil _).symm

theorem follow_replicate_slash (stack : List (List Char)) (n : Nat) :
    follow stack ((List.replicate n '/').splitOn '/') = stack := by
  induction n with
  | zero => exact push_empty stack
  | succ n ih => rw [replicate_succ, follow_slash_cons, ih]

theorem follow_trimEnd (stack : List (List Char)) (path : List Char) :
    follow stack ((trimEnd path).splitOn '/') = follow stack (path.splitOn '/') := by
  rcases trimEnd_append_slashes path with ⟨n, hn⟩
  cases n with
  | zero =>
    rw [replicate_zero, append_nil] at hn
    rw [← hn]
  | succ => conv_rhs => rw [hn, replicate_succ, follow_append_slash, follow_replicate_slash]

theorem follow_of_notMem (h : ['.', '.'] ∉ parts) (stack : List (List Char)) :
    follow stack parts = stack ++ parts.filter fun p => p ≠ [] ∧ p ≠ ['.'] := by
  induction parts generalizing stack with
  | nil => exact (append_nil stack).symm
  | cons part parts ih =>
    have hpart := ne_of_not_mem_cons h
    rw [follow_cons, ih (not_mem_of_not_mem_cons h), push, filter_cons]
    by_cases hskip : part = [] ∨ part = ['.']
    · rw [if_pos hskip, if_neg (by simpa [or_iff_not_imp_left] using hskip)]
    · rw [if_neg hskip, if_neg hpart.symm, if_pos (by simpa [not_or] using hskip), append_assoc]
      rfl

theorem resolve_of_notMem {path : List Char} (h : ['.', '.'] ∉ path.splitOn '/')
    (dir : List (List Char)) : resolve dir path =
      (if path.head? = some '/' then [] else dir) ++ follow [] (path.splitOn '/') := by
  rw [resolve, follow_of_notMem h, follow_of_notMem h, nil_append]

/-! ## Climbing out of a stack -/

/-- A `..` among the parts meets the empty stack. -/
def Climbs : List (List Char) → List (List Char) → Prop
  | _, [] => False
  | stack, part :: parts => (stack = [] ∧ part = ['.', '.']) ∨ Climbs (push stack part) parts

theorem push_append (h : ¬ (stack = [] ∧ part = ['.', '.'])) :
    push (base ++ stack) part = base ++ push stack part := by
  unfold push
  split
  · rfl
  split
  next hdotdot => exact dropLast_append_of_ne_nil fun hnil => h ⟨hnil, hdotdot⟩
  · exact append_assoc ..

theorem follow_append_of_not_climbs :
    ∀ stack, ¬ Climbs stack parts → follow (base ++ stack) parts = base ++ follow stack parts := by
  induction parts with
  | nil => exact fun stack _ => rfl
  | cons _ _ ih =>
    intro stack h
    rw [follow_cons, push_append fun hc => h (.inl hc), ih _ fun hc => h (.inr hc), follow_cons]

/-- Two stacks of which the first is behind by some of the names it had
    underneath: it never catches up. -/
theorem behind_push {d : Nat} {host : List (List Char)} (hd : 0 < d ∧ d ≤ m)
    (hlen : host.length + d = m + stack.length) (part : List Char) :
    ∃ d', (0 < d' ∧ d' ≤ m) ∧ (push host part).length + d' = m + (push stack part).length := by
  unfold push
  split
  · exact ⟨d, hd, hlen⟩
  split
  · rw [length_dropLast, length_dropLast]
    -- The stack is empty while names from underneath are left: one more is gone.
    by_cases hmore : stack.length = 0 ∧ 0 < host.length
    · exact ⟨d + 1, by omega, by omega⟩
    · exact ⟨d, hd, by omega⟩
  · rw [length_append, length_append]
    exact ⟨d, hd, by simp only [length_singleton]; omega⟩

theorem behind_follow :
    ∀ {d : Nat} {host stack : List (List Char)}, 0 < d ∧ d ≤ m →
      host.length + d = m + stack.length →
      (follow host parts).length < m + (follow stack parts).length := by
  induction parts with
  | nil =>
    intro d host stack hd hlen
    rw [follow_nil, follow_nil]
    omega
  | cons part _ ih =>
    intro d host stack hd hlen
    rcases behind_push hd hlen part with ⟨d', hd', hlen'⟩
    exact ih hd' hlen'

theorem follow_append_of_climbs (hbase : base ≠ []) : ∀ stack, Climbs stack parts →
      (follow (base ++ stack) parts).length < base.length + (follow stack parts).length := by
  induction parts with
  | nil => exact fun stack h => absurd h id
  | cons part parts ih =>
    intro stack h
    by_cases hnow : stack = [] ∧ part = ['.', '.']
    · rcases hnow with ⟨rfl, rfl⟩
      have hpos := length_pos_iff.mpr hbase
      have hlen : (push (base ++ []) ['.', '.']).length + 1 =
          base.length + (push [] ['.', '.']).length := by
        rw [append_nil]
        change base.dropLast.length + 1 = base.length + 0
        rw [length_dropLast]
        omega
      rw [follow_cons, follow_cons]
      exact behind_follow ⟨Nat.one_pos, hpos⟩ hlen
    · rw [follow_cons, push_append hnow, follow_cons]
      exact ih _ (h.resolve_left hnow)

/-- A stack underneath is left alone exactly when there is none or the parts do
    not climb out of the stack on top of it. -/
theorem follow_append_iff :
    follow (base ++ stack) parts = base ++ follow stack parts ↔
      base = [] ∨ ¬ Climbs stack parts := by
  constructor
  · intro h
    by_cases hbase : base = []
    · exact .inl hbase
    refine .inr fun hclimbs => ?_
    have hlt := follow_append_of_climbs hbase stack hclimbs
    rw [h, length_append] at hlt
    exact Nat.lt_irrefl _ hlt
  · rintro (rfl | h)
    · rfl
    · exact follow_append_of_not_climbs stack h

/-! ## The name a path ends under -/

theorem climbs_concat : ∀ stack : List (List Char), Climbs stack (parts ++ [part]) ↔
      Climbs stack parts ∨ (follow stack parts = [] ∧ part = ['.', '.']) := by
  induction parts with
  | nil => exact fun stack => by simp [Climbs]
  | cons _ _ ih => exact fun stack => by simp [Climbs, ih, or_assoc]

theorem dotdot_push_singleton (name : List Char) : push [name] ['.', '.'] = [] := by
  rfl

theorem prefix_of_prefix_push (hne : stack ≠ [])
    (h : [name] <+: push stack part) : [name] <+: stack := by
  unfold push at h
  split at h
  · exact h
  split at h
  · exact h.trans (List.dropLast_prefix stack)
  cases stack with
  | nil => exact absurd rfl hne
  | cons => simpa using h

/-- Parts end at a name or below it exactly when the last time they pass the
    empty stack this name comes next, and the rest does not climb out of it. -/
theorem prefix_follow_iff (hname : IsName name) :
    [name] <+: follow [] parts ↔
      ∃ front back, parts = front ++ name :: back ∧ follow [] front = [] ∧ ¬ Climbs [] back := by
  have hback : ∀ front back, follow [] front = [] → ¬ Climbs [] back →
      follow [] (front ++ name :: back) = name :: follow [] back := by
    intro front back hfront h
    rw [follow_append, hfront, follow_cons, push_name hname]
    change follow ([name] ++ []) back = [name] ++ follow [] back
    exact follow_append_of_not_climbs [] h
  constructor
  · induction parts using List.reverseRecOn with
    | nil => exact fun h => absurd (prefix_nil.mp h) (by simp)
    | append_singleton parts part ih =>
      intro h
      rw [follow_append] at h
      change [name] <+: push (follow [] parts) part at h
      by_cases hnil : follow [] parts = []
      · have hpart : part = name := by
          rw [hnil] at h
          unfold push at h
          split at h
          · simp at h
          · split at h <;> simp_all
        exact ⟨parts, [], by rw [hpart], hnil, id⟩
      rcases ih (prefix_of_prefix_push hnil h) with ⟨front, back, rfl, hfront, hclimbs⟩
      refine ⟨front, back ++ [part], by simp, hfront, fun hc => ?_⟩
      rcases (climbs_concat []).mp hc with hback' | ⟨hempty, rfl⟩
      · exact hclimbs hback'
      -- Only the name is left, and `..` takes it away.
      · rw [hback front back hfront hclimbs, hempty, dotdot_push_singleton] at h
        simp at h
  · rintro ⟨front, back, rfl, hfront, h⟩
    rw [hback front back hfront h]
    exact ⟨_, rfl⟩

end LindGrates.Lexical
