import LindGrates.Core.Resource.Config
import LindGrates.Theory.Utf8
import Mathlib.Data.Finset.Lattice.Lemmas

/-!
# Which Limits are in Force

What a file states is told without the parser. A text is its lines, joined by
line feeds; a line may state a value, in three words before a comment; of each
rate and each limit the last value counts, and of the lists of ports all of them.

The parser finds just these statements in a text. But the text is what one `read`
returned. If that is not the whole file, lines are missing or a value is cut
short, and nothing tells: of the files of any length that is not read whole, one
states a limit in its last line that is not in force.

## Main definitions

* `States`: A line that states a value.
* `Says`, `Statements`: What lines and what a text state, in order.
* `stated`: The limits that follow from the statements.

## Theorems

* `directive_eq_iff`: The parser finds the statement of a line.
* `statements_iff`: It finds the statements of a text.
* `limits_loaded_iff`: The files of a length are loaded right exactly when they are read whole.
-/

namespace LindGrates.Resource

open Function List Option

/-- The limits in force, by the names of the resources. -/
@[ext]
structure Limits (F : Type) where
  rate : Str → Option F
  limit : Str → Option Nat
  ports : Str → Option (Finset Nat)

/-- A line states a value for a name: the three words are written on it, and what
    follows is a comment or nothing. -/
def States (line : Str) (d : Str × Str) : Prop :=
  ∃ text comment, line = text ++ comment ∧ '#' ∉ text ∧
    (comment = [] ∨ comment.head? = some '#') ∧
    Written isWhitespace ["resource".toList, d.1, d.2] text

/-- What lines state, in their order. A line that states nothing is ignored. -/
inductive Says : List Str → List (Str × Str) → Prop
  | nil : Says [] []
  | stated {line : Str} {d : Str × Str} {ls : List Str} {ds : List (Str × Str)}
      (h : States line d) (hrest : Says ls ds) : Says (line :: ls) (d :: ds)
  | ignored {line : Str} {ls : List Str} {ds : List (Str × Str)}
      (h : ∀ d, ¬ States line d) (hrest : Says ls ds) : Says (line :: ls) ds

/-- What a text states: it is its lines, joined by line feeds. -/
def Statements (content : Str) (ds : List (Str × Str)) : Prop :=
  ∃ ls, ls ≠ [] ∧ (∀ line ∈ ls, '\n' ∉ line) ∧ ['\n'].intercalate ls = content ∧ Says ls ds

variable {F V τ : Type}

/-- The limits the grate goes by. -/
def NannyState.limits (nanny : NannyState F τ) : Limits F where
  rate name := (nanny.renewable name).map Prod.fst
  limit name := (nanny.fungible name).map Fungible.limit
  ports := nanny.individual

/-- The value on the last line that names a resource. -/
def lastOf (names : List Str) (parse : Str → Option V) (ds : List (Str × Str)) (name : Str) :
    Option V :=
  if names.contains name then (ds.filter (·.1 = name)).getLast?.bind fun d => parse d.2 else none

/-- The ports on all lines that name a resource. -/
def portsOf (ds : List (Str × Str)) (name : Str) : Option (Finset Nat) :=
  let mine := ds.filter (·.1 = name)
  if individualResources.contains name ∧ mine ≠ [] then
    some (mine.filterMap fun d => parseUnsigned u16Bound d.2).toFinset
  else none

variable (parseF64 : Str → Option F)

/-- The limits that follow from statements. -/
def stated (ds : List (Str × Str)) : Limits F :=
  ⟨lastOf renewableResources parseF64 ds, lastOf fungibleResources (parseUnsigned usizeBound) ds,
    portsOf ds⟩

/-- A statement about a resource has a value of the resource's type. -/
def Readable (d : Str × Str) : Prop :=
  if renewableResources.contains d.1 then parseF64 d.2 ≠ none
  else if fungibleResources.contains d.1 then parseUnsigned usizeBound d.2 ≠ none
  else if individualResources.contains d.1 then parseUnsigned u16Bound d.2 ≠ none
  else d.1 = "memory".toList ∨ d.1 = "diskused".toList → parseUnsigned u64Bound d.2 ≠ none

variable {parseF64} {ds : List (Str × Str)} {d : Str × Str} {c : ResourceConfig F}
  {names : List Str} {parse : Str → Option V}

/-! ## Lines and statements -/

/-- Blanks at the ends of a line make no difference. -/
theorem words_trim (line : Str) :
    words isWhitespace ((line.dropWhile isWhitespace).rdropWhile isWhitespace) =
      words isWhitespace line := by
  have hfront : ∀ c ∈ line.takeWhile isWhitespace, isWhitespace c = true := fun c =>
    mem_takeWhile_imp
  have hback : ∀ c ∈ (line.dropWhile isWhitespace).rtakeWhile isWhitespace,
      isWhitespace c = true := fun c => mem_rtakeWhile_imp
  rw [← words_append_gap hback, rdropWhile_append_rtakeWhile, ← words_gap_append hfront,
    takeWhile_append_dropWhile]

theorem directive_eq_some_iff {line : Str} :
    directive line = some d ↔
      words isWhitespace (line.takeWhile (· ≠ '#')) = ["resource".toList, d.1, d.2] := by
  unfold directive
  dsimp only
  rw [words_trim]
  constructor
  · intro h
    repeat' split at h
    all_goals cases h
    rename_i hwords hfirst
    rw [hwords, hfirst]
  · intro h
    rw [h]
    exact if_pos rfl

/-- The parser finds the statement of a line, if there is one. -/
theorem directive_eq_iff {line : Str} : directive line = some d ↔ States line d := by
  rw [directive_eq_some_iff, words_eq_iff]
  constructor
  · intro h
    refine ⟨_, line.dropWhile (· ≠ '#'), takeWhile_append_dropWhile.symm, fun hmem => ?_, ?_, h⟩
    · exact absurd (mem_takeWhile_imp hmem) (by decide)
    · rcases hrest : line.dropWhile (· ≠ '#') with _ | ⟨c, rest⟩
      · exact .inl rfl
      have hc := head_dropWhile_not (· ≠ '#') (hrest ▸ cons_ne_nil c rest)
      simp only [hrest, head_cons] at hc
      exact .inr (by simpa using hc)
  · rintro ⟨text, comment, rfl, htext, hcomment, h⟩
    have hkept : ∀ c ∈ text, decide (c ≠ '#') = true := fun c hc =>
      decide_eq_true fun heq => htext (heq ▸ hc)
    rw [takeWhile_append_of_pos hkept]
    rcases comment with _ | ⟨c, comment⟩
    · rwa [takeWhile_nil, append_nil]
    rw [some.inj (hcomment.resolve_left (cons_ne_nil c comment))]
    rwa [takeWhile_cons_of_neg (by decide), append_nil]

theorem says_iff {ls : List Str} : Says ls ds ↔ ls.filterMap directive = ds := by
  constructor
  · intro h
    induction h with
    | nil => rfl
    | stated h _ ih => rw [filterMap_cons_some (directive_eq_iff.mpr h), ih]
    | ignored h _ ih =>
      rw [filterMap_cons_none (eq_none_iff_forall_not_mem.mpr fun d hd =>
        h d (directive_eq_iff.mp hd)), ih]
  · intro h
    induction ls generalizing ds with
    | nil =>
      rw [← h]
      exact .nil
    | cons line ls ih =>
      rw [← h]
      rcases hline : directive line with _ | d
      · rw [filterMap_cons_none hline]
        refine .ignored (fun d hd => ?_) (ih rfl)
        cases hline.symm.trans (directive_eq_iff.mpr hd)
      · rw [filterMap_cons_some hline]
        exact .stated (directive_eq_iff.mp hline) (ih rfl)

theorem directive_dropLast {line : Str} (h : line.getLast? = some '\r') :
    directive line.dropLast = directive line := by
  have hline := dropLast_append_getLast? _ h
  have hwords : words isWhitespace (line.dropLast.takeWhile (· ≠ '#')) =
      words isWhitespace (line.takeWhile (· ≠ '#')) := by
    conv_rhs => rw [← hline, takeWhile_append]
    split
    next hall =>
      rw [( takeWhile_prefix _).eq_of_length hall]
      refine (words_append_gap (fun c hc => ?_) _).symm
      rw [mem_singleton.mp hc]
      decide
    · rfl
  refine ext fun d => ?_
  rw [directive_eq_some_iff, hwords, ← directive_eq_some_iff]

/-- The parser's lines state what the pieces between line feeds state. -/
theorem directives_eq (content : Str) :
    directives content = (content.splitOn '\n').filterMap directive := by
  have hne : content.splitOn '\n' ≠ [] := splitOn_ne_nil _ _
  have hstrip : directive ∘ (fun l => if l.getLast? = some '\r' then l.dropLast else l) =
      directive := by
    funext l
    dsimp only [comp_apply]
    split
    next h => exact directive_dropLast h
    · rfl
  unfold directives lines
  dsimp only
  rw [filterMap_append, filterMap_map, hstrip, getLast?_eq_some_getLast hne, getD_some]
  conv_rhs => rw [← dropLast_append_getLast hne, filterMap_append]
  congr 1
  split
  next hlast =>
    rw [hlast]
    rfl
  · rfl

/-- The parser finds the statements of a text. -/
theorem statements_iff {content : Str} : Statements content ds ↔ directives content = ds := by
  rw [directives_eq, ← says_iff]
  constructor
  · rintro ⟨ls, hne, hlines, rfl, h⟩
    rwa [splitOn_intercalate '\n' hlines hne]
  · intro h
    refine ⟨_, splitOn_ne_nil _ _, fun line hline hmem => ?_, intercalate_splitOn '\n', h⟩
    exact (mem_splitOn line hline '\n' hmem).2 rfl

/-! ## The limits -/

theorem filter_concat_of_ne {name : Str} (h : name ≠ d.1) :
    (ds ++ [d]).filter (·.1 = name) = ds.filter (·.1 = name) := by
  simp [filter_append, h.symm]

theorem lastOf_concat {v : V} (hd : d.1 ∈ names) (hv : parse d.2 = some v) :
    lastOf names parse (ds ++ [d]) = update (lastOf names parse ds) d.1 (some v) := by
  funext name
  by_cases heq : name = d.1
  · simp [heq, lastOf, hd, hv]
  · rw [update_of_ne heq, lastOf, filter_concat_of_ne heq, lastOf]

theorem lastOf_other (hd : d.1 ∉ names) :
    lastOf names parse (ds ++ [d]) = lastOf names parse ds := by
  funext name
  by_cases heq : name = d.1
  · simp [heq, lastOf, hd]
  · rw [lastOf, filter_concat_of_ne heq, lastOf]

theorem portsOf_concat {v : Nat} (hd : d.1 ∈ individualResources)
    (hv : parseUnsigned u16Bound d.2 = some v) : portsOf (ds ++ [d]) =
      update (portsOf ds) d.1 (some (insert v ((portsOf ds d.1).getD ∅))) := by
  funext name
  by_cases heq : name = d.1
  · rw [heq, update_self]
    by_cases hnil : ds.filter (·.1 = d.1) = []
    · simp [portsOf, filter_append, hd, hv, hnil]
    · have hmem : individualResources.contains d.1 = true := List.contains_iff_mem.mpr hd
      have hown : [d].filter (·.1 = d.1) = [d] := by simp
      have hlast : [d].filterMap (fun d => parseUnsigned u16Bound d.2) = [v] := by simp [hv]
      simp only [portsOf, filter_append, hown, hmem, hnil, ne_eq, append_eq_nil_iff, false_and,
        not_false_eq_true, and_self, if_true, filterMap_append, hlast, toFinset_append,
        getD_some]
      rw [Finset.union_comm]
      rfl
  · rw [update_of_ne heq, portsOf, filter_concat_of_ne heq, portsOf]

theorem portsOf_other (hd : d.1 ∉ individualResources) : portsOf (ds ++ [d]) = portsOf ds := by
  funext name
  by_cases heq : name = d.1
  · simp [heq, portsOf, hd]
  · rw [portsOf, filter_concat_of_ne heq, portsOf]

/-- The kinds of resources have no name in common. -/
theorem kinds_disjoint : (∀ name ∈ renewableResources, name ∉ fungibleResources ∧
    name ∉ individualResources) ∧ ∀ name ∈ fungibleResources, name ∉ individualResources := by
  decide +kernel

/-- A line whose value can be read is entered, and no other. -/
theorem insert_cases (h : stated parseF64 ds = ⟨c.renewable, c.fungible, c.individual⟩) :
    (¬ Readable parseF64 d ∧ c.insert parseF64 d = .error .panic) ∨
    Readable parseF64 d ∧ ∃ c', c.insert parseF64 d = .ok c' ∧
      stated parseF64 (ds ++ [d]) = ⟨c'.renewable, c'.fungible, c'.individual⟩ := by
  rcases Limits.mk.inj h with ⟨hrate, hlimit, hports⟩
  unfold Readable ResourceConfig.insert stated
  simp only [List.contains_iff_mem]
  -- the kinds are tried in the order of the source
  by_cases hr : d.1 ∈ renewableResources
  · rcases kinds_disjoint.1 d.1 hr with ⟨hf, hi⟩
    rw [if_pos hr, if_pos hr]
    rcases hv : parseF64 d.2 with _ | v
    · exact .inl ⟨not_not.mpr rfl, rfl⟩
    rw [lastOf_concat hr hv, lastOf_other hf, portsOf_other hi, hrate, hlimit, hports]
    exact .inr ⟨some_ne_none v, _, rfl, rfl⟩
  rw [if_neg hr, if_neg hr, lastOf_other hr, hrate]
  by_cases hf : d.1 ∈ fungibleResources
  · rw [if_pos hf, if_pos hf]
    rcases hv : parseUnsigned usizeBound d.2 with _ | v
    · exact .inl ⟨not_not.mpr rfl, rfl⟩
    rw [lastOf_concat hf hv, portsOf_other (kinds_disjoint.2 d.1 hf), hlimit, hports]
    exact .inr ⟨some_ne_none v, _, rfl, rfl⟩
  rw [if_neg hf, if_neg hf, lastOf_other hf, hlimit]
  by_cases hi : d.1 ∈ individualResources
  · rw [if_pos hi, if_pos hi]
    rcases hv : parseUnsigned u16Bound d.2 with _ | v
    · exact .inl ⟨not_not.mpr rfl, rfl⟩
    rw [portsOf_concat hi hv, hports]
    exact .inr ⟨some_ne_none v, _, rfl, rfl⟩
  rw [if_neg hi, if_neg hi, portsOf_other hi, hports]
  by_cases hm : d.1 = "memory".toList ∨ d.1 = "diskused".toList
  · rw [if_pos hm]
    rcases hv : parseUnsigned u64Bound d.2 with _ | v
    · exact .inl ⟨fun hread => hread hm rfl, rfl⟩
    · exact .inr ⟨fun _ => some_ne_none v, _, rfl, rfl⟩
  · rw [if_neg hm]
    exact .inr ⟨fun hc => absurd hc hm, c, rfl, rfl⟩

variable (parseF64) in
/-- The loop over the lines, by induction from the last. -/
theorem foldlM_cases (ds : List (Str × Str)) :
    let result := ds.foldlM (ResourceConfig.insert parseF64)
      ⟨fun _ => none, fun _ => none, fun _ => none, fun _ => none⟩
    (¬ (∀ d ∈ ds, Readable parseF64 d) ∧ result = .error .panic) ∨
    (∀ d ∈ ds, Readable parseF64 d) ∧ ∃ c, result = .ok c ∧
      stated parseF64 ds = ⟨c.renewable, c.fungible, c.individual⟩ := by
  induction ds using List.reverseRecOn with
  | nil =>
    refine .inr ⟨forall_mem_nil _, _, rfl, ?_⟩
    ext1 <;> funext <;> simp [stated, lastOf, portsOf]
  | append_singleton ds d ih =>
    simp only [foldlM_append, foldlM_cons, foldlM_nil, bind_pure, forall_mem_append,
      forall_mem_singleton]
    rcases ih with ⟨hno, hrun⟩ | ⟨hall, c, hrun, hc⟩
    all_goals rw [hrun]
    · exact .inl ⟨fun h => hno h.1, rfl⟩
    rcases insert_cases (d := d) hc with ⟨hno, hins⟩ | ⟨hread, c', hins, hc'⟩
    · exact .inl ⟨fun h => hno h.2, hins⟩
    · exact .inr ⟨⟨hall, hread⟩, c', hins, hc'⟩

variable (parseF64) in
/-- What is in force after a file was read is what the bytes state that `read`
    returned. -/
theorem parseFile_cases [Zero F] (file : List UInt8) (n : Nat) (now : τ) :
    let ds := directives (fromUtf8Lossy ((file.take bufSize).take n))
    (¬ (∀ d ∈ ds, Readable parseF64 d) ∧ parseFile parseF64 file n = .error .panic) ∨
    (∀ d ∈ ds, Readable parseF64 d) ∧ ∃ c, parseFile parseF64 file n = .ok c ∧
      (fromConfig now c).limits = stated parseF64 ds := by
  have hparse : parseFile parseF64 file n =
      parse parseF64 (fromUtf8Lossy ((file.take bufSize).take n)) := by
    rw [parseFile, if_neg (Int.not_lt.mpr (Int.natCast_nonneg n)), Int.toNat_natCast]
  rw [hparse, parse]
  refine (foldlM_cases parseF64 _).imp_right fun h => ⟨h.1, ?_⟩
  rcases h.2 with ⟨c, hrun, hc⟩
  refine ⟨c, hrun, ?_⟩
  rw [hc]
  simp [NannyState.limits, fromConfig, comp_def]

/-! ## A file that is not read whole -/

/-- The shortest line that states a limit. -/
def lastLine : Str :=
  "resource events 1".toList

/-- A file of the given length, at least 17, with that line at its end. -/
def lastLineFile (len : Nat) : List UInt8 :=
  replicate (len - 17) 10 ++ lastLine.bytes

theorem directives_newlines (k : Nat) (content : Str) :
    directives (replicate k '\n' ++ content) = directives content := by
  induction k with
  | zero => rfl
  | succ k ih =>
    have hsplit : ('\n' :: (replicate k '\n' ++ content)).splitOn '\n' =
        [] :: (replicate k '\n' ++ content).splitOn '\n' :=
      (splitOn_cons_eq_if_modifyHead ..).trans (if_pos rfl)
    rw [replicate_succ, cons_append, directives_eq, hsplit, ← ih, directives_eq]
    rfl

/-- The bytes up to a cut are line feeds and the beginning of the line. -/
theorem directives_take (len n : Nat) :
    directives (fromUtf8Lossy ((lastLineFile len).take n)) =
      directives (lastLine.take (n - (len - 17))) := by
  have hfeeds : ∀ k, replicate k (10 : UInt8) = Str.bytes (replicate k '\n') := by
    intro k
    induction k with
    | zero => rfl
    | succ k ih =>
      rw [replicate_succ, ih, replicate_succ, bytes_cons]
      rfl
  have hline : ∀ j, lastLine.bytes.take j = Str.bytes (lastLine.take j) := by
    intro j
    by_cases hj : j < 18
    · exact (by decide +kernel :
        ∀ j < 18, lastLine.bytes.take j = Str.bytes (lastLine.take j)) j hj
    · have hlen : lastLine.bytes.length = 17 ∧ lastLine.length = 17 := by decide +kernel
      rw [take_of_length_le (by omega), take_of_length_le (by omega)]
  rw [lastLineFile, take_append, length_replicate, take_replicate, hfeeds, hline, ← bytes_append,
    fromUtf8Lossy_bytes, directives_newlines]

/-- Of the files of a length, all are loaded right whose values can be read exactly
    when `read` returns the whole file. -/
theorem limits_loaded_iff [Zero F] {len n : Nat} (hlen : 17 ≤ len) (hn : n ≤ len)
    (hbuf : n ≤ bufSize) (now : τ) :
    (∀ file : List UInt8, file.length = len → ∀ ds, Statements (fromUtf8Lossy file) ds →
      (∀ d ∈ ds, Readable parseF64 d) →
        ∃ c, parseFile parseF64 file n = .ok c ∧
          (fromConfig now c).limits = stated parseF64 ds) ↔ n = len := by
  constructor
  · intro hall
    by_contra hne
    have hwhole : (lastLineFile len).length = len := by
      have hline : lastLine.bytes.length = 17 := by decide +kernel
      rw [lastLineFile, length_append, length_replicate, hline]
      omega
    -- the file states a limit, and the bytes that are returned state nothing
    have hstated : directives (fromUtf8Lossy (lastLineFile len)) =
        [("events".toList, "1".toList)] := by
      have htake := directives_take len len
      rw [take_of_length_le hwhole.le, show len - (len - 17) = 17 by omega] at htake
      rw [htake]
      decide +kernel
    have hcut : directives (fromUtf8Lossy (((lastLineFile len).take bufSize).take n)) = [] := by
      rw [take_take, Nat.min_eq_left hbuf, directives_take]
      exact (by decide +kernel : ∀ j < 17, directives (lastLine.take j) = []) _ (by omega)
    have hreadable : Readable parseF64 ("events".toList, "1".toList) := by
      rw [Readable, if_neg (by decide +kernel), if_pos (by decide +kernel)]
      decide +kernel
    rcases hall _ hwhole _ (statements_iff.mpr hstated) (forall_mem_singleton.mpr hreadable)
      with ⟨c, hc, hlimits⟩
    rcases parseFile_cases parseF64 (lastLineFile len) n now
      with ⟨hno, _⟩ | ⟨_, c', hc', hlimits'⟩
    · rw [hcut] at hno
      exact hno (forall_mem_nil _)
    cases hc.symm.trans hc'
    rw [hcut, hlimits] at hlimits'
    have hevents : lastOf fungibleResources (parseUnsigned usizeBound)
          [("events".toList, "1".toList)] "events".toList =
        lastOf fungibleResources (parseUnsigned usizeBound) [] "events".toList :=
      congrFun (congrArg Limits.limit hlimits') "events".toList
    exact absurd hevents (by decide +kernel)
  · rintro rfl file rfl ds hds hreadable
    have htake : (file.take bufSize).take file.length = file := by
      rw [take_of_length_le hbuf, take_length]
    rcases parseFile_cases parseF64 file file.length now with ⟨hno, _⟩ | ⟨_, c, hc⟩
    · rw [htake, statements_iff.mp hds] at hno
      exact absurd hreadable hno
    · rw [htake, statements_iff.mp hds] at hc
      exact ⟨c, hc⟩

/-- The line itself is a file of 17 bytes. -/
theorem limits_loaded_iff_lastLine : ∃ c : ResourceConfig Nat,
    parseFile (fun _ => none) (lastLineFile 17) 17 = .ok c ∧
      (fromConfig 0 c).limits = stated (fun _ => none) [("events".toList, "1".toList)] := by
  have hds : Statements (fromUtf8Lossy (lastLineFile 17)) [("events".toList, "1".toList)] :=
    statements_iff.mpr (by decide +kernel)
  have hreadable : Readable (fun _ => (none : Option Nat)) ("events".toList, "1".toList) := by
    rw [Readable, if_neg (by decide +kernel), if_pos (by decide +kernel)]
    decide +kernel
  exact (limits_loaded_iff (by decide) (by decide) (by decide) 0).mpr rfl (lastLineFile 17)
    (by decide +kernel) _ hds (forall_mem_singleton.mpr hreadable)

/-- The file says 100, and the two zeros are not among the bytes that are returned. -/
theorem value_cut : ∃ (file : List UInt8) (n : Nat) (c : ResourceConfig Nat)
    (ds : List (Str × Str)), n ≤ bufSize ∧ n ≤ file.length ∧
      parseFile (fun _ => none) file n = .ok c ∧
      (fromConfig 0 c).limits.limit "events".toList = some 1 ∧
      Statements (fromUtf8Lossy file) ds ∧
      (stated (fun _ => (none : Option Nat)) ds).limit "events".toList = some 100 := by
  let file : List UInt8 := Str.bytes "resource events 100".toList
  have hfacts : ((parseFile (fun _ => none) file 17 : Outcome (ResourceConfig Nat)).toOption.any
      fun c => decide ((fromConfig 0 c).limits.limit "events".toList = some 1)) = true := by
    decide +kernel
  rcases hparse : (parseFile (fun _ => none) file 17 : Outcome (ResourceConfig Nat)) with _ | c
  all_goals rw [hparse] at hfacts
  · cases hfacts
  exact ⟨file, 17, c, _, by decide, by decide +kernel, hparse, of_decide_eq_true hfacts,
    statements_iff.mpr rfl, by decide +kernel⟩

end LindGrates.Resource
