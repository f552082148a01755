import LindGrates.Base.Beginnings
import LindGrates.Theory.Utf8

/-!
# Paths as Bytes

To a kernel a path is bytes, and its parts are what stands between the bytes 47. A
program that first reads the bytes as UTF-8 and then looks for slashes finds the same
parts, since no other character has that byte in its encoding.

## Main definitions

* `bytePath`, `byteName`: Bytes and the bytes of a text, with one character for each.

## Theorems

* `splitOn_byteName`: The parts are the same.
* `resolve_byteName`: So is where a path leads.
-/

namespace LindGrates

open Lexical List

/-- A path of bytes, with one character for each. -/
def bytePath (bytes : List UInt8) : Str :=
  bytes.map fun b => Char.ofNat b.toNat

/-- The bytes of a text, with one character for each. -/
def byteName (name : Str) : Str :=
  bytePath name.bytes

theorem toNat_byteChar (b : UInt8) : (Char.ofNat b.toNat).toNat = b.toNat := by
  have hvalid : b.toNat.isValidChar := .inl (by have := b.toNat_lt; omega)
  rw [Char.ofNat, dif_pos hvalid]
  rfl

theorem bytePath_injective {bs cs : List UInt8} (h : bytePath bs = bytePath cs) : bs = cs := by
  refine map_injective_iff.mpr ?_ h
  intro b c hbc
  have hnat := congrArg Char.toNat hbc
  simp only [toNat_byteChar] at hnat
  exact UInt8.toNat_inj.mp hnat

theorem byteName_injective : Function.Injective byteName := by
  intro a b h
  have hbytes := congrArg fromUtf8Lossy (bytePath_injective h)
  rw [fromUtf8Lossy_bytes, fromUtf8Lossy_bytes] at hbytes
  exact hbytes

theorem byteName_append (a b : Str) : byteName (a ++ b) = byteName a ++ byteName b := by
  rw [byteName, bytes_append, bytePath, map_append]
  rfl

theorem slash_mem_byteName {name : Str} (h : '/' ∈ byteName name) : '/' ∈ name := by
  rcases mem_map.mp h with ⟨b, hb, hslash⟩
  rcases mem_flatMap.mp hb with ⟨c, hc, hmem⟩
  have hbyte : b.toNat = 47 := by
    rw [← toNat_byteChar, hslash]
    rfl
  have hchar : c.toNat = 47 := by
    rw [toNat_eq_of_mem_encode (by omega) hmem, hbyte]
  have heq : c = '/' := Char.ext (UInt32.toNat_inj.mp hchar)
  exact heq ▸ hc

theorem byteName_join (parts : List Str) :
    byteName (['/'].intercalate parts) = ['/'].intercalate (parts.map byteName) := by
  induction parts with
  | nil => rfl
  | cons _ parts ih =>
    by_cases h : parts = []
    · rw [h, map_cons, map_nil, intercalate_singleton, intercalate_singleton]
    · rw [join_cons h, map_cons, join_cons (map_eq_nil_iff.not.mpr h), byteName_append, ← ih]
      rfl

theorem splitOn_byteName (path : Str) :
    (byteName path).splitOn '/' = (path.splitOn '/').map byteName := by
  have hslash : ∀ part ∈ (path.splitOn '/').map byteName, '/' ∉ part := by
    intro part hpart hmem
    rcases mem_map.mp hpart with ⟨text, htext, rfl⟩
    exact no_slash_of_mem_splitOn path text htext (slash_mem_byteName hmem)
  have hne : (path.splitOn '/').map byteName ≠ [] :=
    map_eq_nil_iff.not.mpr (splitOn_ne_nil _ _)
  rw [← splitOn_intercalate '/' hslash hne, ← byteName_join, intercalate_splitOn]

theorem push_byteName (stack : List Str) (part : Str) :
    push (stack.map byteName) (byteName part) = (push stack part).map byteName := by
  have hdot : byteName part = ['.'] ↔ part = ['.'] :=
    byteName_injective.eq_iff' rfl
  have hdots : byteName part = ['.', '.'] ↔ part = ['.', '.'] :=
    byteName_injective.eq_iff' rfl
  have hnil : byteName part = [] ↔ part = [] :=
    byteName_injective.eq_iff' rfl
  simp only [push, hdot, hdots, hnil]
  split
  · rfl
  split
  · rw [map_dropLast]
  · rw [map_append]
    rfl

theorem follow_byteName (stack parts : List Str) :
    follow (stack.map byteName) (parts.map byteName) = (follow stack parts).map byteName := by
  induction parts generalizing stack with
  | nil => rfl
  | cons _ _ ih => rw [map_cons, follow_cons, push_byteName, ih, follow_cons]

theorem head_byteName (path : Str) : (byteName path).head? = some '/' ↔ path.head? = some '/' := by
  rcases path with _ | ⟨c, path⟩
  · rfl
  constructor
  · intro h
    have hmem : '/' ∈ byteName [c] := by
      have hne : byteName [c] ≠ [] := byteName_injective.ne (cons_ne_nil c [])
      rw [show c :: path = [c] ++ path from rfl, byteName_append,
        List.head?_append_of_ne_nil _ hne] at h
      exact mem_of_head? h
    rw [mem_singleton.mp (slash_mem_byteName hmem)]
    rfl
  · intro h
    cases h
    rfl

theorem resolve_byteName (dir : List Str) (path : Str) :
    resolve (dir.map byteName) (byteName path) = (resolve dir path).map byteName := by
  simp only [resolve, splitOn_byteName, head_byteName]
  split
  · exact follow_byteName [] _
  · exact follow_byteName dir _

theorem map_byteName_prefix_iff {place file : List Str} :
    place.map byteName <+: file.map byteName ↔ place <+: file := by
  constructor
  · intro h
    rcases prefix_map_iff.mp h with ⟨l, hl, hmap⟩
    rwa [map_injective_iff.mpr byteName_injective hmap]
  · exact fun h => h.map byteName

end LindGrates
