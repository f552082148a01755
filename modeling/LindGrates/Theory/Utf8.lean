import LindGrates.Core.Utf8

/-!
# Reading Bytes as Text

Bytes that are not text cannot be had back from the text they are read as, with
one exception: where only so many bytes of the text are kept, the bytes may end
in what is left of a replacement character.

## Main definitions

* `CutText`: The bytes that are had back.

## Theorems

* `fromUtf8Lossy_bytes`, `bytes_fromUtf8Lossy`: Text comes back.
* `take_bytes_fromUtf8Lossy`: Which bytes do.
-/

namespace LindGrates

open List
open String (utf8EncodeChar length_utf8EncodeChar)

variable {n : Nat} {b : UInt8} {c : Char}

def replacement : Char :=
  '�'

theorem bytes_cons (c : Char) (s : Str) : Str.bytes (c :: s) = utf8EncodeChar c ++ s.bytes :=
  rfl

theorem bytes_append (s t : Str) : Str.bytes (s ++ t) = s.bytes ++ t.bytes :=
  flatMap_append

theorem bytes_replacement : utf8EncodeChar replacement = [0xEF, 0xBF, 0xBD] := by
  decide

theorem front_cases (bs : List UInt8) :
    bs = [] ∨ (∃ c rest, bs = utf8EncodeChar c ++ rest) ∨
      bs ≠ [] ∧ bs.toByteArray.utf8DecodeChar? 0 = none := by
  by_cases hnil : bs = []
  · exact .inl hnil
  rcases hdecode : bs.toByteArray.utf8DecodeChar? 0 with _ | c
  · exact .inr (.inr ⟨hnil, rfl⟩)
  rcases ByteArray.exists_of_utf8DecodeChar?_eq_some hdecode with ⟨rest, hrest⟩
  refine .inr (.inl ⟨c, rest.data.toList, ?_⟩)
  have := congrArg (fun b : ByteArray => b.data.toList) hrest
  simpa [ByteArray.data_append] using this

theorem decodeLossy_encode (n : Nat) (c : Char) (bs : List UInt8) :
    decodeLossy (n + 1) (utf8EncodeChar c ++ bs) = c :: decodeLossy n bs := by
  have hne : utf8EncodeChar c ++ bs ≠ [] :=
    append_ne_nil_of_left_ne_nil String.utf8EncodeChar_ne_nil bs
  have hdecode : (utf8EncodeChar c ++ bs).toByteArray.utf8DecodeChar? 0 = some c := by
    rw [toByteArray_append]
    exact ByteArray.utf8DecodeChar?_utf8EncodeChar_append
  have hdrop : (utf8EncodeChar c ++ bs).drop c.utf8Size = bs := by
    rw [← length_utf8EncodeChar c, drop_left]
  simp only [decodeLossy, hne, if_false, hdecode, hdrop]

variable {bs : List UInt8} {m : Nat}

theorem decodeLossy_invalid (n : Nat) (hne : bs ≠ [])
    (hdecode : bs.toByteArray.utf8DecodeChar? 0 = none) :
    decodeLossy (n + 1) bs = replacement :: decodeLossy n (bs.drop (invalidLength bs)) := by
  simp only [decodeLossy, hne, if_false, hdecode, replacement]

theorem decodeLossy_nil (n : Nat) : decodeLossy n [] = [] := by
  cases n with
  | zero | succ => rfl

theorem decodeLossy_append (s : Str) (bs : List UInt8) (n : Nat) :
    decodeLossy (s.length + n) (s.bytes ++ bs) = s ++ decodeLossy n bs := by
  induction s with
  | nil => simp [Str.bytes]
  | cons c s ih =>
    rw [bytes_cons, append_assoc, length_cons, Nat.add_right_comm, decodeLossy_encode, ih]
    rfl

theorem length_le_bytes (s : Str) : s.length ≤ s.bytes.length := by
  induction s with
  | nil => exact Nat.le_refl 0
  | cons c =>
    have hpos := c.utf8Size_pos
    rw [bytes_cons, length_append, length_utf8EncodeChar, length_cons]
    omega

theorem fromUtf8Lossy_append (s : Str) (bs : List UInt8) :
    ∃ n, bs.length ≤ n ∧ fromUtf8Lossy (s.bytes ++ bs) = s ++ decodeLossy n bs := by
  have hle := length_le_bytes s
  refine ⟨s.bytes.length + bs.length - s.length, by omega, ?_⟩
  rw [fromUtf8Lossy, ← decodeLossy_append, length_append]
  congr 1
  omega

theorem fromUtf8Lossy_bytes (s : Str) : fromUtf8Lossy s.bytes = s := by
  rcases fromUtf8Lossy_append s [] with ⟨n, _, hread⟩
  rw [append_nil, decodeLossy_nil, append_nil] at hread
  exact hread

theorem fromUtf8_eq_some_iff {s : Str} : fromUtf8 bs = some s ↔ s.bytes = bs := by
  constructor
  · intro h
    rw [fromUtf8] at h
    split at h
    next hbytes =>
      cases h
      exact hbytes
    · cases h
  · intro h
    rw [fromUtf8, ← h, fromUtf8Lossy_bytes, if_pos rfl]

theorem decodeLossy_ne_nil (hne : bs ≠ []) (hn : bs.length ≤ n) :
    decodeLossy n bs ≠ [] := by
  have hpos := length_pos_iff.mpr hne
  cases n with
  | zero => omega
  | succ n =>
    rcases front_cases bs with rfl | ⟨c, rest, rfl⟩ | ⟨_, hdecode⟩
    · exact absurd rfl hne
    · rw [decodeLossy_encode]
      exact cons_ne_nil _ _
    · rw [decodeLossy_invalid n hne hdecode]
      exact cons_ne_nil _ _

theorem zero_notMem_decodeLossy (n : Nat) :
    ∀ bs : List UInt8, (0 : UInt8) ∉ bs → (0 : UInt8) ∉ (decodeLossy n bs).bytes := by
  induction n with
  | zero =>
    intro bs _
    exact not_mem_nil
  | succ n ih =>
    intro bs hbs
    rcases front_cases bs with rfl | ⟨c, rest, rfl⟩ | ⟨hne, hdecode⟩
    · exact not_mem_nil
    · rw [mem_append, not_or] at hbs
      rw [decodeLossy_encode, bytes_cons, mem_append]
      exact not_or.mpr ⟨hbs.1, ih rest hbs.2⟩
    · rw [decodeLossy_invalid n hne hdecode, bytes_cons, bytes_replacement, mem_append]
      exact not_or.mpr ⟨by decide, ih _ fun hmem => hbs (mem_of_mem_drop hmem)⟩

theorem toNat_of_eq_ofNat (h : b = UInt8.ofNat n) (hn : n < 256) :
    b.toNat = n := by
  rw [h, UInt8.toNat_ofNat_of_lt' hn]

theorem toNat_eq_of_mem_encode (hb : b.toNat < 128)
    (h : b ∈ utf8EncodeChar c) : c.toNat = b.toNat := by
  rw [utf8EncodeChar.eq_1] at h
  repeat' split at h
  all_goals simp only [mem_cons, not_mem_nil, or_false] at h
  · exact (toNat_of_eq_ofNat h (by omega)).symm
  · rcases h with h | h <;> exact absurd (toNat_of_eq_ofNat h (by omega)) (by omega)
  · rcases h with h | h | h <;> exact absurd (toNat_of_eq_ofNat h (by omega)) (by omega)
  · rcases h with h | h | h | h <;> exact absurd (toNat_of_eq_ofNat h (by omega)) (by omega)

theorem eq_nul_of_zero_mem (h : (0 : UInt8) ∈ utf8EncodeChar c) : c = '\x00' :=
  Char.ext (UInt32.toNat_inj.mp (toNat_eq_of_mem_encode (by decide) h))

theorem zero_notMem_bytes {text : Str} (h : '\x00' ∉ text) : (0 : UInt8) ∉ text.bytes := by
  intro hzero
  rcases mem_flatMap.mp hzero with ⟨c, hc, hmem⟩
  exact h (eq_nul_of_zero_mem hmem ▸ hc)

theorem bytes_decodeLossy (n : Nat) : ∀ bs : List UInt8, bs.length ≤ n →
    replacement ∉ decodeLossy n bs → (decodeLossy n bs).bytes = bs := by
  induction n with
  | zero =>
    intro bs hn _
    rw [length_eq_zero_iff.mp (Nat.le_zero.mp hn)]
    rfl
  | succ n ih =>
    intro bs hn hmem
    rcases front_cases bs with rfl | ⟨c, rest, rfl⟩ | ⟨hne, hdecode⟩
    · rfl
    · have hpos := c.utf8Size_pos
      rw [length_append, length_utf8EncodeChar] at hn
      rw [decodeLossy_encode, mem_cons, not_or] at hmem
      rw [decodeLossy_encode, bytes_cons, ih rest (by omega) hmem.2]
    · rw [decodeLossy_invalid n hne hdecode] at hmem
      exact absurd mem_cons_self hmem

theorem bytes_fromUtf8Lossy (h : replacement ∉ fromUtf8Lossy bs) : (fromUtf8Lossy bs).bytes = bs :=
  bytes_decodeLossy _ bs (Nat.le_refl _) h

/-- The bytes are text, or there are `m` of them and they are text up to a
    replacement character that is cut. -/
def CutText (m : Nat) (bs : List UInt8) : Prop :=
  ∃ (s : Str) (cut : List UInt8), bs = s.bytes ++ cut ∧
    (cut = [] ∨ bs.length = m ∧ (cut = [0xEF] ∨ cut = [0xEF, 0xBF]))

theorem decode_replacement (rest : List UInt8) :
    (0xEF :: 0xBF :: 0xBD :: rest : List UInt8).toByteArray.utf8DecodeChar? 0 ≠ none := by
  have hfront : (0xEF :: 0xBF :: 0xBD :: rest : List UInt8) =
      utf8EncodeChar replacement ++ rest := by
    rw [bytes_replacement]
    rfl
  rw [hfront, toByteArray_append, ByteArray.utf8DecodeChar?_utf8EncodeChar_append]
  exact Option.some_ne_none replacement

/-- Bytes that are no character and the front of a text that is read from them
    are what is left of a replacement character. -/
theorem cut_of_take {tail : List UInt8} (hne : bs ≠ []) (hm : bs.length ≤ m)
    (hdecode : bs.toByteArray.utf8DecodeChar? 0 = none)
    (htake : (0xEF :: 0xBF :: 0xBD :: tail).take m = bs) :
    bs.length = m ∧ (bs = [0xEF] ∨ bs = [0xEF, 0xBF]) := by
  rcases m with _ | _ | _ | m
  · exact absurd htake.symm hne
  · rw [← htake]
    exact ⟨rfl, .inl rfl⟩
  · rw [← htake]
    exact ⟨rfl, .inr rfl⟩
  · rw [← htake] at hdecode
    exact absurd hdecode (decode_replacement (tail.take m))

theorem cutText_of_take (n : Nat) : ∀ (bs : List UInt8) (m : Nat), bs.length ≤ n → bs.length ≤ m →
    (decodeLossy n bs).bytes.take m = bs → CutText m bs := by
  induction n with
  | zero =>
    intro bs m hn _ _
    rw [length_eq_zero_iff.mp (Nat.le_zero.mp hn)]
    exact ⟨[], [], rfl, .inl rfl⟩
  | succ n ih =>
    intro bs m hn hm htake
    rcases front_cases bs with rfl | ⟨c, rest, rfl⟩ | ⟨hne, hdecode⟩
    · exact ⟨[], [], rfl, .inl rfl⟩
    · have hpos := c.utf8Size_pos
      have hlen := length_utf8EncodeChar c
      rw [length_append] at hn hm
      rw [decodeLossy_encode, bytes_cons, take_append, take_of_length_le (by omega)] at htake
      rcases ih rest (m - (utf8EncodeChar c).length) (by omega) (by omega)
        (append_cancel_left htake) with ⟨s, cut, rfl, hcut⟩
      refine ⟨c :: s, cut, by rw [bytes_cons, append_assoc], ?_⟩
      rcases hcut with hcut | ⟨hlength, hcut⟩
      · exact .inl hcut
      refine .inr ⟨?_, hcut⟩
      rw [length_append]
      omega
    · rw [decodeLossy_invalid n hne hdecode, bytes_cons, bytes_replacement] at htake
      rcases cut_of_take hne hm hdecode htake with ⟨hlength, hcut⟩
      exact ⟨[], bs, rfl, .inr ⟨hlength, hcut⟩⟩

theorem take_of_cutText (hm : bs.length ≤ m) (h : CutText m bs) :
    (fromUtf8Lossy bs).bytes.take m = bs := by
  rcases h with ⟨s, cut, rfl, hcut⟩
  rcases fromUtf8Lossy_append s cut with ⟨n, hn, hread⟩
  rw [hread, bytes_append]
  rcases hcut with rfl | ⟨hlength, hcut⟩
  · rw [decodeLossy_nil]
    exact take_of_length_le hm
  -- What is left of a replacement character is read as one.
  have hcutRead : ∃ tail, (decodeLossy n cut).bytes = cut ++ tail := by
    rcases n with _ | n
    · rcases hcut with rfl | rfl <;> cases hn
    rcases hcut with rfl | rfl
    · rw [decodeLossy_invalid n (by decide) (by decide +kernel), bytes_cons, bytes_replacement]
      exact ⟨_, rfl⟩
    · rw [decodeLossy_invalid n (by decide) (by decide +kernel), bytes_cons, bytes_replacement]
      exact ⟨_, rfl⟩
  rcases hcutRead with ⟨tail, htail⟩
  rw [htail, ← hlength, ← append_assoc]
  exact take_left

/-- The bytes that are had back if the first `m` bytes of the text are kept. -/
theorem take_bytes_fromUtf8Lossy (hm : bs.length ≤ m) :
    (fromUtf8Lossy bs).bytes.take m = bs ↔ CutText m bs :=
  ⟨cutText_of_take _ bs m (Nat.le_refl _) hm, take_of_cutText hm⟩

end LindGrates
