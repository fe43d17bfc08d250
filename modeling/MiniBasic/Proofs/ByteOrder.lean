import Mathlib.Data.String.Basic

/-!
# The order of bytes

Texts are ordered by their characters, the first difference deciding, and that is also the order of
the bytes that they are encoded as (`lt_iff_bytes_lt`). What makes it so is that the
encodings of two characters differ in a byte which they both have, and the smaller one belongs to
the smaller character.
-/

namespace MiniBasic

/-- The bytes that a text is encoded as. -/
def bytes (s : String) : List UInt8 := s.toUTF8.data.toList

theorem bytes_eq_flatMap (s : String) : bytes s = s.toList.flatMap String.utf8EncodeChar := by
  conv_lhs => rw [← String.ofList_toList (s := s)]
  rw [bytes, String.toUTF8_eq_toByteArray, String.toByteArray_ofList, List.utf8Encode]
  simp

/-- Whatever comes behind them, the encoding of a character is less than that of a greater one. -/
theorem encoding_lt {c d : Char} (h : c < d) (front back : List UInt8) :
    String.utf8EncodeChar c ++ front < String.utf8EncodeChar d ++ back := by
  have lt : c.val.toNat < d.val.toNat := h
  have bound : d.val.toNat < 1114112 := by
    have valid : d.val.toNat.isValidChar := d.valid
    unfold Nat.isValidChar at valid
    omega
  -- the digits in base 64, from the last one on
  have second (k : ℕ) : k / 4096 = k / 64 / 64 := (Nat.div_div_eq_div_mul k 64 64).symm
  have third (k : ℕ) : k / 262144 = k / 64 / 64 / 64 := by
    rw [← second, Nat.div_div_eq_div_mul]
  unfold String.utf8EncodeChar
  generalize c.val.toNat = m at *
  generalize d.val.toNat = n at *
  simp only [second, third]
  repeat' split
  all_goals
    simp only [List.cons_append, List.nil_append, List.cons_lt_cons_iff, UInt8.lt_iff_toNat_lt,
      ← UInt8.toNat_inj, UInt8.toNat_ofNat']
    omega

theorem flatMap_encoding_lt {cs ds : List Char} (h : cs < ds) :
    cs.flatMap String.utf8EncodeChar < ds.flatMap String.utf8EncodeChar := by
  induction h with
  | @nil d ds =>
    obtain ⟨b, bs, eq⟩ := List.exists_cons_of_ne_nil (String.utf8EncodeChar_ne_nil (c := d))
    rw [List.flatMap_cons, eq]
    exact List.nil_lt_cons _ _
  | rel lt => exact encoding_lt lt _ _
  | cons _ ih => exact List.append_left_lt ih

/-- Texts are in the order of their bytes. -/
theorem lt_iff_bytes_lt (s t : String) : s < t ↔ bytes s < bytes t := by
  have forward {s t : String} (h : s < t) : bytes s < bytes t := by
    rw [bytes_eq_flatMap, bytes_eq_flatMap]
    exact flatMap_encoding_lt h
  refine ⟨forward, fun h => ?_⟩
  by_contra not_lt
  rcases eq_or_lt_of_le (String.not_lt.mp not_lt) with rfl | gt
  · exact List.lt_irrefl _ h
  · exact List.lt_asymm h (forward gt)

end MiniBasic
