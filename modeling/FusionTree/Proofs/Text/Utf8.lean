import FusionTree.Text.Utf8

/-!
# Reading back what was encoded

The UTF-8 form of a text decodes to the text: the first byte of a character says how many follow
and how far the second may range, and every following byte adds its six bits.
-/

namespace FusionTree.Text

theorem encode_cons (c : Char) (rest : List Char) :
    encode (c :: rest) = String.utf8EncodeChar c ++ encode rest := rfl

theorem toNat_ofNat {n : Nat} (h : n < 256) : (UInt8.ofNat n).toNat = n := by
  rw [UInt8.toNat_ofNat']
  exact Nat.mod_eq_of_lt h

/-! ### Following bytes -/

/-- A byte that continues the open sequence adds its six bits. -/
theorem decodeFrom_continue {s : Sequence} {n : Nat} (six : n < 64) (low : s.low.toNat ≤ n + 128)
    (high : n + 128 ≤ s.high.toNat) (more : 1 < s.missing) (rest : List UInt8) :
    decodeFrom (some s) (.ofNat (n + 128) :: rest) =
      decodeFrom (some { bits := s.bits * 64 + n, missing := s.missing - 1 }) rest := by
  have value := toNat_ofNat (show n + 128 < 256 by omega)
  have fits : s.low ≤ UInt8.ofNat (n + 128) ∧ UInt8.ofNat (n + 128) ≤ s.high := by
    rw [UInt8.le_iff_toNat_le, UInt8.le_iff_toNat_le, value]
    exact ⟨low, high⟩
  generalize UInt8.ofNat (n + 128) = b at *
  simp [decodeFrom, decodeByte, fits, value, show ¬s.missing ≤ 1 by omega]

/-- The last byte of the open sequence completes the character. -/
theorem decodeFrom_complete {s : Sequence} {n : Nat} (six : n < 64) (low : s.low.toNat ≤ n + 128)
    (high : n + 128 ≤ s.high.toNat) (last : s.missing = 1) (rest : List UInt8) :
    decodeFrom (some s) (.ofNat (n + 128) :: rest) =
      Char.ofNat (s.bits * 64 + n) :: decodeFrom none rest := by
  have value := toNat_ofNat (show n + 128 < 256 by omega)
  have fits : s.low ≤ UInt8.ofNat (n + 128) ∧ UInt8.ofNat (n + 128) ≤ s.high := by
    rw [UInt8.le_iff_toNat_le, UInt8.le_iff_toNat_le, value]
    exact ⟨low, high⟩
  generalize UInt8.ofNat (n + 128) = b at *
  simp [decodeFrom, decodeByte, fits, value, last]

/-! ### First bytes -/

theorem decodeFrom_opens {b : UInt8} {s : Sequence} (h : Lead.ofByte b = .opens s)
    (rest : List UInt8) : decodeFrom none (b :: rest) = decodeFrom (some s) rest := by
  simp [decodeFrom, decodeByte, decodeLead, h]

namespace Lead

theorem ofByte_one {n : Nat} (high : n < 128) : ofByte (.ofNat n) = .char (Char.ofNat n) := by
  have value := toNat_ofNat (show n < 256 by omega)
  simp only [ofByte, UInt8.lt_iff_toNat_lt, value]
  rw [if_pos (by simp; omega)]

theorem ofByte_two {n : Nat} (low : 2 ≤ n) (high : n < 32) :
    ofByte (.ofNat (n + 192)) = .opens { bits := n, missing := 1 } := by
  have value := toNat_ofNat (show n + 192 < 256 by omega)
  simp only [ofByte, UInt8.lt_iff_toNat_lt, value]
  rw [if_neg (by simp), if_neg (by simp; omega), if_pos (by simp; omega)]
  simp

theorem ofByte_three {n : Nat} (high : n < 16) :
    ofByte (.ofNat (n + 224)) = .opens
      { bits := n, missing := 2
        low := if n = 0 then 0xA0 else 0x80, high := if n = 13 then 0x9F else 0xBF } := by
  have value := toNat_ofNat (show n + 224 < 256 by omega)
  simp only [ofByte, UInt8.lt_iff_toNat_lt, ← UInt8.toNat_inj, value]
  rw [if_neg (by simp), if_neg (by simp), if_neg (by simp), if_pos (by simp; omega)]
  simp

theorem ofByte_four {n : Nat} (high : n < 5) :
    ofByte (.ofNat (n + 240)) = .opens
      { bits := n, missing := 3
        low := if n = 0 then 0x90 else 0x80, high := if n = 4 then 0x8F else 0xBF } := by
  have value := toNat_ofNat (show n + 240 < 256 by omega)
  simp only [ofByte, UInt8.lt_iff_toNat_lt, ← UInt8.toNat_inj, value]
  rw [if_neg (by simp), if_neg (by simp), if_neg (by simp), if_neg (by simp),
    if_pos (by simp; omega)]
  simp

end Lead

theorem decodeFrom_utf8EncodeChar (c : Char) (rest : List UInt8) :
    decodeFrom none (String.utf8EncodeChar c ++ rest) = c :: decodeFrom none rest := by
  obtain ⟨v, hv⟩ : ∃ v, v = c.val.toNat := ⟨_, rfl⟩
  have valid : v < 0xD800 ∨ 0xDFFF < v ∧ v < 0x110000 := by rw [hv]; exact c.valid
  have is_c {n : Nat} (h : n = v) : Char.ofNat n = c := by
    rw [h, hv]
    exact Char.ofNat_toNat c
  unfold String.utf8EncodeChar
  simp only [← hv]
  split
  · rw [List.singleton_append, decodeFrom, decodeByte, decodeLead,
      Lead.ofByte_one (by omega), is_c rfl]
    rfl
  split
  · rw [List.cons_append, decodeFrom_opens (Lead.ofByte_two (by omega) (by omega)),
      List.singleton_append, decodeFrom_complete (by omega) (by simp) (by simp; omega) rfl,
      is_c (by simp only; omega)]
  split
  · rw [List.cons_append, decodeFrom_opens (Lead.ofByte_three (by omega)), List.cons_append,
      decodeFrom_continue (by omega) _ _ (by simp), List.singleton_append,
      decodeFrom_complete (by omega) (by simp) (by simp; omega) rfl, is_c (by simp only; omega)]
    · simp only
      split <;> simp
      omega
    · simp only
      split <;> simp <;> omega
  · rw [List.cons_append, decodeFrom_opens (Lead.ofByte_four (by omega)), List.cons_append,
      decodeFrom_continue (by omega) _ _ (by simp), List.cons_append,
      decodeFrom_continue (by omega) (by simp) (by simp; omega) (by simp), List.singleton_append,
      decodeFrom_complete (by omega) (by simp) (by simp; omega) rfl, is_c (by simp only; omega)]
    · simp only
      split <;> simp
      omega
    · simp only
      split <;> simp <;> omega

/-- Decoding undoes encoding. -/
theorem decodeLossy_encode (text : List Char) : decodeLossy (encode text) = text := by
  rw [decodeLossy]
  induction text with
  | nil => rfl
  | cons c rest ih => rw [encode_cons, decodeFrom_utf8EncodeChar, ih]

end FusionTree.Text
