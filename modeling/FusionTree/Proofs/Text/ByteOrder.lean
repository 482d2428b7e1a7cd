import FusionTree.Proofs.Text.Utf8
import Mathlib.Tactic.SplitIfs

/-!
# The order of texts by their bytes

The UTF-8 form keeps the order of characters: the bytes of a smaller character come first, whatever
follows. So texts in the order of their characters are in the order of their bytes.
-/

namespace FusionTree.Text

theorem ofNat_cons_lt {m n : Nat} {s t : List UInt8} (hm : m < 256) (hn : n < 256) (le : m ≤ n)
    (same : m = n → s < t) : UInt8.ofNat m :: s < UInt8.ofNat n :: t := by
  rcases Nat.lt_or_eq_of_le le with less | eq
  · refine List.cons_lt_cons_iff.mpr (.inl ?_)
    rw [UInt8.lt_iff_toNat_lt, toNat_ofNat hm, toNat_ofNat hn]
    exact less
  · exact List.cons_lt_cons_iff.mpr (.inr ⟨congrArg UInt8.ofNat eq, same eq⟩)

theorem utf8EncodeChar_append_lt {c d : Char} (h : c < d) (s t : List UInt8) :
    String.utf8EncodeChar c ++ s < String.utf8EncodeChar d ++ t := by
  obtain ⟨v, hv⟩ : ∃ v, v = c.val.toNat := ⟨_, rfl⟩
  obtain ⟨w, hw⟩ : ∃ w, w = d.val.toNat := ⟨_, rfl⟩
  have less : v < w := by
    rw [hv, hw]
    exact UInt32.lt_iff_toNat_lt.mp h
  have valid : w < 0xD800 ∨ 0xDFFF < w ∧ w < 0x110000 := by rw [hw]; exact d.valid
  unfold String.utf8EncodeChar
  simp only [← hv, ← hw]
  -- The first byte tells characters of different sizes apart. Of one size, the character whose
  -- bytes are all the same would be the same.
  split_ifs
  all_goals
    repeat refine ofNat_cons_lt (by omega) (by omega) (by omega) fun same => ?_
    omega

/-- Texts are in the order of their bytes. -/
theorem encode_lt_encode {s t : List Char} (h : s < t) : encode s < encode t := by
  induction h with
  | @nil c rest =>
    obtain ⟨b, more, eq⟩ := List.exists_cons_of_ne_nil (String.utf8EncodeChar_ne_nil (c := c))
    rw [encode_cons, eq]
    exact List.nil_lt_cons _ _
  | rel less =>
    rw [encode_cons, encode_cons]
    exact utf8EncodeChar_append_lt less _ _
  | cons _ ih =>
    rw [encode_cons, encode_cons]
    exact List.append_left_lt ih

end FusionTree.Text
