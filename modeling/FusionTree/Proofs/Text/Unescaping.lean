import FusionTree.Proofs.Text.Escaping

/-!
# Reading C escapes

A text with C escapes is a sequence of units, each of which stands for some bytes: characters that
mean themselves, named escapes, and escapes with all the digits that they may have. Whatever comes
behind a unit, it stands for the same bytes, so that a sequence of units stands for theirs one after
the other. Every sequence of bytes can be written in this way.

The bytes of a text may also be gone through one by one, without a look at its characters: a byte of
a character that has several of them is never taken for a part of an escape.
-/

namespace FusionTree.Text

/-! ### Digits -/

/-- A hexadecimal digit of either case. -/
structure HexDigit where
  value : Fin 16
  upper : Bool

namespace HexDigit

def char (d : HexDigit) : Char :=
  if d.upper then d.value.val.digitChar.toUpper else d.value.val.digitChar

theorem hexDigit?_char (d : HexDigit) : hexDigit? d.char = some (.ofNat d.value.val) := by
  obtain ⟨value, upper⟩ := d
  revert value upper
  decide

end HexDigit

def octalChar (d : Fin 8) : Char := d.val.digitChar

theorem octalDigit?_octalChar : ∀ d : Fin 8, octalDigit? (octalChar d) = some (.ofNat d.val) := by
  decide

theorem namedEscape?_octalChar : ∀ d : Fin 8, namedEscape? (octalChar d) = none := by
  decide

/-- Digits spell the byte of their value, as if no step on the way had overflown. -/
theorem byteOfDigits_ofNat (base : UInt8) (digits : List Nat) :
    byteOfDigits base (digits.map UInt8.ofNat) =
      .ofNat (digits.foldl (fun value d => value * base.toNat + d) 0) := by
  have from_any (value : Nat) :
      (digits.map UInt8.ofNat).foldl (fun value d => value * base + d) (.ofNat value) =
        .ofNat (digits.foldl (fun value d => value * base.toNat + d) value) := by
    induction digits generalizing value with
    | nil => rfl
    | cons d digits ih =>
      rw [List.foldl_cons, ← ih, List.map_cons, List.foldl_cons]
      simp [UInt8.ofNat_add, UInt8.ofNat_mul]
  exact from_any 0

theorem byteOfDigits_hex (high low : Nat) :
    byteOfDigits 16 [.ofNat high, .ofNat low] = .ofNat (16 * high + low) := by
  rw [Nat.mul_comm 16]
  simpa using byteOfDigits_ofNat 16 [high, low]

theorem byteOfDigits_octal (first second third : Nat) :
    byteOfDigits 8 [.ofNat first, .ofNat second, .ofNat third] =
      .ofNat (64 * first + 8 * second + third) := by
  have value : 64 * first + 8 * second + third = ((0 * 8 + first) * 8 + second) * 8 + third := by
    omega
  rw [value]
  exact byteOfDigits_ofNat 8 [first, second, third]

/-! ### Units -/

def namedEscapes : List (Char × UInt8) :=
  [('n', 0x0A), ('t', 0x09), ('r', 0x0D), ('a', 0x07), ('v', 0x0B), ('b', 0x08), ('f', 0x0C)]

theorem namedEscape?_of_mem : ∀ entry ∈ namedEscapes, namedEscape? entry.1 = some entry.2 := by
  decide

theorem namedEscape?_eq_none {c : Char} (h : c ∉ namedEscapes.map Prod.fst) :
    namedEscape? c = none := by
  unfold namedEscape?
  split <;> first | rfl | exact absurd (by decide) h

/-- Behind a backslash the character begins an escape that stands for something else than it: it is
an octal digit, the `x` of hexadecimal digits or the letter of a named escape. -/
def BeginsEscape (c : Char) : Prop :=
  ('0' ≤ c ∧ c ≤ '7') ∨ c = 'x' ∨ c ∈ namedEscapes.map Prod.fst

instance : DecidablePred BeginsEscape :=
  fun _ => inferInstanceAs (Decidable (_ ∨ _))

/-- A piece of a text with C escapes that stands for bytes of its own. -/
inductive EscapeUnit
  | plain (c : Char) (h : c ≠ '\\')
  | named (entry : Char × UInt8) (h : entry ∈ namedEscapes)
  | hex (high low : HexDigit)
  | octal (first second third : Fin 8)
  | other (c : Char) (h : ¬BeginsEscape c)

namespace EscapeUnit

def text : EscapeUnit → List Char
  | plain c _ => [c]
  | named entry _ => ['\\', entry.1]
  | hex high low => ['\\', 'x', high.char, low.char]
  | octal first second third => ['\\', octalChar first, octalChar second, octalChar third]
  | other c _ => ['\\', c]

/-- What the unit stands for. Three octal digits may spell more than a byte holds; the byte is what
is left of their value modulo 256. -/
def bytes : EscapeUnit → List UInt8
  | plain c _ | other c _ => String.utf8EncodeChar c
  | named entry _ => [entry.2]
  | hex high low => [.ofNat (16 * high.value.val + low.value.val)]
  | octal first second third => [.ofNat (64 * first.val + 8 * second.val + third.val)]

/-- Whatever comes behind a unit, it stands for its bytes. -/
theorem cEscapedBytes_append (u : EscapeUnit) (rest : List Char) :
    cEscapedBytes (u.text ++ rest) = u.bytes ++ cEscapedBytes rest := by
  cases u with
  | plain c h => exact cEscapedBytes_cons h rest
  | named entry h =>
    refine cEscapedBytes_escape (fun rest => ?_) rest
    simp [escapeBytes, namedEscape?_of_mem entry h, bytes]
  | hex high low =>
    have noName : namedEscape? 'x' = none := by decide
    have noOctal : octalDigit? 'x' = none := by decide
    rw [text, List.cons_append, List.cons_append, cEscapedBytes, escapeBytes, noName, noOctal]
    simp [leadingDigits, HexDigit.hexDigit?_char, byteOfDigits_hex, bytes]
  | octal first second third =>
    rw [text, List.cons_append, List.cons_append, cEscapedBytes, escapeBytes,
      namedEscape?_octalChar, octalDigit?_octalChar]
    simp [leadingDigits, octalDigit?_octalChar, byteOfDigits_octal, bytes]
  | other c h =>
    simp only [BeginsEscape, not_or] at h
    obtain ⟨noDigit, noHex, noName⟩ := h
    exact cEscapedBytes_escape
      (escapeBytes_of_none (namedEscape?_eq_none noName) (if_neg noDigit) noHex) rest

theorem cEscapedBytes_flatMap (units : List EscapeUnit) :
    cEscapedBytes (units.flatMap text) = units.flatMap bytes := by
  induction units with
  | nil => rw [List.flatMap_nil, cEscapedBytes, List.flatMap_nil]
  | cons u units ih => rw [List.flatMap_cons, cEscapedBytes_append, ih, List.flatMap_cons]

def ofByte (b : UInt8) : EscapeUnit :=
  .hex ⟨⟨b.toNat / 16, by have := b.toNat_lt; omega⟩, false⟩
    ⟨⟨b.toNat % 16, Nat.mod_lt _ (by decide)⟩, false⟩

theorem bytes_ofByte (b : UInt8) : (ofByte b).bytes = [b] := by
  simp only [ofByte, bytes, List.cons.injEq, and_true]
  rw [Nat.div_add_mod, UInt8.ofNat_toNat]

/-- Every sequence of bytes can be written. -/
theorem flatMap_ofByte (b : List UInt8) : (b.map ofByte).flatMap bytes = b := by
  simp [List.flatMap_map, bytes_ofByte]

end EscapeUnit

/-! ### Byte by byte -/

def charOfByte (b : UInt8) : Char where
  val := b.toUInt32
  valid := .inl (Nat.lt_trans b.toNat_lt (by decide))

theorem toNat_charOfByte (b : UInt8) : (charOfByte b).toNat = b.toNat :=
  UInt8.toNat_toUInt32 b

/-- Reads escapes byte by byte. Bytes that are no ASCII begin no escape and are no digits. -/
def unescape (bytes : List UInt8) : List UInt8 :=
  match bytes with
  | [] => []
  | b :: rest =>
    if b = 0x5C then
      match rest with
      | [] => []
      | escaped :: rest =>
        if escaped < 0x80 then
          let (out, used) := escapeBytes (charOfByte escaped) (rest.map charOfByte)
          out ++ unescape (rest.drop used)
        else escaped :: unescape rest
    else b :: unescape rest
termination_by bytes.length

theorem utf8EncodeChar_ascii {c : Char} (h : c.toNat < 128) :
    String.utf8EncodeChar c = [.ofNat c.toNat] := by
  have le : c.val.toNat ≤ 127 := Nat.le_of_lt_succ h
  simp only [String.utf8EncodeChar, le, if_true]
  rfl

/-- A character that is no ASCII has no byte that is. -/
theorem utf8EncodeChar_high {c : Char} (h : 128 ≤ c.toNat) :
    String.utf8EncodeChar c ≠ [] ∧ ∀ b ∈ String.utf8EncodeChar c, 0x80 ≤ b := by
  have ge : ¬c.val.toNat ≤ 127 := Nat.not_le_of_lt h
  have valid : c.val.toNat < 0x110000 := by
    rcases c.valid with low | high
    · exact Nat.lt_trans low (by decide)
    · exact high.2
  unfold String.utf8EncodeChar
  simp only [ge, if_false]
  repeat' split
  all_goals
    simp only [ne_eq, List.cons_ne_nil, not_false_eq_true, true_and, List.forall_mem_cons,
      UInt8.le_iff_toNat_le]
    simp
    omega

theorem charOfByte_ofNat {c : Char} (h : c.toNat < 128) : charOfByte (.ofNat c.toNat) = c := by
  rw [← Char.toNat_inj, toNat_charOfByte, toNat_ofNat (by omega)]

theorem ofNat_lt_of_ascii {c : Char} (h : c.toNat < 128) : UInt8.ofNat c.toNat < 0x80 := by
  rw [UInt8.lt_iff_toNat_lt, toNat_ofNat (by omega)]
  exact h

/-- The byte of the backslash is in no other character. -/
theorem ne_backslash_of_mem_utf8EncodeChar {c : Char} (h : c ≠ '\\') :
    ∀ b ∈ String.utf8EncodeChar c, b ≠ 0x5C := by
  rintro b hb rfl
  by_cases single : c.toNat < 128
  · rw [utf8EncodeChar_ascii single, List.mem_singleton] at hb
    refine h (Char.toNat_inj.mp ?_)
    rw [← toNat_ofNat (show c.toNat < 256 by omega), ← hb]
    rfl
  · exact absurd ((utf8EncodeChar_high (Nat.le_of_not_lt single)).2 _ hb) (by decide)

theorem unescape_append {plain : List UInt8} (h : ∀ b ∈ plain, b ≠ 0x5C) (rest : List UInt8) :
    unescape (plain ++ rest) = plain ++ unescape rest := by
  induction plain with
  | nil => rfl
  | cons b plain ih =>
    obtain ⟨noBackslash, tail⟩ := List.forall_mem_cons.mp h
    rw [List.cons_append, unescape.eq_def]
    simp [noBackslash, ih tail]

theorem unescape_escape_ascii {escaped : UInt8} (h : escaped < 0x80) (rest : List UInt8) :
    unescape (0x5C :: escaped :: rest) =
      (escapeBytes (charOfByte escaped) (rest.map charOfByte)).1 ++
        unescape (rest.drop (escapeBytes (charOfByte escaped) (rest.map charOfByte)).2) := by
  rw [unescape]
  simp [h]

theorem unescape_escape_high {escaped : UInt8} (h : 0x80 ≤ escaped) (rest : List UInt8) :
    unescape (0x5C :: escaped :: rest) = escaped :: unescape rest := by
  rw [unescape]
  simp [UInt8.not_lt.mpr h]

/-- Leading digits are found in the bytes as in the characters, and each is one byte long. -/
theorem leadingDigits_encode {digit? : Char → Option UInt8}
    (ascii : ∀ c, 128 ≤ c.toNat → digit? c = none) (limit : Nat) (rest : List Char) :
    leadingDigits digit? limit ((encode rest).map charOfByte) = leadingDigits digit? limit rest ∧
      (encode rest).drop (leadingDigits digit? limit rest).length =
        encode (rest.drop (leadingDigits digit? limit rest).length) := by
  induction limit generalizing rest with
  | zero => simp [leadingDigits]
  | succ limit ih =>
    cases rest with
    | nil => simp [leadingDigits, encode]
    | cons c rest =>
      rw [encode_cons]
      by_cases single : c.toNat < 128
      · rw [utf8EncodeChar_ascii single, List.singleton_append, List.map_cons,
          charOfByte_ofNat single, leadingDigits, leadingDigits]
        cases digit? c with
        | none => simp [encode_cons, utf8EncodeChar_ascii single]
        | some d =>
          obtain ⟨same, behind⟩ := ih rest
          simp [same, behind]
      · -- The digits end here: neither the character is one nor its first byte.
        obtain ⟨ne_nil, high⟩ := utf8EncodeChar_high (Nat.le_of_not_lt single)
        obtain ⟨b, more, eq⟩ := List.exists_cons_of_ne_nil ne_nil
        have noDigit := ascii c (Nat.le_of_not_lt single)
        have noByte := ascii _
          (toNat_charOfByte b ▸ UInt8.le_iff_toNat_le.mp (high b (by simp [eq])))
        rw [eq, List.cons_append, List.map_cons]
        simp [leadingDigits, noDigit, noByte, encode_cons, eq]

/-- No letter or digit of an escape is beyond ASCII. -/
theorem not_le_of_high {c d : Char} (h : 128 ≤ c.toNat) (ascii : d.toNat < 128) : ¬c ≤ d :=
  fun le => Nat.not_le_of_lt (Nat.lt_of_lt_of_le ascii h) (UInt32.le_iff_toNat_le.mp le)

theorem octalDigit?_eq_none {c : Char} (h : 128 ≤ c.toNat) : octalDigit? c = none :=
  if_neg fun digit => not_le_of_high h (by decide) digit.2

theorem hexDigit?_eq_none {c : Char} (h : 128 ≤ c.toNat) : hexDigit? c = none := by
  unfold hexDigit?
  rw [if_neg fun digit => not_le_of_high h (by decide) digit.2,
    if_neg fun digit => not_le_of_high h (by decide) digit.2,
    if_neg fun digit => not_le_of_high h (by decide) digit.2]

theorem escapeBytes_high {c : Char} (h : 128 ≤ c.toNat) (rest : List Char) :
    escapeBytes c rest = (String.utf8EncodeChar c, 0) := by
  refine escapeBytes_of_none (namedEscape?_eq_none fun mem => ?_) (octalDigit?_eq_none h) ?_ rest
  · have ascii : (namedEscapes.map Prod.fst).all (·.toNat < 128) = true := by decide
    exact absurd h (Nat.not_le_of_lt (of_decide_eq_true (List.all_eq_true.mp ascii c mem)))
  · rintro rfl
    exact absurd h (by decide)

theorem escapeBytes_encode (c : Char) (rest : List Char) :
    escapeBytes c ((encode rest).map charOfByte) = escapeBytes c rest ∧
      (encode rest).drop (escapeBytes c rest).2 = encode (rest.drop (escapeBytes c rest).2) := by
  obtain ⟨octal, behindOctal⟩ := leadingDigits_encode (fun _ => octalDigit?_eq_none) 2 rest
  obtain ⟨hex, behindHex⟩ :=
    leadingDigits_encode (fun _ => hexDigit?_eq_none) (if c = 'x' then 2 else 0) rest
  unfold escapeBytes
  rw [octal, hex]
  refine ⟨rfl, ?_⟩
  cases namedEscape? c with
  | some b => simp
  | none =>
    cases octalDigit? c with
    | some d => exact behindOctal
    | none =>
      cases digits : leadingDigits hexDigit? (if c = 'x' then 2 else 0) rest with
      | nil => simp
      | cons d more =>
        rw [digits] at behindHex
        exact behindHex

/-- Reading the characters of a text is reading its bytes. -/
theorem unescape_encode (text : List Char) : unescape (encode text) = cEscapedBytes text := by
  fun_induction cEscapedBytes text with
  | case1 => rw [encode, List.flatMap_nil, unescape]
  | case2 =>
    show unescape [0x5C] = []
    rw [unescape]
    rfl
  | case3 c rest bytes used h ih =>
    obtain ⟨same, behind⟩ := escapeBytes_encode c rest
    rw [h] at same behind
    rw [encode_cons, show String.utf8EncodeChar '\\' = [0x5C] from rfl, List.singleton_append,
      encode_cons]
    by_cases single : c.toNat < 128
    · rw [utf8EncodeChar_ascii single, List.singleton_append,
        unescape_escape_ascii (ofNat_lt_of_ascii single), charOfByte_ofNat single, same, behind, ih]
    · -- The backslash escapes the first byte of the character, the others stand for themselves.
      have beyond := Nat.le_of_not_lt single
      obtain ⟨ne_nil, high⟩ := utf8EncodeChar_high beyond
      obtain ⟨rfl, rfl⟩ := Prod.mk.inj ((escapeBytes_high beyond rest).symm.trans h)
      obtain ⟨b, more, eq⟩ := List.exists_cons_of_ne_nil ne_nil
      rw [eq] at high ⊢
      obtain ⟨head, tail⟩ := List.forall_mem_cons.mp high
      rw [List.cons_append, unescape_escape_high head, unescape_append, ← ih]
      · rfl
      · rintro b hb rfl
        exact absurd (tail _ hb) (by decide)
  | case4 c rest noEnd noEscape ih =>
    have noBackslash : c ≠ '\\' := by
      rintro rfl
      cases rest with
      | nil => exact noEnd rfl rfl
      | cons d rest => exact noEscape d rest rfl rfl
    rw [encode_cons, unescape_append (ne_backslash_of_mem_utf8EncodeChar noBackslash), ih]

/-! ### Reading escapes -/

/-- Backslashes and double quotes are escaped, by themselves. -/
def quoteCode (c : Char) : Option Char :=
  if c = '\\' ∨ c = '"' then some c else none

theorem escapeBytes_quoteCode {c e : Char} (h : quoteCode c = some e) (rest : List Char) :
    escapeBytes e rest = (String.utf8EncodeChar c, 0) := by
  unfold quoteCode at h
  split at h
  · obtain rfl := Option.some.inj h
    exact escapeBytes_self ‹_› rest
  · cases h

/-- A sequence of units is read as the text of the bytes that they stand for, one after the other;
neighbouring units may make up one character. Every sequence of bytes can be written as units.
Reading takes out the escapes of backslashes and double quotes. It makes no difference whether the
characters of a text are gone through or its bytes. -/
theorem stripCSlashes_decodes_units :
    (∀ units : List EscapeUnit,
      stripCSlashes (units.flatMap EscapeUnit.text) =
        decodeLossy (units.flatMap EscapeUnit.bytes)) ∧
    (∀ bytes : List UInt8, ∃ units : List EscapeUnit, units.flatMap EscapeUnit.bytes = bytes) ∧
    (∀ (units : List EscapeUnit) (text : List Char), units.flatMap EscapeUnit.bytes = encode text →
      stripCSlashes (units.flatMap EscapeUnit.text) = text) ∧
    (∀ text, stripCSlashes (escapeWith quoteCode text) = text) ∧
    ∀ text, stripCSlashes text = decodeLossy (unescape (encode text)) := by
  refine ⟨fun units => ?_, fun bytes => ⟨_, EscapeUnit.flatMap_ofByte bytes⟩,
    fun units text h => ?_, fun text => ?_, fun text => ?_⟩
  · rw [stripCSlashes, EscapeUnit.cEscapedBytes_flatMap]
  · rw [stripCSlashes, EscapeUnit.cEscapedBytes_flatMap, h, decodeLossy_encode]
  · rw [stripCSlashes, cEscapedBytes_escapeWith (by decide) (fun _ _ => escapeBytes_quoteCode),
      decodeLossy_encode]
  · rw [unescape_encode, stripCSlashes]

/-- Two escapes of different sorts make up one character. -/
theorem stripCSlashes_decodes_units_of_one_character :
    let units : List EscapeUnit := [.hex ⟨12, true⟩ ⟨3, false⟩, .octal 2 5 1]
    units.flatMap EscapeUnit.bytes = encode ['é'] ∧
      units.flatMap EscapeUnit.text = "\\xC3\\251".toList ∧
      stripCSlashes (units.flatMap EscapeUnit.text) = ['é'] := by
  intro units
  have bytes : units.flatMap EscapeUnit.bytes = encode ['é'] := by decide
  exact ⟨bytes, by decide, stripCSlashes_decodes_units.2.2.1 units ['é'] bytes⟩

end FusionTree.Text
