import FusionTree.Proofs.Text.Utf8
import FusionTree.Text.Escape

/-!
# Writing text between quotes

Text is put between quotes by escaping what would end it early or be read in another way: in single
quotes the backslash and the quote, in double quotes also the carriage return, which a source cannot
hold as it is. Taking the escapes out again gives the text back.
-/

namespace FusionTree.Text

/-- The text with a backslash and its code in place of every character that has a code. -/
def escapeWith (code : Char → Option Char) (text : List Char) : List Char :=
  text.flatMap fun c =>
    match code c with
    | some e => ['\\', e]
    | none => [c]

def singleCode (c : Char) : Option Char :=
  if c = '\\' ∨ c = '\'' then some c else none

def doubleCode (c : Char) : Option Char :=
  if c = '\\' ∨ c = '"' then some c else if c = '\r' then some 'r' else none

section escapeWith

variable {code : Char → Option Char} {c e : Char}

@[simp] theorem escapeWith_nil : escapeWith code [] = [] := rfl

theorem escapeWith_cons_of_some (h : code c = some e) (rest : List Char) :
    escapeWith code (c :: rest) = '\\' :: e :: escapeWith code rest := by
  simp [escapeWith, h]

theorem escapeWith_cons_of_none (h : code c = none) (rest : List Char) :
    escapeWith code (c :: rest) = c :: escapeWith code rest := by
  simp [escapeWith, h]

/-- No character gets into an escaped text but those of the text, the backslash and the codes. -/
theorem not_mem_escapeWith {x : Char} (backslash : x ≠ '\\') (noCode : ∀ c, code c ≠ some x)
    {text : List Char} (h : x ∉ text ∨ code x ≠ none) : x ∉ escapeWith code text := by
  induction text with
  | nil => simp
  | cons c rest ih =>
    have tail : x ∉ escapeWith code rest := 
      ih (h.imp_left fun h mem => h (List.mem_cons_of_mem _ mem))
    cases hc : code c with
    | some e =>
      have other : x ≠ e := fun same => noCode c (by rw [hc, same])
      simp [escapeWith_cons_of_some hc, backslash, other, tail]
    | none =>
      have other : x ≠ c := by
        rintro rfl
        rcases h with h | h
        · simp at h
        · exact h hc
      simp [escapeWith_cons_of_none hc, other, tail]

end escapeWith

/-! ### Taking escapes out -/

theorem stripSlashes_escape {c : Char} (h : c ≠ '0') (rest : List Char) :
    stripSlashes ('\\' :: c :: rest) = c :: stripSlashes rest := by
  simp [stripSlashes, h]

theorem stripSlashes_cons {c : Char} (h : c ≠ '\\') (rest : List Char) :
    stripSlashes (c :: rest) = c :: stripSlashes rest := by
  rw [stripSlashes] <;> simp [h]

/-- What was escaped for single quotes is read back. -/
theorem stripSlashes_escapeWith (text : List Char) :
    stripSlashes (escapeWith singleCode text) = text := by
  induction text with
  | nil => rfl
  | cons c rest ih =>
    by_cases hc : c = '\\' ∨ c = '\''
    · have code : singleCode c = some c := if_pos hc
      have digit : c ≠ '0' := by rcases hc with rfl | rfl <;> decide
      rw [escapeWith_cons_of_some code, stripSlashes_escape digit, ih]
    · have code : singleCode c = none := if_neg hc
      rw [escapeWith_cons_of_none code, stripSlashes_cons (fun h => hc (.inl h)), ih]

theorem cEscapedBytes_escape {c : Char} {bytes : List UInt8}
    (h : ∀ rest, escapeBytes c rest = (bytes, 0)) (rest : List Char) :
    cEscapedBytes ('\\' :: c :: rest) = bytes ++ cEscapedBytes rest := by
  rw [cEscapedBytes, h]
  simp

theorem cEscapedBytes_cons {c : Char} (h : c ≠ '\\') (rest : List Char) :
    cEscapedBytes (c :: rest) = String.utf8EncodeChar c ++ cEscapedBytes rest := by
  rw [cEscapedBytes] <;> simp [h]

theorem escapeBytes_of_none {c : Char} (named : namedEscape? c = none)
    (octal : octalDigit? c = none) (hex : c ≠ 'x') (rest : List Char) :
    escapeBytes c rest = (String.utf8EncodeChar c, 0) := by
  simp [escapeBytes, named, octal, hex, leadingDigits]

/-- The bytes of an escaped text are those of the text, if every code stands for its character. -/
theorem cEscapedBytes_escapeWith {code : Char → Option Char} (backslash : code '\\' ≠ none)
    (codes : ∀ c e, code c = some e → ∀ rest, escapeBytes e rest = (String.utf8EncodeChar c, 0))
    (text : List Char) : cEscapedBytes (escapeWith code text) = encode text := by
  induction text with
  | nil => rw [escapeWith_nil, cEscapedBytes]; rfl
  | cons c rest ih =>
    rw [encode_cons]
    cases hc : code c with
    | some e => rw [escapeWith_cons_of_some hc, cEscapedBytes_escape (codes c e hc), ih]
    | none =>
      have plain : c ≠ '\\' := fun same => backslash (same ▸ hc)
      rw [escapeWith_cons_of_none hc, cEscapedBytes_cons plain, ih]

theorem escapeBytes_self {c : Char} (h : c = '\\' ∨ c = '"') (rest : List Char) :
    escapeBytes c rest = (String.utf8EncodeChar c, 0) := by
  rcases h with rfl | rfl <;> rfl

theorem escapeBytes_doubleCode {c e : Char} (h : doubleCode c = some e) (rest : List Char) :
    escapeBytes e rest = (String.utf8EncodeChar c, 0) := by
  unfold doubleCode at h
  split at h
  · obtain rfl := Option.some.inj h
    exact escapeBytes_self ‹_› rest
  split at h
  · subst c
    obtain rfl := Option.some.inj h
    rfl
  · cases h

/-- What was escaped for double quotes is read back. -/
theorem stripCSlashes_escapeWith (text : List Char) :
    stripCSlashes (escapeWith doubleCode text) = text := by
  rw [stripCSlashes, cEscapedBytes_escapeWith (by decide) (fun _ _ => escapeBytes_doubleCode),
    decodeLossy_encode]

end FusionTree.Text
