/-!
# UTF-8 lengths, offsets and decoding

Positions in a source are byte offsets into its UTF-8 form, while the text itself is kept as a list
of characters. This module measures and cuts such lists by bytes, and reads bytes back into
characters.

`takeBytes` and `dropBytes` succeed exactly on offsets between two characters, and then split the
text. `decodeLossy` reads any bytes: a sequence that breaks off or never was one becomes a single
replacement character, and the byte that broke it off is read afresh.
-/

namespace FusionTree.Text

def byteLength : List Char → Nat
  | [] => 0
  | c :: rest => c.utf8Size + byteLength rest

@[simp] theorem byteLength_nil : byteLength [] = 0 := rfl

@[simp] theorem byteLength_cons (c : Char) (rest : List Char) :
    byteLength (c :: rest) = c.utf8Size + byteLength rest := rfl

@[simp] theorem byteLength_append (s t : List Char) :
    byteLength (s ++ t) = byteLength s + byteLength t := by
  induction s with
  | nil => simp
  | cons c s ih => simp [ih, Nat.add_assoc]

/-- The text from byte offset `n` on, if `n` lies between two characters. -/
def dropBytes : Nat → List Char → Option (List Char)
  | 0, text => some text
  | _ + 1, [] => none
  | n + 1, c :: rest =>
    if c.utf8Size ≤ n + 1 then dropBytes (n + 1 - c.utf8Size) rest else none

/-- The text before byte offset `n`, if `n` lies between two characters. -/
def takeBytes : Nat → List Char → Option (List Char)
  | 0, _ => some []
  | _ + 1, [] => none
  | n + 1, c :: rest =>
    if c.utf8Size ≤ n + 1 then (takeBytes (n + 1 - c.utf8Size) rest).map (c :: ·) else none

@[simp] theorem dropBytes_zero (text : List Char) : dropBytes 0 text = some text := by
  cases text <;> rfl

@[simp] theorem takeBytes_zero (text : List Char) : takeBytes 0 text = some [] := by
  cases text <;> rfl

theorem dropBytes_byteLength_append (s t : List Char) :
    dropBytes (byteLength s) (s ++ t) = some t := by
  induction s with
  | nil => simp
  | cons c s ih =>
    have hc := c.utf8Size_pos
    obtain ⟨n, hn⟩ : ∃ n, c.utf8Size + byteLength s = n + 1 := ⟨_, (Nat.succ_pred (by omega)).symm⟩
    simp only [byteLength_cons, List.cons_append, hn, dropBytes]
    rw [if_pos (by omega), ← hn, Nat.add_sub_cancel_left, ih]

theorem takeBytes_byteLength_append (s t : List Char) :
    takeBytes (byteLength s) (s ++ t) = some s := by
  induction s with
  | nil => simp
  | cons c s ih =>
    have hc := c.utf8Size_pos
    obtain ⟨n, hn⟩ : ∃ n, c.utf8Size + byteLength s = n + 1 := ⟨_, (Nat.succ_pred (by omega)).symm⟩
    simp only [byteLength_cons, List.cons_append, hn, takeBytes]
    rw [if_pos (by omega), ← hn, Nat.add_sub_cancel_left, ih, Option.map_some]

def startingBefore : Nat → List Char → List Char
  | 0, _ => []
  | _, [] => []
  | n + 1, c :: rest => c :: startingBefore (n + 1 - c.utf8Size) rest

/-- The greatest offset between two characters that is not beyond `n`. -/
def boundaryBelow : Nat → List Char → Nat
  | _, [] => 0
  | n, c :: rest => if c.utf8Size ≤ n then c.utf8Size + boundaryBelow (n - c.utf8Size) rest else 0

def encode (text : List Char) : List UInt8 :=
  text.flatMap String.utf8EncodeChar

/-- A multi-byte sequence that has begun: the bits read so far, how many bytes are missing, and
the range that the next byte has to lie in. -/
structure Sequence where
  bits : Nat
  missing : Nat
  low : UInt8 := 0x80
  high : UInt8 := 0xBF

/-- What a byte is when no sequence is open. -/
inductive Lead
  | char (c : Char)
  | opens (sequence : Sequence)
  | invalid

/-- The second byte of a sequence has a narrower range after `E0`, `ED`, `F0` and `F4`: that rules
out overlong forms, surrogates and values beyond the last code point. -/
def Lead.ofByte (b : UInt8) : Lead :=
  if b < 0x80 then .char (Char.ofNat b.toNat)
  else if b < 0xC2 then .invalid
  else if b < 0xE0 then .opens { bits := b.toNat - 0xC0, missing := 1 }
  else if b < 0xF0 then
    .opens { bits := b.toNat - 0xE0, missing := 2
             low := if b = 0xE0 then 0xA0 else 0x80
             high := if b = 0xED then 0x9F else 0xBF }
  else if b < 0xF5 then
    .opens { bits := b.toNat - 0xF0, missing := 3
             low := if b = 0xF0 then 0x90 else 0x80
             high := if b = 0xF4 then 0x8F else 0xBF }
  else .invalid

def replacement : Char := '\uFFFD'

/-- What a byte adds to the text when no sequence is open, and the sequence open after it. -/
def decodeLead (b : UInt8) : List Char × Option Sequence :=
  match Lead.ofByte b with
  | .char c => ([c], none)
  | .opens s => ([], some s)
  | .invalid => ([replacement], none)

def decodeByte (pending : Option Sequence) (b : UInt8) : List Char × Option Sequence :=
  match pending with
  | none => decodeLead b
  | some s =>
    if s.low ≤ b ∧ b ≤ s.high then
      let bits := s.bits * 64 + (b.toNat - 0x80)
      if s.missing ≤ 1 then ([Char.ofNat bits], none)
      else ([], some { bits, missing := s.missing - 1 })
    else
      let (chars, next) := decodeLead b
      (replacement :: chars, next)

def decodeFrom (pending : Option Sequence) : List UInt8 → List Char
  | [] => if pending.isSome then [replacement] else []
  | b :: rest =>
    let (chars, next) := decodeByte pending b
    chars ++ decodeFrom next rest

/-- Reads bytes as UTF-8. Each longest broken start of a sequence becomes one replacement
character. -/
def decodeLossy (bytes : List UInt8) : List Char :=
  decodeFrom none bytes

end FusionTree.Text
