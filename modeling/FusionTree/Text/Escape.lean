import FusionTree.Text.Utf8

/-!
# Escapes in quoted text

Two ways to read the text between quotes. `stripSlashes` drops the backslash of every escape pair.
`stripCSlashes` also knows the named escapes of C, `\xHH` and `\NNN`; these stand for bytes, so the
whole text is read as bytes first and as UTF-8 afterwards, and neighbouring escapes may combine
into one character.
-/

namespace FusionTree.Text

/-- Drops the backslash of every escape pair. The pair `\0` is a NUL, and a backslash at the end
of the text is dropped. -/
def stripSlashes : List Char → List Char
  | [] => []
  | ['\\'] => []
  | '\\' :: c :: rest => (if c = '0' then '\x00' else c) :: stripSlashes rest
  | c :: rest => c :: stripSlashes rest

def namedEscape? : Char → Option UInt8
  | 'n' => some 0x0A
  | 't' => some 0x09
  | 'r' => some 0x0D
  | 'a' => some 0x07
  | 'v' => some 0x0B
  | 'b' => some 0x08
  | 'f' => some 0x0C
  | _ => none

def octalDigit? (c : Char) : Option UInt8 :=
  if '0' ≤ c ∧ c ≤ '7' then some (c.toNat - '0'.toNat).toUInt8 else none

def hexDigit? (c : Char) : Option UInt8 :=
  if '0' ≤ c ∧ c ≤ '9' then some (c.toNat - '0'.toNat).toUInt8
  else if 'a' ≤ c ∧ c ≤ 'f' then some (c.toNat - 'a'.toNat + 10).toUInt8
  else if 'A' ≤ c ∧ c ≤ 'F' then some (c.toNat - 'A'.toNat + 10).toUInt8
  else none

/-- The digits at the head of a text, at most `limit` of them. -/
def leadingDigits (digit? : Char → Option UInt8) : (limit : Nat) → List Char → List UInt8
  | 0, _ => []
  | _, [] => []
  | limit + 1, c :: rest =>
    match digit? c with
    | some d => d :: leadingDigits digit? limit rest
    | none => []

/-- The byte that digits of a base spell, modulo 256. -/
def byteOfDigits (base : UInt8) (digits : List UInt8) : UInt8 :=
  digits.foldl (fun value d => value * base + d) 0

/-- The bytes that a backslash before `c` stands for, and how many of the characters after `c`
belong to the escape. -/
def escapeBytes (c : Char) (rest : List Char) : List UInt8 × Nat :=
  match namedEscape? c with
  | some b => ([b], 0)
  | none =>
    match octalDigit? c with
    | some d =>
      let more := leadingDigits octalDigit? 2 rest
      ([byteOfDigits 8 (d :: more)], more.length)
    | none =>
      match leadingDigits hexDigit? (if c = 'x' then 2 else 0) rest with
      | [] => (String.utf8EncodeChar c, 0)
      | digits => ([byteOfDigits 16 digits], digits.length)

def cEscapedBytes (text : List Char) : List UInt8 :=
  match text with
  | [] => []
  | ['\\'] => []
  | '\\' :: c :: rest =>
    let (bytes, used) := escapeBytes c rest
    bytes ++ cEscapedBytes (rest.drop used)
  | c :: rest => String.utf8EncodeChar c ++ cEscapedBytes rest
termination_by text.length

/-- Decodes the C escapes of a text. Bytes that do not form characters are replaced. -/
def stripCSlashes (text : List Char) : List Char :=
  decodeLossy (cEscapedBytes text)

end FusionTree.Text
