/-!
# TOML numbers and dates

Which texts without blanks, quotes and brackets are numbers, dates or times. Digits may have single
underscores between them; a whole number has to fit into 64 bits, and a fraction must not be
infinite unless it is written so.
-/

namespace FusionTree.Toml

def isDigit (c : Char) : Bool := '0' ≤ c && c ≤ '9'

def digitValue (c : Char) : Nat :=
  if isDigit c then c.toNat - '0'.toNat
  else if 'a' ≤ c && c ≤ 'f' then c.toNat - 'a'.toNat + 10
  else if 'A' ≤ c && c ≤ 'F' then c.toNat - 'A'.toNat + 10
  else 16

/-- Digits of a base with single underscores between them, without the underscores. -/
def digits? (base : Nat) : List Char → Option (List Char)
  | [] => none
  | [c] => if digitValue c < base then some [c] else none
  | c :: '_' :: rest => if digitValue c < base then (digits? base rest).map (c :: ·) else none
  | c :: rest => if digitValue c < base then (digits? base rest).map (c :: ·) else none

def valueOf (base : Nat) (digits : List Char) : Nat :=
  digits.foldl (fun value c => base * value + digitValue c) 0

/-- Decimal digits without a leading zero, or a single zero. -/
def wholePart? (text : List Char) : Option (List Char) :=
  (digits? 10 text).filter fun ds => ds.head? ≠ some '0' || text = ['0']

def unsigned : List Char → Bool × List Char
  | '-' :: rest => (true, rest)
  | '+' :: rest => (false, rest)
  | text => (false, text)

def isInteger (text : List Char) : Bool :=
  let fits (base : Nat) (digits : List Char) : Bool :=
    (digits? base digits).any fun ds => valueOf base ds < Nat.pow 2 63
  match text with
  | '0' :: 'x' :: rest => fits 16 rest
  | '0' :: 'o' :: rest => fits 8 rest
  | '0' :: 'b' :: rest => fits 2 rest
  | _ =>
    let (negative, rest) := unsigned text
    (wholePart? rest).any fun ds => valueOf 10 ds < Nat.pow 2 63 + if negative then 1 else 0

/-- Whether `digits * 10 ^ power` rounds to infinity. -/
def isHuge (digits : List Char) (power : Int) : Bool :=
  let significant := digits.dropWhile (· = '0')
  let lead : Int := significant.length + power
  if significant.isEmpty ∨ lead < 309 then false
  else if 309 < lead then true
  else
    let value := valueOf 10 significant
    let least := Nat.pow 2 1024 - Nat.pow 2 970
    if 0 ≤ power then least ≤ value * Nat.pow 10 power.toNat
    else least * Nat.pow 10 (-power).toNat ≤ value

def exponent? (text : List Char) : Option Int :=
  let (negative, rest) := unsigned text
  (digits? 10 rest).map fun ds =>
    let value : Int := valueOf 10 ds
    if negative then -value else value

def isFloat (text : List Char) : Bool :=
  let (negative, rest) := unsigned text
  if rest = ['i', 'n', 'f'] ∨ rest = ['n', 'a', 'n'] then true
  else
    let isExponent (c : Char) : Bool := c = 'e' || c = 'E'
    let mantissa := rest.takeWhile (!isExponent ·)
    let tail := rest.dropWhile (!isExponent ·)
    let whole := mantissa.takeWhile (· ≠ '.')
    let point := mantissa.dropWhile (· ≠ '.')
    let places : Option (List Char) := if point.isEmpty then some [] else digits? 10 (point.drop 1)
    let power : Option Int := if tail.isEmpty then some 0 else exponent? (tail.drop 1)
    match wholePart? whole, places, power with
    | some ds, some ps, some power =>
      !(point.isEmpty && tail.isEmpty) && (negative || !isHuge (ds ++ ps) (power - ps.length))
    | _, _, _ => false

/-- The number that exactly `count` digits spell, and what follows them. -/
def fixedDigits? (count : Nat) (text : List Char) : Option (Nat × List Char) :=
  let ds := text.take count
  if ds.length = count ∧ ds.all isDigit then some (valueOf 10 ds, text.drop count) else none

def expect? (c : Char) : List Char → Option (List Char)
  | d :: rest => if c = d then some rest else none
  | [] => none

def daysOf (year month : Nat) : Nat :=
  if month = 2 then
    if year % 4 = 0 ∧ (year % 100 ≠ 0 ∨ year % 400 = 0) then 29 else 28
  else if month = 4 ∨ month = 6 ∨ month = 9 ∨ month = 11 then 30
  else 31

def afterDate? (text : List Char) : Option (List Char) := do
  let (year, rest) ← fixedDigits? 4 text
  let (month, rest) ← fixedDigits? 2 (← expect? '-' rest)
  let (day, rest) ← fixedDigits? 2 (← expect? '-' rest)
  if 1 ≤ month ∧ month ≤ 12 ∧ 1 ≤ day ∧ day ≤ daysOf year month then some rest else none

def afterTime? (text : List Char) : Option (List Char) := do
  let (hour, rest) ← fixedDigits? 2 text
  let (minute, rest) ← fixedDigits? 2 (← expect? ':' rest)
  let (second, rest) ← fixedDigits? 2 (← expect? ':' rest)
  if 23 < hour ∨ 59 < minute ∨ 60 < second then none
  else match rest with
    | '.' :: fraction =>
      if (fraction.takeWhile isDigit).isEmpty then none else some (fraction.dropWhile isDigit)
    | _ => some rest

def isOffset : List Char → Bool
  | [] | ['Z'] | ['z'] => true
  | sign :: rest =>
    let found : Option Bool := do
      let (hour, rest) ← fixedDigits? 2 rest
      let (minute, rest) ← fixedDigits? 2 (← expect? ':' rest)
      return hour ≤ 23 && minute ≤ 59 && rest.isEmpty
    (sign = '+' || sign = '-') && found.getD false

def isOffsetTime (text : List Char) : Bool :=
  (afterTime? text).any isOffset

def isDate (text : List Char) : Bool :=
  afterDate? text = some []

/-- Whether a text is a date, a time, or both with a letter between them. -/
def isDatetime (text : List Char) : Bool :=
  match afterDate? text with
  | some [] => true
  | some (c :: time) => (c = 'T' || c = 't') && isOffsetTime time
  | none => afterTime? text = some []

end FusionTree.Toml
