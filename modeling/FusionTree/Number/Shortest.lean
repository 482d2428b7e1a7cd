import FusionTree.Number.Binary64

/-!
# Shortest decimal text of a binary fraction

A finite number is written with the fewest significant digits that still read back as it, and
among those with the digits nearest to it. Where two are equally near, and where positional
notation gives way to a power of ten, a `Layout` decides.
-/

namespace FusionTree

/-- Which of two equally near decimals is written. -/
inductive TieRule
  | toEven
  | up
deriving Repr, DecidableEq

/-- How the digits of a fraction are laid out. Numbers below `10 ^ leastPositional` and from
`10 ^ 16` on are written with a power of ten. -/
structure Layout where
  leastPositional : Int
  tie : TieRule
  /-- Whether a positive power of ten has a plus sign. -/
  plus : Bool

namespace Binary64

/-- The numbers that read as one binary fraction: all between `low / den` and `high / den`, with
the two ends if `closed`; the fraction itself is `mid / den`. -/
structure Interval where
  low : Nat
  mid : Nat
  high : Nat
  den : Nat
  closed : Bool

/-- The interval of a positive finite number. Below a power of two the neighbours are half as far
away. -/
def interval (x : Binary64) : Interval :=
  let m := x.significand
  let q := x.exponent - 2
  let unit := if 0 ≤ q then Nat.pow 2 q.toNat else 1
  let below := if x.fraction = 0 ∧ 1 < x.exponentField then 1 else 2
  { low := (4 * m - below) * unit, mid := 4 * m * unit, high := (4 * m + 2) * unit
    den := if 0 ≤ q then 1 else Nat.pow 2 (-q).toNat
    closed := m % 2 = 0 }

def leadingPower (num den : Nat) : Int :=
  if den ≤ num then ((Nat.toDigits 10 (num / den)).length : Int) - 1
  else -((List.range 400).find? (fun k => den ≤ num * Nat.pow 10 k)).getD 0

/-- `digits * 10 ^ power` is a decimal. -/
structure Decimal where
  digits : Nat
  power : Int

namespace Interval

/-- A decimal and a quotient, both times one number that makes them natural: the decimal first. -/
def compared (i : Interval) (d : Decimal) (num : Nat) : Nat × Nat :=
  if 0 ≤ d.power then (d.digits * Nat.pow 10 d.power.toNat * i.den, num)
  else (d.digits * i.den, num * Nat.pow 10 (-d.power).toNat)

def holds (i : Interval) (d : Decimal) : Bool :=
  let (a, low) := i.compared d i.low
  let (b, high) := i.compared d i.high
  if i.closed then low ≤ a && b ≤ high else low < a && b < high

/-- The decimal with `count` digits nearest to the middle, if one of the two around the middle
lies in the interval. -/
def nearest? (i : Interval) (tie : TieRule) (count : Nat) : Option Decimal :=
  let power := leadingPower i.mid i.den + 1 - count
  let floor :=
    if 0 ≤ power then i.mid / (i.den * Nat.pow 10 power.toNat)
    else i.mid * Nat.pow 10 (-power).toNat / i.den
  let below : Decimal := ⟨floor, power⟩
  let above : Decimal := ⟨floor + 1, power⟩
  match i.holds below, i.holds above with
  | false, false => none
  | true, false => some below
  | false, true => some above
  | true, true =>
    let (twice, mid) := i.compared ⟨2 * floor + 1, power⟩ (2 * i.mid)
    if mid < twice ∨ (mid = twice ∧ tie = .toEven ∧ floor % 2 = 0) then some below else some above

end Interval

def shortest (x : Binary64) (tie : TieRule) : Decimal :=
  ((List.range 17).findSome? fun count => x.interval.nearest? tie (count + 1)).getD ⟨0, 0⟩

def zeros (count : Int) : List Char :=
  List.replicate count.toNat '0'

/-- Lays out significant digits, the first of which counts `10 ^ lead`. -/
def layOut (layout : Layout) (digits : List Char) (lead : Int) : List Char :=
  if lead < layout.leastPositional ∨ 16 ≤ lead then
    let mantissa := match digits with
      | [] => []
      | [d] => [d]
      | d :: more => d :: '.' :: more
    let sign := if layout.plus ∧ 0 ≤ lead then ['+'] else []
    mantissa ++ 'e' :: (sign ++ (toString lead).toList)
  else if lead < 0 then
    '0' :: '.' :: (zeros (-lead - 1) ++ digits)
  else
    let whole := digits.take (lead + 1).toNat
    let places := digits.drop (lead + 1).toNat
    whole ++ zeros (lead + 1 - digits.length) ++ '.' :: if places = [] then ['0'] else places

def toText (x : Binary64) (layout : Layout) : String :=
  let sign := if x.isNegative then ['-'] else []
  if x.significand = 0 then String.ofList (sign ++ ['0', '.', '0'])
  else
    let d := x.shortest layout.tie
    let all := Nat.toDigits 10 d.digits
    let significant := (all.reverse.dropWhile (· = '0')).reverse
    String.ofList (sign ++ layOut layout significant (all.length - 1 + d.power))

end Binary64

end FusionTree
