/-!
# Binary fractions

A number in the binary64 format of IEEE 754 is kept as its 64 bits. A finite one is its
significand times a power of two, and `ofRatio` finds the one nearest to a quotient of natural
numbers, a tie going to the even significand.
-/

namespace FusionTree

/-- A number in the binary64 format. -/
structure Binary64 where
  bits : UInt64
deriving Repr, DecidableEq, Inhabited

namespace Binary64

def isNegative (x : Binary64) : Bool :=
  x.bits.toNat / Nat.pow 2 63 = 1

def exponentField (x : Binary64) : Nat :=
  x.bits.toNat / Nat.pow 2 52 % Nat.pow 2 11

def fraction (x : Binary64) : Nat :=
  x.bits.toNat % Nat.pow 2 52

/-- Whether the bits stand for a number, rather than an infinity or no number at all. -/
def isFinite (x : Binary64) : Bool :=
  x.exponentField ≠ 2047

/-- The magnitude of a finite number is `significand * 2 ^ exponent`. -/
def significand (x : Binary64) : Nat :=
  if x.exponentField = 0 then x.fraction else x.fraction + Nat.pow 2 52

def exponent (x : Binary64) : Int :=
  (max x.exponentField 1 : Nat) - 1075

/-- The natural number nearest to a quotient; of two equally near ones, the even one. -/
def roundRatio (num den : Nat) : Nat :=
  let floor := num / den
  let twice := 2 * (num % den)
  if twice < den ∨ (twice = den ∧ floor % 2 = 0) then floor else floor + 1

/-- The power of two that scales a quotient to a significand. -/
def scaleOfRatio (num den : Nat) : Int :=
  let guess : Int := (num.log2 : Int) - den.log2 - 52
  let small : Bool :=
    if 0 ≤ guess then num < den * Nat.pow 2 (52 + guess.toNat)
    else num * Nat.pow 2 (-guess).toNat < den * Nat.pow 2 52
  max (if small then guess - 1 else guess) (-1074)

def ofRatio (negative : Bool) (num den : Nat) : Binary64 :=
  let scale := scaleOfRatio num den
  let significand :=
    if 0 ≤ scale then roundRatio num (den * Nat.pow 2 scale.toNat)
    else roundRatio (num * Nat.pow 2 (-scale).toNat) den
  let magnitude :=
    min ((scale + 1074).toNat * Nat.pow 2 52 + significand) (2047 * Nat.pow 2 52)
  ⟨((if negative then Nat.pow 2 63 else 0) + if num = 0 then 0 else magnitude).toUInt64⟩

/-- The number nearest to `digits / 10 ^ places`, with the given sign. -/
def ofDecimal (negative : Bool) (digits places : Nat) : Binary64 :=
  ofRatio negative digits (Nat.pow 10 places)

end Binary64

end FusionTree
