/-
  ExactCalc.Binary64.Basic — binary floating point of sixty-four bits: the numbers of
  JSON that are no integers, and the scale that `truncated_root` works with at a
  negative degree.

  - `Binary64.rounded`: a rational rounded to a significand of fifty-three bits, however
    large.
  - `Binary64.ofRat`: the value nearest to a rational; beyond the largest it is
    infinite.
  - `Binary64.ofDecimal`: the value nearest to a decimal numeral.

  A finite value is kept as the rational it equals, so that arithmetic on values is
  arithmetic on rationals followed by `rounded`.
-/

namespace ExactCalc

inductive Binary64 where
  | finite (value : Rat)
  | infinite (negative : Bool)
  | nan
  deriving DecidableEq

namespace Binary64

/-- The nearest integer to `num / den`; halves go to the even one. -/
def roundDiv (num den : Nat) : Nat :=
  let quotient := num / den
  let twice := 2 * (num % den)
  if twice < den then quotient
  else if twice > den then quotient + 1
  else quotient + quotient % 2

/-- The integer part of the base-two logarithm of `num / den`. -/
def log2Ratio (num den : Nat) : Int :=
  let guess : Int := (num.log2 : Int) - den.log2
  if num * Nat.pow 2 (-guess).toNat < den * Nat.pow 2 guess.toNat then guess - 1 else guess

/-- The exponent of the last bit of the value nearest to `num / den`. -/
def lastExponent (num den : Nat) : Int := max (log2Ratio num den - 52) (-1074)

/-- `num / den` rounded to a significand of fifty-three bits, whose last bit is worth no less than
`2 ^ -1074`. A tie goes to the even significand. -/
def roundedRatio (num den : Nat) : Rat :=
  if num = 0 then 0
  else
    let e := lastExponent num den
    let significand := roundDiv (num * Nat.pow 2 (-e).toNat) (den * Nat.pow 2 e.toNat)
    mkRat (significand * Nat.pow 2 e.toNat) (Nat.pow 2 (-e).toNat)

/-- A rational rounded to the same significands, the two signs alike. -/
def rounded (q : Rat) : Rat :=
  if q < 0 then -roundedRatio q.num.natAbs q.den else roundedRatio q.num.natAbs q.den

/-- The value nearest to a rational. -/
def ofRat (q : Rat) : Binary64 :=
  if (rounded q).abs < (Nat.pow 2 1024 : Nat) then finite (rounded q) else infinite (q < 0)

/-- The value of `n · 10 ^ exponent`, where `n` has `digits` digits. Exponents far out of range
need no arithmetic. -/
def ofDecimal (negative : Bool) (n digits : Nat) (exponent : Int) : Binary64 :=
  if n = 0 then finite 0
  else if exponent > 400 then infinite negative
  else if exponent + digits < -400 then finite 0
  else
    let magnitude := mkRat (n * Nat.pow 10 exponent.toNat) (Nat.pow 10 (-exponent).toNat)
    ofRat (if negative then -magnitude else magnitude)

/-- The value rounded toward zero, if it is finite. -/
def truncated? : Binary64 → Option Int
  | finite q => some (q.num.tdiv q.den)
  | _ => none

/-- The value, if it is an integer. -/
def integer? : Binary64 → Option Int
  | finite q => if q.den = 1 then some q.num else none
  | _ => none

end Binary64

end ExactCalc
