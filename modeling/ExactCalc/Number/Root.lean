/-
  ExactCalc.Number.Root — roots of natural numbers and of rationals (`integer_root`,
  `exact_root`, `truncated_root`).

  - `floorRoot` is the integer part of a root, by Newton's iteration from above.
  - `integerRoot` is the same behind a check of its arguments.
  - `exactRoot?` finds a rational root where there is one: numerator and denominator in
    lowest terms must both be perfect powers.
  - `truncatedRoot` keeps a number of decimal digits of any root.
-/

import ExactCalc.Failure

namespace ExactCalc.Root

/-- Newton's next guess for the `degree`-th root of `value`. -/
def newtonStep (value degree guess : Nat) : Nat :=
  ((degree - 1) * guess + value / Nat.pow guess (degree - 1)) / degree

/-- The loop of `integer_root`: follows the guesses for as long as they fall. -/
def descend (value degree guess : Nat) : Nat :=
  if newtonStep value degree guess < guess then
    descend value degree (newtonStep value degree guess)
  else guess
termination_by guess

/-- A power of two that is no less than the root. -/
def firstGuess (value degree : Nat) : Nat :=
  Nat.pow 2 ((bitLength value + degree - 1) / degree)

/-- `integer_root` behind its checks: the integer part of the `degree`-th root of `value`. -/
def floorRoot (value degree : Nat) : Nat :=
  if value < 2 || degree = 1 then value else descend value degree (firstGuess value degree)

/-- `integer_root`: the integer part of a root, of a value that is not negative and a degree
that is positive. -/
def integerRoot (value degree : Int) : Except Fault Nat :=
  if value < 0 then .error (.negativeRadicand value)
  else if degree < 1 then .error (.degreeNotPositive degree)
  else .ok (floorRoot value.toNat degree.toNat)

/-- The `degree`-th root of `value` if that is an integer. -/
def perfectRoot? (value degree : Int) : Except Fault (Option Nat) := do
  let root ← integerRoot value degree
  return if (Nat.pow root degree.toNat : Nat) = value then some root else none

/-- The quotient of two integers. -/
def ratio (num den : Int) : Except Fault Rat :=
  if den = 0 then .error .zeroDenominator else .ok (Rat.divInt num den)

/-- `exact_root`: the `degree`-th root of a rational that is not negative, if it is rational. -/
def exactRoot? (value : Rat) (degree : Int) : Except Fault (Option Rat) := do
  match ← perfectRoot? value.num degree with
  | none => return none
  | some num =>
    match ← perfectRoot? value.den degree with
    | none => return none
    | some den => return some (← ratio num den)

/-- `truncated_root`: the `degree`-th root of a rational that is not negative, cut off after
`digits` decimals. -/
def truncatedRoot (value : Rat) (degree : Int) (digits : Nat) : Except Fault Rat := do
  let scale := Nat.pow 10 digits
  let root ← integerRoot (value.num * (Nat.pow scale degree.toNat : Nat) / value.den) degree
  ratio root scale

end ExactCalc.Root
