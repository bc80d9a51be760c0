/-
  ExactCalc.Number.Scale — truncated roots at scales that are no integers
  (`truncated_root` outside its intended arguments).

  A root is cut off by scaling its radicand up. With a negative degree, or a negative
  number of digits, the scale is a fraction; the scaled radicand is then worked out in
  floating point, and there is no root of that. What is left to say is which fault comes
  first.
-/

import ExactCalc.Number.Root

namespace ExactCalc.Root

/-- An integer in floating point. -/
def realOf (n : Int) : Except Fault Rat :=
  match Binary64.ofRat n with
  | .finite q => .ok q
  | _ => .error .beyondReal

/-- A positive rational to an integer power. -/
def ratPower (q : Rat) (e : Int) : Rat :=
  let num := Nat.pow q.num.natAbs e.natAbs
  let den := Nat.pow q.den e.natAbs
  if e < 0 then mkRat den num else mkRat num den

/-- `10 ^ digits` in floating point. -/
def realTenPower (digits : Int) : Except Fault Rat :=
  if digits > 308 then .error .beyondReal
  else .ok (if digits < -330 then 0 else Binary64.rounded (ratPower 10 digits))

/-- The scale `10 ^ digits` to the power `degree`, in floating point. -/
def realScale (degree digits : Int) : Except Fault Rat := do
  let power ← realTenPower digits
  if degree = 0 ∨ digits = 0 then return 1
  else if power = 0 then
    if degree < 0 then throw .zeroScale else return 0
  else if degree * digits > 400 then throw .powerBeyondReal
  else if degree * digits < -400 then return 0
  else
    match Binary64.ofRat (ratPower power degree) with
    | .finite q => return q
    | _ => throw .powerBeyondReal

/-- The integer part of a quotient by a positive divisor, each step rounded. -/
def floorQuotient (x y : Rat) : Rat :=
  let ratio := x / y
  let rest := x - y * (ratio.num.tdiv ratio.den : Int)
  let quotient := Binary64.rounded (Binary64.rounded (x - rest) / y)
  let quotient := if rest < 0 then Binary64.rounded (quotient - 1) else quotient
  let whole : Rat := quotient.floor
  if quotient - whole > mkRat 1 2 then Binary64.rounded (whole + 1) else whole

/-- The scaled radicand in floating point; nothing where it is no number. -/
def scaledReal (value : Rat) (degree digits : Int) : Except Fault (Option Rat) := do
  let scale ← realScale degree digits
  let num ← realOf value.num
  let den ← realOf value.den
  return match Binary64.ofRat (num * scale) with
    | .finite product => some (floorQuotient product den)
    | _ => none

/-- What stops a root at a scale that is no integer. -/
def scaleFault (value : Rat) (degree digits : Int) : Fault :=
  let afterSign (small : Bool) : Fault :=
    if degree < 1 then .degreeNotPositive degree
    else if small || degree = 1 then .realRoot
    else .realBits
  match scaledReal value degree digits with
  | .error f => f
  | .ok none => afterSign false
  | .ok (some x) => if x < 0 then .negativeReal x else afterSign (x < 2)

/-- `truncated_root` for every degree and number of digits. -/
def truncatedAt (value : Rat) (degree digits : Int) : Except Fault Rat :=
  if degree < 0 ∨ digits < 0 then .error (scaleFault value degree digits)
  else truncatedRoot value degree digits.toNat

end ExactCalc.Root
