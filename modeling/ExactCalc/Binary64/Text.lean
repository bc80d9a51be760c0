/-
  ExactCalc.Binary64.Text — floating-point values as decimal text.

  The text has the fewest digits that read back as the value, and of those the digits
  nearest to it. It is positional from `0.0001` up to sixteen digits before the point,
  and has an exponent otherwise; there is always a point or an exponent.
-/

import ExactCalc.Binary64.Basic

namespace ExactCalc.Binary64

/-- `digits · 10 ^ exponent` -/
def decimal (digits : Nat) (exponent : Int) : Rat :=
  mkRat (digits * Nat.pow 10 exponent.toNat) (Nat.pow 10 (-exponent).toNat)

/-- The integer part of the decimal logarithm of a positive rational. -/
def log10 (q : Rat) : Int :=
  let guess : Int := ((Nat.toDigits 10 q.num.natAbs).length : Int) - (Nat.toDigits 10 q.den).length
  if q < decimal 1 guess then guess - 1 else guess

/-- Of the two neighbours with `count` digits the one that reads back as `q`, or the nearer one
if both do; a tie goes to the even one. -/
def neighbour? (q : Rat) (count : Nat) : Option (Nat × Int) :=
  let exponent := log10 q - count + 1
  let below := (q / decimal 1 exponent).floor.toNat
  let readsBack := fun n => rounded (decimal n exponent) = q
  let twice := decimal (2 * below + 1) exponent
  if readsBack below && readsBack (below + 1) then
    let nearer :=
      if 2 * q < twice then below else if 2 * q > twice then below + 1 else below + below % 2
    some (nearer, exponent)
  else if readsBack below then some (below, exponent)
  else if readsBack (below + 1) then some (below + 1, exponent)
  else none

/-- The fewest digits that read back as a positive value, and their exponent. Seventeen are always
enough. -/
def shortest (q : Rat) : Nat × Int :=
  ((List.range' 1 17).findSome? (neighbour? q)).getD (q.floor.toNat, 0)

/-- The exponent of a numeral with its sign and two digits or more. -/
def exponentText (e : Int) : List Char :=
  let ds := Nat.toDigits 10 e.natAbs
  (if e < 0 then '-' else '+') :: (List.replicate (2 - ds.length) '0' ++ ds)

/-- Digits with the point after the first `point` of them. -/
def placePoint (ds : List Char) (point : Int) : List Char :=
  if point ≤ -4 ∨ 16 < point then
    match ds with
    | d :: [] => d :: 'e' :: exponentText (point - 1)
    | d :: rest => d :: '.' :: rest ++ 'e' :: exponentText (point - 1)
    | [] => []
  else if point ≤ 0 then '0' :: '.' :: List.replicate (-point).toNat '0' ++ ds
  else
    let before := ds.take point.toNat
    let after := ds.drop point.toNat
    before ++ List.replicate (point.toNat - ds.length) '0' ++ '.' ::
      if after.isEmpty then ['0'] else after

/-- A positive value. -/
def positiveText (q : Rat) : List Char :=
  let (n, exponent) := shortest q
  let ds := Nat.toDigits 10 n
  placePoint (ds.reverse.dropWhile (· == '0')).reverse (exponent + ds.length)

/-- A finite value. -/
def finiteText (q : Rat) : List Char :=
  if q = 0 then ['0', '.', '0']
  else if q < 0 then '-' :: positiveText (-q)
  else positiveText q

end ExactCalc.Binary64
