/-
  ExactCalc.Number.Decimal — numbers in decimal, cut off after a number of places
  (`Number.to_decimal_string`; SPEC §4.3).

  The text is a minus sign for a negative value, the integer part, the remaining places
  without trailing zeros, and an ellipsis where the number is flagged or digits were cut
  off.
-/

import ExactCalc.Number.Basic

namespace ExactCalc.Number

/-- Drops the zeros at the end. -/
def dropTrailingZeros (cs : List Char) : List Char :=
  (cs.reverse.dropWhile (· == '0')).reverse

/-- `|v|` in units of the last place shown, rounded down. -/
def scaled (a : Number) (places : Nat) : Nat :=
  a.value.num.natAbs * Nat.pow 10 places / a.value.den

/-- Whether the places shown do not hold the whole value. -/
def isCut (a : Number) (places : Nat) : Bool :=
  a.scaled places * a.value.den != a.value.num.natAbs * Nat.pow 10 places

/-- The digits after the point: `places` of them, less the trailing zeros. -/
def placeDigits (part places : Nat) : List Char :=
  let ds := Nat.toDigits 10 part
  dropTrailingZeros (List.replicate (places - ds.length) '0' ++ ds)

/-- `Number.to_decimal_string`: the value in decimal, with at most `places` digits after the
point. -/
def decimalChars (a : Number) (places : Nat) : List Char :=
  let shown := a.scaled places
  let fractional := if places = 0 then [] else placeDigits (shown % Nat.pow 10 places) places
  (if a.value < 0 then ['-'] else []) ++
    Digits.ofNat (shown / Nat.pow 10 places) ++
    (if fractional.isEmpty then [] else '.' :: fractional) ++
    (if a.inexact || a.isCut places then ['…'] else [])

def decimal (a : Number) (places : Nat) : String := String.ofList (a.decimalChars places)

/-- `Number.to_decimal_string` for a number of places that is not checked yet: it may be
negative, or ask for more digits than are written in one piece. -/
def decimal? (a : Number) (places : Int) : Except Fault String :=
  if places < 0 then .error (Fault.negativePlaces places).printable
  else if a.scaled places.toNat % Nat.pow 10 places.toNat ≥ Nat.pow 10 maxPrintedDigits then
    .error .numeralTooLong
  else .ok (a.decimal places.toNat)

end ExactCalc.Number
