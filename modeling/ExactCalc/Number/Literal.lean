/-
  ExactCalc.Number.Literal — numeric literals (`Number.from_literal`): digits, or digits
  with a decimal point among or around them, read exactly.

  A literal may end in one line break. That character takes a digit's place in every
  count, but has no value; a line break alone in its conversion piece is no numeral.
-/

import ExactCalc.Number.Basic

namespace ExactCalc.Number

/-- The text without one line break at its end. -/
def dropLineBreak (cs : List Char) : List Char :=
  if cs.getLast? = some '\n' then cs.dropLast else cs

/-- `_LITERAL_PATTERN`, but for the line break that may follow: digits with an optional point
after at least one of them, or a point before at least one. -/
def isLexeme (cs : List Char) : Bool :=
  let whole := cs.takeWhile Char.isDigit
  match cs.dropWhile Char.isDigit with
  | [] => !whole.isEmpty
  | c :: places => c == '.' && places.all Char.isDigit && !(whole.isEmpty && places.isEmpty)

/-- What stands before the first point and what after it. -/
def splitPoint (cs : List Char) : List Char × List Char :=
  (cs.takeWhile (· != '.'), (cs.dropWhile (· != '.')).drop 1)

/-- `Number.from_literal`: the exact value of a literal. -/
def ofLiteral (cs : List Char) : Except Failure Number :=
  if !isLexeme (dropLineBreak cs) then .error (.fault .malformedLiteral)
  else
    let (whole, places) := splitPoint cs
    if whole.length + places.length > maxLiteralDigits then .error (.eval .literalTooLong)
    else
      match Digits.ofDigits (whole ++ places) with
      | .ok n => .ok (exact (mkRat n (Nat.pow 10 places.length)))
      | .error f => .error (.fault f)

end ExactCalc.Number
