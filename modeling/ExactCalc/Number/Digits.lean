/-
  ExactCalc.Number.Digits — numerals of any length, converted in pieces of a thousand
  digits (`digits_to_int`, `int_to_digits`).

  - `ofDigits` reads the pieces of a decimal numeral from the left, the last one short.
  - `inBase` splits off the pieces from the right and pads all but the first with zeros.
-/

import ExactCalc.Failure
import ExactCalc.Pieces
import ExactCalc.Text.Numeral

namespace ExactCalc.Digits

/-- `_CONVERSION_CHUNK_DIGITS`: digits in a piece. -/
def pieceSize : Nat := 1000

/-- Appends a piece's numeral to the number read so far. -/
def addPiece (value : Int) (piece : List Char) : Except Fault Int :=
  match Text.Numeral.decimal? piece with
  | some n => .ok (value * (Nat.pow 10 piece.length : Nat) + n)
  | none => .error (.malformedNumeral piece)

/-- `digits_to_int`: the number that decimal digits denote, read from the left. -/
def ofDigits (cs : List Char) : Except Fault Int :=
  (pieces (pieceSize - 1) cs).foldlM addPiece 0

/-- The digits of `n` in base `size + 2`, least significant first. -/
def groups (size n : Nat) : List Nat :=
  if n < size + 2 then [n] else n % (size + 2) :: groups size (n / (size + 2))
termination_by n
decreasing_by exact Nat.div_lt_self (by omega) (by omega)

/-- The numeral of a piece that others stand to the left of. -/
def padded (base n : Nat) : List Char :=
  let ds := Nat.toDigits base n
  List.replicate (pieceSize - ds.length) '0' ++ ds

/-- `int_to_digits` in a base of at least two: the numeral of a natural number. -/
def inBase (base n : Nat) : List Char :=
  match (groups (Nat.pow base pieceSize - 2) n).reverse with
  | [] => []
  | head :: tail => Nat.toDigits base head ++ tail.flatMap (padded base)

/-- The decimal numeral of a natural number. -/
def ofNat (n : Nat) : List Char := inBase 10 n

/-- `int_to_digits`: the decimal numeral of an integer. -/
def ofInt (i : Int) : List Char :=
  if i < 0 then '-' :: ofNat i.natAbs else ofNat i.natAbs

end ExactCalc.Digits
