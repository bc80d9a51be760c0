/-
  ExactCalc.Number.Basic — exact rational numbers with a flag for lost precision
  (`Number`; SPEC §3).

  A `Number` is a rational and a flag that says whether it stands for a value it only
  approximates. Comparisons look at the value alone. Every result of arithmetic is
  bounded in size, and flagged as soon as one operand is.
-/

import ExactCalc.Number.Digits
import ExactCalc.Number.Root

namespace ExactCalc

/-- `Number`: a rational, and whether it only approximates the value it stands for. -/
structure Number where
  value : Rat
  inexact : Bool
  deriving DecidableEq

namespace Number

/-- A number that stands for itself. -/
def exact (q : Rat) : Number := ⟨q, false⟩

/-- `Number.from_parts`: the quotient of two integers, flagged or not. -/
def ofParts (num den : Int) (inexact : Bool) : Except Fault Number := do
  return ⟨← Root.ratio num den, inexact⟩

def isInteger (a : Number) : Bool := a.value.den == 1

def isZero (a : Number) : Bool := a.value == 0

/-- `Number.sign`: minus one, zero or one. -/
def sign (a : Number) : Int := a.value.num.sign

/-- The order of the values (`Number.__lt__`, `__eq__`). -/
def order (a b : Number) : Ordering :=
  if a.value < b.value then .lt else if a.value = b.value then .eq else .gt

/-! ## Arithmetic (`__neg__`, `__add__`, `__sub__`, `__mul__`, `__truediv__`) -/

/-- `_check_size` with `Number._derived`: a result within the supported size. -/
def bounded (value : Rat) (inexact : Bool) : Except Failure Number :=
  if bitSize value > maxResultBits then .error (.eval .resultTooLarge) else .ok ⟨value, inexact⟩

def neg (a : Number) : Except Failure Number := bounded (-a.value) a.inexact

def add (a b : Number) : Except Failure Number :=
  bounded (a.value + b.value) (a.inexact || b.inexact)

def sub (a b : Number) : Except Failure Number :=
  bounded (a.value - b.value) (a.inexact || b.inexact)

def mul (a b : Number) : Except Failure Number :=
  bounded (a.value * b.value) (a.inexact || b.inexact)

/-- A quotient, unless the divisor is zero. -/
def div (a b : Number) : Except Failure Number :=
  if b.isZero then .error (.eval .divisionByZero)
  else bounded (a.value / b.value) (a.inexact || b.inexact)

/-! ## Fraction text -/

/-- `p/q`, or `p` for an integer. -/
def fractionChars (a : Number) : List Char :=
  if a.isInteger then Digits.ofInt a.value.num
  else Digits.ofInt a.value.num ++ '/' :: Digits.ofNat a.value.den

/-- `Number.to_fraction_string`. -/
def fraction (a : Number) : String := String.ofList a.fractionChars

end Number

end ExactCalc
