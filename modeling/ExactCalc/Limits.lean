/-
  ExactCalc.Limits — the bounds that keep every input's cost in check (SPEC §4.2 and
  §4.3).
-/

namespace ExactCalc

/-- `MAX_RESULT_BITS`: bits of the largest numerator or denominator of a result. -/
def maxResultBits : Nat := 332193

/-- `MAX_EXPONENT`: magnitude of the largest exponent's numerator. -/
def maxExponent : Nat := 100000

/-- `MAX_ROOT_DEGREE`: the largest degree of a root. -/
def maxRootDegree : Nat := 1024

/-- `MAX_LITERAL_DIGITS`: digits of the longest numeric literal. -/
def maxLiteralDigits : Nat := 100000

/-- `MAX_NESTING_DEPTH`: nodes on the longest path of an expression tree, and constructs open at
once in its text. -/
def maxNesting : Nat := 100

/-- `ROOT_PRECISION_DIGITS`: decimal digits that a root without a rational value keeps. -/
def rootDigits : Nat := 32

end ExactCalc
