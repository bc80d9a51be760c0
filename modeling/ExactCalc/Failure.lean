/-
  ExactCalc.Failure — why an input has no value (`CalcError`, `LexError`, `ParseError`,
  `EvalError`; SPEC §7).

  - `LexError`, `ParseError`, `EvalError`: the causes for which an input is rejected,
    each with the one wording that a user sees.
  - `Rejection`: a cause with the place in the text, where it has one.
  - `Fault`: a broken promise inside the calculator, such as a tree that no text
    denotes. No text leads to one.
  - `Failure`: either of the two.
-/

import ExactCalc.Binary64.Text
import ExactCalc.Limits
import ExactCalc.Text.Quoted

namespace ExactCalc

/-- The bits of a natural number's binary numeral; zero has none. -/
def bitLength (n : Nat) : Nat := if n = 0 then 0 else n.log2 + 1

/-- The larger of the bit lengths of numerator and denominator. -/
def bitSize (q : Rat) : Nat := max (bitLength q.num.natAbs) (bitLength q.den)

/-- An integer in plain decimal. -/
def intText (i : Int) : String :=
  if i < 0 then "-" ++ i.natAbs.repr else i.natAbs.repr

/-- `_describe`: a rational in a message, written out up to 256 bits, beyond that by its size. -/
def describe (q : Rat) : String :=
  if bitSize q > 256 then "<" ++ (bitSize q).repr ++ "-bit value>"
  else if q.den = 1 then intText q.num
  else intText q.num ++ "/" ++ q.den.repr

/-! ## Lexing -/

/-- `LexError`: a character that starts no token. -/
structure LexError where
  character : Char
  position : Nat
  deriving DecidableEq

def LexError.message (e : LexError) : String :=
  "Unrecognized character " ++ String.ofList (Text.quoted [e.character])

/-! ## Parsing -/

/-- `ParseError`: a text that is no input, by what is wrong with it. -/
inductive ParseError where
  | empty
  /-- A closing parenthesis that nothing opened. -/
  | strayClose
  /-- An opening parenthesis that nothing closes. -/
  | missingClose
  /-- A token after a complete expression. -/
  | trailing (text : String)
  /-- Another token where a parenthesis has to close. -/
  | closeExpected (found : String)
  | operandExpected (found : String)
  | operandMissing
  | tooDeep
  deriving DecidableEq

/-- `ParseErrorKind`. -/
inductive ParseError.Kind where
  | unmatchedParen
  | trailingInput
  | emptyExpression
  | unexpectedToken
  | nestingTooDeep
  deriving DecidableEq

def ParseError.kind : ParseError → Kind
  | empty => .emptyExpression
  | strayClose | missingClose => .unmatchedParen
  | trailing _ => .trailingInput
  | closeExpected _ | operandExpected _ | operandMissing => .unexpectedToken
  | tooDeep => .nestingTooDeep

def ParseError.Kind.name : Kind → String
  | unmatchedParen => "UNMATCHED_PAREN"
  | trailingInput => "TRAILING_INPUT"
  | emptyExpression => "EMPTY_EXPRESSION"
  | unexpectedToken => "UNEXPECTED_TOKEN"
  | nestingTooDeep => "NESTING_TOO_DEEP"

def ParseError.message : ParseError → String
  | empty => "Empty expression"
  | strayClose => "Closing parenthesis without a matching opening parenthesis"
  | missingClose => "Missing closing parenthesis"
  | trailing text =>
    "Unexpected " ++ String.ofList (Text.quoted text.toList) ++ " after complete expression"
  | closeExpected found => "Expected ')' but found " ++ String.ofList (Text.quoted found.toList)
  | operandExpected found =>
    "Unexpected " ++ String.ofList (Text.quoted found.toList) ++ " where an operand was expected"
  | operandMissing => "Expression ends where an operand was expected"
  | tooDeep => "Expression nests deeper than " ++ maxNesting.repr ++ " levels"

/-! ## Evaluation -/

/-- `EvalError`: an operation without a result. -/
inductive EvalError where
  | divisionByZero
  | zeroToNegativePower
  | exponentTooLarge (exponent : Rat)
  /-- The exponent's denominator asks for a root of too high a degree. -/
  | exponentDegreeTooLarge (exponent : Rat)
  | powerNotReal (base exponent : Rat)
  | powerNotRational (base exponent : Rat)
  | powerTooLarge (exponent : Rat)
  | rootDegreeInvalid (degree : Rat)
  | rootDegreeTooLarge (degree : Rat)
  | evenRootOfNegative (radicand : Rat)
  | resultTooLarge
  | literalTooLong
  | undefinedVariable (name : String)
  | reservedName (name : String)
  | invalidName (name : String)
  deriving DecidableEq

/-- `EvalErrorKind`. -/
inductive EvalError.Kind where
  | divisionByZero
  | invalidExponent
  | complexResult
  | undefinedVariable
  | invalidName
  | reservedName
  | resultTooLarge
  deriving DecidableEq

def EvalError.kind : EvalError → Kind
  | divisionByZero | zeroToNegativePower => .divisionByZero
  | exponentTooLarge _ | exponentDegreeTooLarge _ | powerNotRational _ _ | powerTooLarge _
  | rootDegreeInvalid _ | rootDegreeTooLarge _ => .invalidExponent
  | powerNotReal _ _ | evenRootOfNegative _ => .complexResult
  | resultTooLarge | literalTooLong => .resultTooLarge
  | undefinedVariable _ => .undefinedVariable
  | reservedName _ => .reservedName
  | invalidName _ => .invalidName

def EvalError.Kind.name : Kind → String
  | divisionByZero => "DIVISION_BY_ZERO"
  | invalidExponent => "INVALID_EXPONENT"
  | complexResult => "COMPLEX_RESULT"
  | undefinedVariable => "UNDEFINED_VARIABLE"
  | invalidName => "INVALID_NAME"
  | reservedName => "RESERVED_NAME"
  | resultTooLarge => "RESULT_TOO_LARGE"

def EvalError.message : EvalError → String
  | divisionByZero => "Division by zero"
  | zeroToNegativePower => "Zero cannot be raised to a negative power"
  | exponentTooLarge p =>
    "Exponent " ++ describe p ++ " exceeds the supported magnitude " ++ maxExponent.repr
  | exponentDegreeTooLarge p =>
    "Exponent " ++ describe p ++ " has a root degree above " ++ maxRootDegree.repr
  | powerNotReal b p => describe b ++ " raised to " ++ describe p ++ " has no real value"
  | powerNotRational b p =>
    describe b ++ " raised to " ++ describe p ++ " has no exact rational value"
  | powerTooLarge p => "Exponent " ++ describe p ++ " would exceed the supported result size"
  | rootDegreeInvalid d => "Root degree must be a positive integer, got " ++ describe d
  | rootDegreeTooLarge d =>
    "Root degree " ++ describe d ++ " exceeds the supported maximum " ++ maxRootDegree.repr
  | evenRootOfNegative v =>
    "Even root of negative number " ++ describe v ++ " is not a real number"
  | resultTooLarge => "Result exceeds the supported size of " ++ maxResultBits.repr ++ " bits"
  | literalTooLong => "Numeric literal exceeds " ++ maxLiteralDigits.repr ++ " digits"
  | undefinedVariable name => "Undefined variable: " ++ name
  | reservedName name => "'" ++ name ++ "' is reserved and cannot be assigned"
  | invalidName name => "'" ++ name ++ "' is not a valid variable name"

/-- The variable an error is about. -/
def EvalError.name? : EvalError → Option String
  | undefinedVariable name | reservedName name | invalidName name => some name
  | _ => none

/-! ## Rejected inputs -/

/-- `CalcError`: a cause with its place in the text, where it has one. -/
inductive Rejection where
  | lex (error : LexError)
  | parse (error : ParseError) (position : Nat)
  | eval (error : EvalError) (position : Option Nat)
  deriving DecidableEq

namespace Rejection

/-- The `kind` that a user sees. -/
def kindName : Rejection → String
  | lex _ => "UNRECOGNIZED_CHARACTER"
  | parse e _ => e.kind.name
  | eval e _ => e.kind.name

def position? : Rejection → Option Nat
  | lex e => some e.position
  | parse _ p => some p
  | eval _ p => p

/-- What is wrong, without the place. -/
def cause : Rejection → String
  | lex e => e.message
  | parse e _ => e.message
  | eval e _ => e.message

def message (r : Rejection) : String :=
  match r.position? with
  | none => r.cause
  | some p => r.cause ++ " (at position " ++ p.repr ++ ")"

end Rejection

/-! ## Faults -/

inductive Fault where
  | negativeRadicand (value : Int)
  | degreeNotPositive (degree : Int)
  | zeroDenominator
  | malformedLiteral
  | malformedNumeral (text : List Char)
  /-- An integer with more decimal digits than are written in one piece. -/
  | numeralTooLong
  | negativePlaces (places : Int)
  | unknownOperator (symbol : String)
  | nestedAssignment
  /-- A negative radicand that was worked out in floating point. -/
  | negativeReal (value : Rat)
  /-- A root of a floating-point radicand, which is no ratio of integers. -/
  | realRoot
  /-- A floating-point radicand where only bits of an integer help. -/
  | realBits
  /-- An integer beyond floating point. -/
  | beyondReal
  /-- A power beyond floating point. -/
  | powerBeyondReal
  | zeroScale
  deriving DecidableEq

/-- Digits of the longest integer that is written in one piece. -/
def maxPrintedDigits : Nat := 4300

/-- An integer in a message, if it is short enough for one. -/
def printed? (i : Int) : Option String :=
  if i.natAbs < Nat.pow 10 maxPrintedDigits then some (intText i) else none

/-- The fault with the text it would quote replaced by the fault of being too long to quote. -/
def Fault.printable (f : Fault) : Fault :=
  match f with
  | negativeRadicand i | degreeNotPositive i | negativePlaces i =>
    if (printed? i).isSome then f else numeralTooLong
  | _ => f

def Fault.message : Fault → String
  | negativeRadicand i => "value must be non-negative, got " ++ intText i
  | degreeNotPositive i => "degree must be positive, got " ++ intText i
  | zeroDenominator => "denominator must be non-zero"
  | malformedLiteral => "Invalid numeric literal"
  | malformedNumeral text => "not a decimal numeral: " ++ String.ofList (Text.quoted text)
  | numeralTooLong => "integer has more than " ++ maxPrintedDigits.repr ++ " digits"
  | negativePlaces i => "decimal_places must be non-negative, got " ++ intText i
  | unknownOperator symbol =>
    "Unknown binary operator: " ++ String.ofList (Text.quoted symbol.toList)
  | nestedAssignment => "Assignment is only valid as an entire input"
  | negativeReal q =>
    "value must be non-negative, got " ++ String.ofList (Binary64.finiteText q)
  | realRoot => "a floating-point root is not a rational"
  | realBits => "a floating-point radicand has no bits to start from"
  | beyondReal => "integer is too large for floating point"
  | powerBeyondReal => "power is too large for floating point"
  | zeroScale => "zero cannot be raised to a negative power"

/-- Why there is no result: the input is at fault, or the calculator is. -/
inductive Failure where
  | rejected (reason : Rejection)
  | fault (fault : Fault)
  deriving DecidableEq

/-- Rejection by an arithmetic cause, which has no place in the text. -/
def Failure.eval (e : EvalError) : Failure := .rejected (.eval e none)

end ExactCalc
