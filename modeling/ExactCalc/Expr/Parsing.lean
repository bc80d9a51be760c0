/-
  ExactCalc.Expr.Parsing — from tokens to expression trees (`Parser`, `parse`;
  SPEC §4.2).

  From weakest to strongest: assignment of a whole input, sums, products, powers and
  roots between two operands, prefix signs and roots, and primaries. Sums and products
  group to the left, powers and roots to the right. A sign binds tighter than the power
  after it; a prefix root takes a whole power.

  Tokens are asked for one at a time, so an error in the grammar comes before an
  unrecognized character to its right.

  Parentheses, signs, roots and right operands of powers nest at most `maxNesting` deep;
  `Levels` holds the parsers for what may still open, and `levels` builds them from the
  inside out.
-/

import ExactCalc.Expr.Basic
import ExactCalc.Number.Literal
import ExactCalc.Variables

namespace ExactCalc.Expr

open Token (Ending Scan)

/-- An expression, and the tokens after it. -/
abbrev Reading := Except Failure (Expr × List Token)

/-- The parsers that a nested construct calls. -/
structure Levels where
  sum : List Token → Reading
  power : List Token → Reading
  signs : List Token → Reading

def reject {α : Type} (error : ParseError) (position : Nat) : Except Failure α :=
  .error (.rejected (.parse error position))

section Grammar

variable (ending : Ending)

/-- `Parser._peek`: the next token; after the last one the end of the text, or the character
that stopped the scan. -/
def peek : List Token → Except Failure Token
  | t :: _ => .ok t
  | [] =>
    match ending with
    | .finished length => .ok (Token.finish length)
    | .stuck error => .error (.rejected (.lex error))

/-- `Parser._is_root`. -/
def isRootMark (t : Token) : Bool :=
  match t.kind with
  | .identifier => Variables.reserved.contains t.text
  | .operator => t.text == String.singleton Token.rootSign
  | _ => false

def isSymbol (t : Token) (symbol : String) : Bool :=
  t.kind = .operator && t.text = symbol

def sumOperator? (t : Token) : Option Operator :=
  if isSymbol t "+" then some .add else if isSymbol t "-" then some .sub else none

def productOperator? (t : Token) : Option Operator :=
  if isSymbol t "*" then some .mul else if isSymbol t "/" then some .div else none

def sign? (t : Token) : Option Sign :=
  if isSymbol t "-" then some .minus else if isSymbol t "+" then some .plus else none

/-- `Parser._node`: a new node that `t` brought about, unless the tree has become too deep. -/
def node (t : Token) (e : Expr) : Except Failure Expr :=
  if e.depth > maxNesting then reject .tooDeep t.start else .ok e

/-- `Parser._nested`: the parsers for what `t` opens, unless too much is open already. -/
def opened (t : Token) (inner : Option Levels) : Except Failure Levels :=
  match inner with
  | some levels => .ok levels
  | none => reject .tooDeep t.start

/-- The value of a number token; what is wrong with it, is wrong at its place. -/
def number (t : Token) : Except Failure Expr :=
  match Number.ofLiteral t.text.toList with
  | .ok v => .ok (.literal v)
  | .error (.rejected (.eval e _)) => .error (.rejected (.eval e (some t.start)))
  | .error f => .error f

/-- The rest of a parenthesis that `t` opened, from the token after it on. -/
def parenthesis (inner : Option Levels) (t : Token) (ts : List Token) : Reading := do
  let levels ← opened t inner
  let (e, rest) ← levels.sum ts
  let close ← peek ending rest
  match close.kind with
  | .closeParen => return (e, rest.tail)
  | .finish => reject .missingClose t.start
  | _ => reject (.closeExpected close.text) close.start

/-- `Parser._parse_primary`. -/
def primary (inner : Option Levels) (ts : List Token) : Reading := do
  let t ← peek ending ts
  match t.kind with
  | .number => return (← number t, ts.tail)
  | .identifier => return (.var t.text, ts.tail)
  | .openParen => parenthesis ending inner t ts.tail
  | .closeParen => reject .strayClose t.start
  | .finish => reject .operandMissing t.start
  | _ => reject (.operandExpected t.text) t.start

/-- `Parser._parse_prefix`: a primary, or a sign or root with its operand. -/
def signs (inner : Option Levels) (ts : List Token) : Reading := do
  let t ← peek ending ts
  match sign? t with
  | some s => do
    let levels ← opened t inner
    let (operand, rest) ← levels.signs ts.tail
    return (← node t (.signed s operand), rest)
  | none =>
    if isRootMark t then do
      let levels ← opened t inner
      let (radicand, rest) ← levels.power ts.tail
      return (← node t (.root two radicand), rest)
    else primary ending inner ts

/-- `Parser._parse_power`. -/
def power (inner : Option Levels) (ts : List Token) : Reading := do
  let (base, rest) ← signs ending inner ts
  let t ← peek ending rest
  if isSymbol t "^" || isRootMark t then do
    let levels ← opened t inner
    let (right, rest) ← levels.power rest.tail
    let e := if isSymbol t "^" then .binary .pow base right else .root base right
    return (← node t e, rest)
  else return (base, rest)

/-- Takes operators and operands onto `left` for as long as there are any. A chain has no more
operators than there are tokens, which is what `bound` is for. -/
def chain (operator? : Token → Option Operator) (operand : List Token → Reading) :
    (bound : Nat) → Expr → List Token → Reading
  | 0, left, ts => .ok (left, ts)
  | bound + 1, left, ts => do
    let t ← peek ending ts
    match operator? t with
    | none => return (left, ts)
    | some op =>
      let (right, rest) ← operand ts.tail
      let e ← node t (.binary op left right)
      chain operator? operand bound e rest

/-- `Parser._parse_multiplicative`. -/
def product (bound : Nat) (inner : Option Levels) (ts : List Token) : Reading := do
  let (left, rest) ← power ending inner ts
  chain ending productOperator? (power ending inner) bound left rest

/-- `Parser._parse_additive`. -/
def sum (bound : Nat) (inner : Option Levels) (ts : List Token) : Reading := do
  let (left, rest) ← product ending bound inner ts
  chain ending sumOperator? (product ending bound inner) bound left rest

def levelsOver (bound : Nat) (inner : Option Levels) : Levels :=
  ⟨sum ending bound inner, power ending inner, signs ending inner⟩

/-- The parsers under which `n` more constructs may open. -/
def levels (bound : Nat) : (n : Nat) → Levels
  | 0 => levelsOver ending bound none
  | n + 1 => levelsOver ending bound (some (levels bound n))

end Grammar

/-! ## Whole inputs -/

/-- `Parser._expect_end`: checks that nothing follows. -/
def expectEnd (ending : Ending) (ts : List Token) : Except Failure Unit := do
  let t ← peek ending ts
  match t.kind with
  | .finish => return ()
  | .closeParen => reject .strayClose t.start
  | _ => reject (.trailing t.text) t.start

/-- The name before an assignment sign, where the text starts with these two. -/
def target? (ending : Ending) (ts : List Token) : Except Failure (Option String) := do
  let first ← peek ending ts
  if first.kind = .identifier then
    let second ← peek ending ts.tail
    return if second.kind = .assign then some first.text else none
  else return none

/-- The text from the start of the first of `ts` to the end of the last one before `rest`. -/
def covered (text : List Char) (ts rest : List Token) : String :=
  match ts, (ts.take (ts.length - rest.length)).getLast? with
  | first :: _, some last => String.ofList ((text.drop first.start).take (last.stop - first.start))
  | _, _ => ""

/-- `Parser.parse`: the tree of a whole text, given its tokens. What stands before an assignment
sign and is no identifier becomes a name all the same, which no variable can have. -/
def ofScan (text : List Char) (scan : Scan) : Except Failure Expr := do
  let ⟨ts, ending⟩ := scan
  let sum := (levels ending (ts.length + 1) maxNesting).sum
  let first ← peek ending ts
  if first.kind = .finish then reject .empty first.start
  else
    match ← target? ending ts with
    | some name =>
      let (value, rest) ← sum (ts.drop 2)
      expectEnd ending rest
      return .assign name value
    | none =>
      let (e, rest) ← sum ts
      let t ← peek ending rest
      if t.kind = .assign then
        let (value, rest') ← sum rest.tail
        expectEnd ending rest'
        return .assign (covered text ts rest) value
      else
        expectEnd ending rest
        return e

/-- `parse`: the tree of a text. -/
def parse (text : String) : Except Failure Expr :=
  ofScan text.toList (Token.scan text.toList)

end ExactCalc.Expr
