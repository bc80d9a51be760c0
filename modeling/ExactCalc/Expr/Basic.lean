/-
  ExactCalc.Expr.Basic — expression trees and their text (`Literal`, `Variable`,
  `UnaryOp`, `BinaryOp`, `Root`, `Assignment` and their `render`; SPEC §3).

  A tree may hold more than the grammar can produce: an operator without a meaning, or
  an assignment below the top. Such a tree has a text, but no value. In the text every
  operand that is not a variable or an integer stands in parentheses, so that binding
  strengths play no part.
-/

import ExactCalc.Number.Basic
import ExactCalc.Token

namespace ExactCalc

/-- A sign before an operand. Only minus changes the value. -/
inductive Sign where
  | plus
  | minus
  | other (symbol : String)
  deriving DecidableEq

/-- An operator between two operands. -/
inductive Operator where
  | add
  | sub
  | mul
  | div
  | pow
  /-- A symbol without a meaning. -/
  | other (symbol : String)
  deriving DecidableEq

namespace Sign

def symbol : Sign → String
  | plus => "+"
  | minus => "-"
  | other s => s

def ofSymbol (s : String) : Sign :=
  if s = "+" then plus else if s = "-" then minus else other s

end Sign

namespace Operator

def symbol : Operator → String
  | add => "+"
  | sub => "-"
  | mul => "*"
  | div => "/"
  | pow => "^"
  | other s => s

def ofSymbol (s : String) : Operator :=
  if s = "+" then add
  else if s = "-" then sub
  else if s = "*" then mul
  else if s = "/" then div
  else if s = "^" then pow
  else other s

end Operator

/-- `Literal`, `Variable`, `UnaryOp`, `BinaryOp`, `Root` and `Assignment`. -/
inductive Expr where
  | literal (value : Number)
  | var (name : String)
  | signed (sign : Sign) (operand : Expr)
  | binary (op : Operator) (left right : Expr)
  /-- The root of the radicand whose degree is the first expression's value. -/
  | root (degree radicand : Expr)
  /-- Has a value only as a whole input. -/
  | assign (name : String) (value : Expr)
  deriving DecidableEq

namespace Expr

/-- `_SQUARE`: the degree of a root written without one. -/
def two : Expr := literal (.exact 2)

/-- Nodes on the longest path; an assignment is not counted. -/
def depth : Expr → Nat
  | literal _ | var _ => 1
  | signed _ e => e.depth + 1
  | binary _ l r => max l.depth r.depth + 1
  | root d r => max d.depth r.depth + 1
  | assign _ e => e.depth

/-! ## Text -/

/-- Whether the expression is an operand without parentheses. -/
def isPlain : Expr → Bool
  | var _ => true
  | literal v => v.isInteger
  | _ => false

/-- `_render_operand`: the text of an operand, given the text of the expression. -/
def operandChars (e : Expr) (text : List Char) : List Char :=
  if e.isPlain then text else '(' :: text ++ [')']

/-- Whether the degree of a root goes without saying. -/
def isTwo : Expr → Bool
  | literal v => v.value = 2
  | _ => false

def renderChars : Expr → List Char
  | literal v => v.fractionChars
  | var name => name.toList
  | signed s e => s.symbol.toList ++ operandChars e e.renderChars
  | binary op l r =>
    let mark := if op = .pow then ['^'] else ' ' :: op.symbol.toList ++ [' ']
    operandChars l l.renderChars ++ mark ++ operandChars r r.renderChars
  | root d r =>
    let degree := if d.isTwo then [] else operandChars d d.renderChars
    degree ++ Token.rootSign :: operandChars r r.renderChars
  | assign name e => name.toList ++ [' ', '=', ' '] ++ e.renderChars

/-- `render`: the expression's text. -/
def render (e : Expr) : String := String.ofList e.renderChars

end Expr

end ExactCalc
