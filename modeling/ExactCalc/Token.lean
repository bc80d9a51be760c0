/-
  ExactCalc.Token — the tokens of a text (`tokenize`, `Tokenizer`; SPEC §4.1).

  `scan` skips white space and takes the longest lexeme each time: a number, an
  identifier, an operator, a parenthesis or the assignment sign. Signs are operators,
  never part of a number. It gives the tokens it found and how it ended: at the end of
  the text, or stuck at a character that starts no lexeme. A reader that stops early
  never learns of a character it did not reach.
-/

import ExactCalc.Failure
import ExactCalc.Text.Blank

namespace ExactCalc

/-- `TokenKind`: what a token is. -/
inductive Token.Kind where
  | number
  | identifier
  | operator
  | openParen
  | closeParen
  | assign
  | finish
  deriving DecidableEq

def Token.Kind.name : Kind → String
  | number => "NUMBER"
  | identifier => "IDENTIFIER"
  | operator => "OPERATOR"
  | openParen => "LPAREN"
  | closeParen => "RPAREN"
  | assign => "ASSIGN"
  | finish => "END"

/-- `Token`: a lexeme, its kind, and where it stands in the text. -/
structure Token where
  kind : Token.Kind
  /-- The lexeme; nothing for the finish. -/
  text : String
  start : Nat
  /-- The position after the last character. -/
  stop : Nat
  deriving DecidableEq

namespace Token

/-! ## Lexemes -/

def isLetter (c : Char) : Bool := c.isAlpha || c == '_'

def isNameChar (c : Char) : Bool := c.isAlphanum || c == '_'

def rootSign : Char := '√'

def isOperator (c : Char) : Bool :=
  c == '+' || c == '-' || c == '*' || c == '/' || c == '^' || c == rootSign

/-- The longest number at the head of the text: digits with an optional point and more digits, or
a point and digits. -/
def numberLexeme (cs : List Char) : List Char :=
  let whole := cs.takeWhile Char.isDigit
  match cs.dropWhile Char.isDigit with
  | '.' :: rest =>
    let places := rest.takeWhile Char.isDigit
    if whole.isEmpty && places.isEmpty then [] else whole ++ '.' :: places
  | _ => whole

/-- `_TOKEN_PATTERN`: the longest lexeme at the head of the text, with its kind. -/
def lexeme? (cs : List Char) : Option (Kind × List Char) :=
  match cs with
  | [] => none
  | c :: rest =>
    if !(numberLexeme cs).isEmpty then some (.number, numberLexeme cs)
    else if isLetter c then some (.identifier, c :: rest.takeWhile isNameChar)
    else if isOperator c then some (.operator, [c])
    else if c == '(' then some (.openParen, [c])
    else if c == ')' then some (.closeParen, [c])
    else if c == '=' then some (.assign, [c])
    else none

theorem lexeme?_length_pos {cs l : List Char} {k : Kind} (h : lexeme? cs = some (k, l)) :
    0 < l.length := by
  cases cs with
  | nil => simp [lexeme?] at h
  | cons c rest =>
    have number : (!(numberLexeme (c :: rest)).isEmpty) = true →
        0 < (numberLexeme (c :: rest)).length := by
      intro hn
      cases hx : numberLexeme (c :: rest) with
      | nil => simp [hx] at hn
      | cons => simp
    simp only [lexeme?] at h
    split at h
    · next hn =>
      obtain ⟨-, rfl⟩ := Prod.mk.inj (Option.some.inj h)
      exact number hn
    · repeat' split at h
      all_goals first
        | (obtain ⟨-, rfl⟩ := Prod.mk.inj (Option.some.inj h); simp)
        | simp at h

/-! ## Scanning -/

/-- How a scan ends. -/
inductive Ending where
  /-- At the end of the text, with its length. -/
  | finished (length : Nat)
  | stuck (error : LexError)
  deriving DecidableEq

structure Scan where
  tokens : List Token
  ending : Ending
  deriving DecidableEq

/-- Scans the text from `position` on; `seen` are the tokens before it, the last one first. -/
def scanFrom (seen : List Token) (position : Nat) (cs : List Char) : Scan :=
  match cs with
  | [] => ⟨seen.reverse, .finished position⟩
  | c :: rest =>
    if Text.isBlank c then scanFrom seen (position + 1) rest
    else
      match _h : lexeme? (c :: rest) with
      | none => ⟨seen.reverse, .stuck ⟨c, position⟩⟩
      | some (kind, l) =>
        scanFrom (⟨kind, String.ofList l, position, position + l.length⟩ :: seen)
          (position + l.length) ((c :: rest).drop l.length)
termination_by cs.length
decreasing_by
  · simp
  · have := lexeme?_length_pos _h
    simp only [List.length_drop, List.length_cons]
    omega

/-- `tokenize`: the tokens of a text, and how the scan ended. -/
def scan (cs : List Char) : Scan := scanFrom [] 0 cs

/-- The token that stands for the end of a text of that length. -/
def finish (length : Nat) : Token := ⟨.finish, "", length, length⟩

end Token

end ExactCalc
