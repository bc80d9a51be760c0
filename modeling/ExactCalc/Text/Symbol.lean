/-
  ExactCalc.Text.Symbol — text that may hold halves of surrogate pairs.

  Files written elsewhere can name half a surrogate pair where no character is meant.
  Such a text is kept as it came: its symbols are characters and lone halves.
-/

namespace ExactCalc.Text

inductive Symbol where
  | char (c : Char)
  /-- One half of a surrogate pair, by its code. -/
  | half (code : Nat)
  deriving DecidableEq

abbrev Symbols := List Symbol

namespace Symbol

def isHigh (n : Nat) : Bool := 0xD800 ≤ n && n < 0xDC00

def isLow (n : Nat) : Bool := 0xDC00 ≤ n && n < 0xE000

/-- The symbol that a code unit of sixteen bits stands for on its own. -/
def ofUnit (n : Nat) : Symbol :=
  if isHigh n || isLow n then half n else char (Char.ofNat n)

/-- Puts a symbol in front, as one character with the half it completes. -/
def join (s : Symbol) (rest : Symbols) : Symbols :=
  match s, rest with
  | half high, half low :: more =>
    if isHigh high && isLow low then
      char (Char.ofNat (0x10000 + (high - 0xD800) * 0x400 + (low - 0xDC00))) :: more
    else s :: rest
  | _, _ => s :: rest

/-- The code point, for the order of texts. -/
def code : Symbol → Nat
  | char c => c.toNat
  | half n => n

def char? : Symbol → Option Char
  | char c => some c
  | half _ => none

end Symbol

namespace Symbols

def ofString (s : String) : Symbols := s.toList.map .char

/-- The text, if every symbol is a character. -/
def toString? (s : Symbols) : Option String := (s.mapM Symbol.char?).map String.ofList

/-- The text as it is shown, with the replacement character U+FFFD in place of each lone half.
`HistoryEntry.rendition` and `VariableTable.restore` take such halves as they are, into what is
printed and into messages; a text of characters cannot hold them. -/
def display (s : Symbols) : String := String.ofList (s.map fun c => (c.char?).getD '\uFFFD')

/-- Joins the halves that stand side by side. -/
def joined (s : Symbols) : Symbols := s.foldr Symbol.join []

/-- Order by code point. -/
def le : Symbols → Symbols → Bool
  | [], _ => true
  | _ :: _, [] => false
  | a :: s, b :: t => a.code < b.code || (a.code == b.code && le s t)

end Symbols

end ExactCalc.Text
