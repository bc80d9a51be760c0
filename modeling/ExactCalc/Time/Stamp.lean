/-
  ExactCalc.Time.Stamp — points in time with the clock time and the offset from UTC with
  which they were written.

  - `Stamp.instant`: the point in time, which alone decides the order.
  - `Stamp.ofEpoch?`: a count of seconds since 1970 as a stamp in UTC.
  - `Stamp.render` and `Stamp.read?`: date-time text with an offset.
-/

import ExactCalc.Time.Date

namespace ExactCalc

structure Stamp where
  date : Date
  hour : Fin 24
  minute : Fin 60
  second : Fin 60
  micro : Fin 1000000
  /-- Minutes ahead of UTC, by less than a day. -/
  offset : Int
  offset_lt : offset.natAbs < 1440
  deriving DecidableEq

namespace Stamp

/-- Microseconds since the start of 1970 in UTC. -/
def instant (s : Stamp) : Int :=
  let minutes := (s.date.toDays * 24 + s.hour.val) * 60 + s.minute.val - s.offset
  (minutes * 60 + s.second.val) * 1000000 + s.micro.val

/-- The stamp of a second of UTC, and of so many microseconds after it. -/
def ofEpoch? (seconds : Int) (micro : Nat) : Option Stamp := do
  let date ← Date.ofDays? (seconds / 86400)
  let rest := (seconds % 86400).toNat
  return {
    date
    hour := Fin.ofNat 24 (rest / 3600)
    minute := Fin.ofNat 60 (rest / 60)
    second := Fin.ofNat 60 rest
    micro := Fin.ofNat 1000000 micro
    offset := 0
    offset_lt := by decide }

/-- The start of 1970. -/
def epoch : Stamp := ⟨⟨1970, 1, 1, by decide, by decide⟩, 0, 0, 0, 0, 0, by decide⟩

/-! ## Text -/

/-- A number in decimal, padded with zeros to `width`. -/
def padded (width n : Nat) : List Char :=
  let ds := Nat.toDigits 10 n
  List.replicate (width - ds.length) '0' ++ ds

/-- Date and time without the offset; a fraction has six digits and is left out when zero. -/
def renderLocal (s : Stamp) : List Char :=
  padded 4 s.date.year ++ '-' :: padded 2 s.date.month ++ '-' :: padded 2 s.date.day ++
    'T' :: padded 2 s.hour.val ++ ':' :: padded 2 s.minute.val ++ ':' :: padded 2 s.second.val ++
    (if s.micro.val = 0 then [] else '.' :: padded 6 s.micro.val)

/-- An offset in hours and minutes. -/
def renderOffset (offset : Int) : List Char :=
  (if offset < 0 then '-' else '+') :: padded 2 (offset.natAbs / 60) ++
    ':' :: padded 2 (offset.natAbs % 60)

/-- Date, time and offset; `Z` stands for no offset. -/
def render (s : Stamp) : List Char :=
  s.renderLocal ++ if s.offset = 0 then ['Z'] else renderOffset s.offset

/-- Date, time and offset, no offset written out too. -/
def renderFull (s : Stamp) : List Char := s.renderLocal ++ renderOffset s.offset

/-! ## Reading -/

def digit? (c : Char) : Option Nat := if c.isDigit then some (c.toNat - 48) else none

/-- A number of two digits. -/
def two? (a b : Char) : Option Nat := do return (← digit? a) * 10 + (← digit? b)

/-- Hours and minutes of an offset. -/
def offset? (negative : Bool) (hours minutes : Option Nat) : Option Int := do
  let h ← hours
  let m ← minutes
  if h < 24 ∧ m < 60 then
    let total : Int := h * 60 + m
    some (if negative then -total else total)
  else none

/-- Whether an offset with this sign is behind UTC; the minus sign proper is one as well. -/
def behind? (sign : Char) : Option Bool :=
  if sign = '+' then some false else if sign = '-' ∨ sign = '\u2212' then some true else none

/-- An offset that ends the text. -/
def readOffset? (cs : List Char) : Option Int :=
  match cs with
  | ['Z'] | ['z'] => some 0
  | [sign, a, b, ':', c, d] | [sign, a, b, c, d] => do
    offset? (← behind? sign) (two? a b) (two? c d)
  | _ => none

/-- The digits of a fraction in millionths, smaller parts cut off. -/
def fraction? (ds : List Char) : Option Nat :=
  if ds.isEmpty then none
  else
    ((ds.take 6).mapM digit?).map fun values =>
      values.foldl (fun n d => n * 10 + d) 0 * Nat.pow 10 (6 - ds.length)

/-- Seconds, millionths and the text after them; both are zero where no seconds are given. A point
or a comma stands before the fraction. -/
def readSeconds? (cs : List Char) : Option (Nat × Nat × List Char) :=
  match cs with
  | ':' :: a :: b :: rest => do
    let second ← two? a b
    match rest with
    | '.' :: rest | ',' :: rest =>
      let micro ← fraction? (rest.takeWhile Char.isDigit)
      return (second, micro, rest.dropWhile Char.isDigit)
    | _ => return (second, 0, rest)
  | _ => some (0, 0, cs)

/-- The stamp with these parts, if there is one. -/
def of? (date : Date) (hour minute second micro : Nat) (offset : Int) : Option Stamp :=
  if h : (hour < 24 ∧ minute < 60 ∧ second < 60) ∧ micro < 1000000 ∧ offset.natAbs < 1440 then
    some ⟨date, ⟨hour, h.1.1⟩, ⟨minute, h.1.2.1⟩, ⟨second, h.1.2.2⟩, ⟨micro, h.2.1⟩, offset, h.2.2⟩
  else none

/-- A date, one of `T`, `t`, a space and `_`, a time of day with or without seconds, and an
offset. -/
def read? (cs : List Char) : Option Stamp :=
  match cs with
  | y₁ :: y₂ :: y₃ :: y₄ :: '-' :: m₁ :: m₂ :: '-' :: d₁ :: d₂ :: sep :: h₁ :: h₂ :: ':' ::
      n₁ :: n₂ :: rest =>
    if sep = 'T' ∨ sep = 't' ∨ sep = ' ' ∨ sep = '_' then do
      let date ← Date.of? ((← two? y₁ y₂) * 100 + (← two? y₃ y₄)) (← two? m₁ m₂) (← two? d₁ d₂)
      let (second, micro, rest) ← readSeconds? rest
      of? date (← two? h₁ h₂) (← two? n₁ n₂) second micro (← readOffset? rest)
    else none
  | _ => none

end Stamp

end ExactCalc
