/-
  ExactCalc.History.Fields — the fields of stored records, read from JSON (the
  validation of `HistoryContainer`).

  Values are taken liberally: integers also from hexadecimal text, truth values from
  words and numbers, times from text or counts of seconds. A key that no field has is an
  error, and so is each missing or unreadable field; a reading gives the record or the
  number of its errors. An identifier or a time that may be missing is then supplied,
  also where the reading fails elsewhere.
-/

import ExactCalc.History.Basic
import ExactCalc.Json.Reader
import ExactCalc.Text.Numeral
import ExactCalc.Time.Count

namespace ExactCalc

/-- A value, or how many fields of it are wrong. -/
abbrev Checked (α : Type) := Except Nat α

namespace Checked

def errors {α : Type} : Checked α → Nat
  | .ok _ => 0
  | .error n => n

def ofOption {α : Type} : Option α → Checked α
  | some a => .ok a
  | none => .error 1

end Checked

namespace Fields

abbrev Members := List (Text.Symbols × Json)

/-! ## Values -/

/-- The integers between these bounds, both excluded, are taken from floating point. -/
def realBound : Int := 9223372036854775808

/-- `_int_from_hex`, and what the validation itself takes for an integer. -/
def integer? : Json → Option Int
  | .str s => s.toString?.bind fun t => Text.Numeral.hex? t.toList
  | .int n => some n
  | .bool b => some (if b then 1 else 0)
  | .real x => x.integer?.filter fun n => -realBound < n && n < realBound
  | _ => none

def truthWords : List (String × Bool) :=
  [("0", false), ("off", false), ("f", false), ("false", false), ("n", false), ("no", false),
    ("1", true), ("on", true), ("t", true), ("true", true), ("y", true), ("yes", true)]

def truth? : Json → Option Bool
  | .bool b => some b
  | .int n => if n = 0 then some false else if n = 1 then some true else none
  | .real x =>
    match x.integer? with
    | some n => if n = 0 then some false else if n = 1 then some true else none
    | none => none
  | .str s => s.toString?.bind fun t => truthWords.lookup (t.map Char.toLower)
  | _ => none

def text? : Json → Option Text.Symbols
  | .str s => some s
  | _ => none

/-- A count of seconds written out: digits, then perhaps a point, further digits and an
exponent. -/
def writtenCount? (cs : List Char) : Option Stamp :=
  let (negative, body) := Text.Numeral.sign cs
  let digits := body.takeWhile Char.isDigit
  if digits.isEmpty then none
  else
    match body.dropWhile Char.isDigit with
    | [] => Stamp.ofCount? (Text.Numeral.signed negative (Json.natOfDigits digits))
    | '.' :: rest =>
      let all := digits ++ rest.takeWhile Char.isDigit
      let shift : Int := (digits.length : Int) - all.length
      match Json.exponent (rest.dropWhile Char.isDigit) with
      | (e, []) =>
        match Binary64.ofDecimal negative (Json.natOfDigits all) all.length (e.getD 0 + shift) with
        | .finite q => Stamp.ofWritten? q
        | _ => none
      | _ => none
    | _ => none

def time? : Json → Option Stamp
  | .str s => s.toString?.bind fun t => Stamp.read? t.toList <|> writtenCount? t.toList
  | .int n => Stamp.ofCount? n
  | .real (.finite q) => Stamp.ofReal? q
  | _ => none

/-! ## Fields -/

/-- How many members have none of the keys. -/
def strangers (keys : List String) (members : Members) : Nat :=
  members.countP fun (k, _) => !keys.any fun known => .ofString known == k

/-- Whether a key is no text, which ends the reading of its record. -/
def hasBrokenKey (members : Members) : Bool := members.any fun (k, _) => k.toString?.isNone

/-- The errors of a record: those of its fields and the keys that no field has, or a single one
for a key that is no text. -/
def recordErrors (members : Members) (errors : Nat) : Nat :=
  if hasBrokenKey members then 1 else errors

/-- A field that must be there. -/
def required {α : Type} (read : Json → Checked α) (members : Members) (key : String) : Checked α :=
  match Json.member? members key with
  | some j => read j
  | none => .error 1

/-- A field that may be missing. -/
def optional {α : Type} (read : Json → Checked α) (default : α) (members : Members) (key : String) :
    Checked α :=
  match Json.member? members key with
  | some j => read j
  | none => .ok default

/-- A field that is supplied when it is missing. -/
def supplied {α : Type} (read : Json → Checked α) (supply : Supply → α × Supply)
    (members : Members) (key : String) (s : Supply) : Checked α × Supply :=
  match Json.member? members key with
  | some j => (read j, s)
  | none =>
    let (a, s) := supply s
    (.ok a, s)

/-- A field that may also hold nothing. -/
def nullable {α : Type} (read : Json → Checked α) : Json → Checked (Option α)
  | .null => .ok none
  | j => (read j).map some

def checkedBy {α : Type} (read? : Json → Option α) (j : Json) : Checked α := .ofOption (read? j)

def supplyId (s : Supply) : Text.Symbols × Supply :=
  let (id, s) := s.takeId
  (.ofString id, s)

/-! ## Records -/

def positive? (j : Json) : Option { n : Nat // 0 < n } :=
  match integer? j with
  | some n => if h : 0 < n.toNat then some ⟨n.toNat, h⟩ else none
  | none => none

def storedNumber : Json → Checked StoredNumber
  | .obj members =>
    let numerator := required (checkedBy integer?) members "numerator"
    let denominator := required (checkedBy positive?) members "denominator"
    let inexact := optional (checkedBy truth?) false members "inexact"
    let others := strangers ["numerator", "denominator", "inexact"] members
    match numerator, denominator, inexact, others with
    | .ok n, .ok ⟨d, h⟩, .ok i, 0 => .ok ⟨n, d, i, h⟩
    | _, _, _, _ =>
      .error (recordErrors members
        (numerator.errors + denominator.errors + inexact.errors + others))
  | _ => .error 1

def entry (j : Json) (s : Supply) : Checked Entry × Supply :=
  match j with
  | .obj members =>
    let (id, s) := supplied (checkedBy text?) supplyId members "entry_id" s
    let (createdAt, s) := supplied (checkedBy time?) Supply.takeReading members "created_at" s
    let expression := required (checkedBy text?) members "expression"
    let result := optional (nullable storedNumber) none members "result"
    let error := optional (nullable (checkedBy text?)) none members "error"
    let inexact := optional (checkedBy truth?) false members "inexact"
    let others :=
      strangers ["entry_id", "created_at", "expression", "result", "error", "inexact"] members
    match id, createdAt, expression, result, error, inexact, others with
    | .ok id, .ok t, .ok e, .ok r, .ok err, .ok i, 0 => (.ok ⟨id, t, e, r, err, i⟩, s)
    | _, _, _, _, _, _, _ =>
      (.error (recordErrors members (id.errors + createdAt.errors + expression.errors +
        result.errors + error.errors + inexact.errors + others)), s)
  | _ => (.error 1, s)

/-- The items of a list, one after the other. -/
def items {α : Type} (read : Json → Supply → Checked α × Supply) :
    List Json → Supply → Checked (List α) × Supply
  | [], s => (.ok [], s)
  | j :: rest, s =>
    let (a, s) := read j s
    let (l, s) := items read rest s
    match a, l with
    | .ok a, .ok l => (.ok (a :: l), s)
    | _, _ => (.error (a.errors + l.errors), s)

/-- A field that holds a list and may be missing. -/
def listed {α : Type} (read : Json → Supply → Checked α × Supply) (members : Members) (key : String)
    (s : Supply) : Checked (List α) × Supply :=
  match Json.member? members key with
  | some (.arr l) => items read l s
  | some _ => (.error 1, s)
  | none => (.ok [], s)

def session (j : Json) (s : Supply) : Checked Session × Supply :=
  match j with
  | .obj members =>
    let (id, s) := supplied (checkedBy text?) supplyId members "session_id" s
    let (startedAt, s) := supplied (checkedBy time?) Supply.takeReading members "started_at" s
    let (entries, s) := listed entry members "entries" s
    let others := strangers ["session_id", "started_at", "entries"] members
    match id, startedAt, entries, others with
    | .ok id, .ok t, .ok es, 0 => (.ok ⟨id, t, es⟩, s)
    | _, _, _, _ =>
      (.error (recordErrors members (id.errors + startedAt.errors + entries.errors + others)), s)
  | _ => (.error 1, s)

/-- One variable: a name that is text, and a number. -/
def namedNumber (key : Json) (j : Json) : Checked (Text.Symbols × StoredNumber) :=
  let name := checkedBy text? key
  let value := storedNumber j
  match name, value with
  | .ok k, .ok v => .ok (k, v)
  | _, _ => .error (name.errors + value.errors)

def namedNumbers : List (Json × Json) → Checked (List (Text.Symbols × StoredNumber))
  | [] => .ok []
  | (k, j) :: rest =>
    let p := namedNumber k j
    let l := namedNumbers rest
    match p, l with
    | .ok p, .ok l => .ok (p :: l)
    | _, _ => .error (p.errors + l.errors)

/-- The variables of a history. -/
def numberTable (pairs : List (Json × Json)) : Checked (Table Text.Symbols StoredNumber) :=
  (namedNumbers pairs).map Table.ofList

/-- The variables field, which may be missing. -/
def variablesField (members : Members) : Checked (Table Text.Symbols StoredNumber) :=
  match Json.member? members "variables" with
  | some (.obj l) => numberTable (l.map fun (k, v) => (.str k, v))
  | some _ => .error 1
  | none => .ok Table.empty

end Fields

end ExactCalc
