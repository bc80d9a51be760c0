/-
  ExactCalc.History.Migration — payloads of format version 1, carried over to version 2
  (`migrate_payload`, `_migrate_v1`; SPEC §6).

  Version 1 held the variables as a list of objects with an `id`, counted the start of a
  session in seconds, and gave entries no time of their own; an entry takes the start of
  its session. Only the shape is checked here: values are carried over as they are.
-/

import ExactCalc.History.Failure
import ExactCalc.Json.Basic
import ExactCalc.Text.Numeral
import ExactCalc.Time.Stamp

namespace ExactCalc

/-- The content of a history file, before its fields are read. -/
inductive Payload where
  | asFound (j : Json)
  /-- Carried over; names of variables may be of any kind that can be a key. -/
  | migrated (vars : List (Json × Json)) (sessions : List Json)
  deriving Inhabited

namespace Migration

/-- What stops a migration. -/
inductive Obstacle where
  | malformed
  /-- The system cannot name the year of a time. -/
  | unnamedYear
  deriving DecidableEq

abbrev Step (α : Type) := Except Obstacle α

/-- What is found when going through a value: the items of a list, and of an empty text or object
nothing. Characters of a text and keys of an object are no objects, as every item has to be. -/
def itemsOf : Json → Step (List Json)
  | .arr l => .ok l
  | .obj [] | .str [] => .ok []
  | _ => .error .malformed

/-- A field that may be missing, and then counts as an empty list. -/
def listField (members : List (Text.Symbols × Json)) (key : String) : Step (List Json) :=
  match Json.member? members key with
  | some j => itemsOf j
  | none => .ok []

def membersOf : Json → Step (List (Text.Symbols × Json))
  | .obj members => .ok members
  | _ => .error .malformed

def field (members : List (Text.Symbols × Json)) (key : String) : Step Json :=
  match Json.member? members key with
  | some j => .ok j
  | none => .error .malformed

/-! ## Variables -/

/-- The number that a key equals, truth values included. -/
def keyNumber? : Json → Option Binary64
  | .bool b => some (.finite (if b then 1 else 0))
  | .int n => some (.finite n)
  | .real x => some x
  | _ => none

/-- Whether two values are one key. -/
def sameKey (a b : Json) : Bool :=
  match a, b with
  | .str s, .str t => s = t
  | .null, .null => true
  | _, _ =>
    match keyNumber? a, keyNumber? b with
    | some x, some y => x = y
    | _, _ => false

def isKey : Json → Bool
  | .arr _ | .obj _ => false
  | _ => true

/-- The pairs with a value under a key: in place of the one it replaces, or at the end. -/
def putKey (k v : Json) : List (Json × Json) → List (Json × Json)
  | [] => [(k, v)]
  | (k', v') :: rest => if sameKey k' k then (k', v) :: rest else (k', v') :: putKey k v rest

def quotient (members : List (Text.Symbols × Json)) : Step Json := do
  let numerator ← field members "numerator"
  let denominator ← field members "denominator"
  return .obj [(.ofString "numerator", numerator), (.ofString "denominator", denominator),
    (.ofString "inexact", .bool false)]

def addVariable (pairs : List (Json × Json)) (j : Json) : Step (List (Json × Json)) := do
  let members ← membersOf j
  let id ← field members "id"
  let value ← quotient members
  if isKey id then return putKey id value pairs else .error .malformed

/-! ## Sessions -/

/-- The integer that a count of seconds denotes. -/
def seconds? : Json → Option Int
  | .int n => some n
  | .bool b => some (if b then 1 else 0)
  | .real x => x.truncated?
  | .str s => s.toString?.bind fun t => Text.Numeral.decimal? t.toList
  | _ => none

/-- Counts of seconds stop short of this bound, on both sides. -/
def clockBound : Int := 9223372036854775808

/-- Seconds within this range of the system's clock have a year that the system can name. -/
def namedYears : Int × Int := (-67768040609740800, 67768036191676799)

/-- The time of a count of seconds, in the years 1 to 9999. The system itself refuses counts whose
year it cannot name, as long as its clock can count to them. -/
def startOf (seconds : Int) : Step Stamp :=
  match Stamp.ofEpoch? seconds 0 with
  | some stamp => .ok stamp
  | none =>
    if seconds < -clockBound ∨ clockBound ≤ seconds then .error .malformed
    else if seconds < namedYears.1 ∨ namedYears.2 < seconds then .error .unnamedYear
    else .error .malformed

def entry (time : Json) (j : Json) : Step Json := do
  let members ← membersOf j
  let id ← field members "entry_uuid"
  let expression ← field members "expression"
  let result ← quotient members
  return .obj [(.ofString "entry_id", id), (.ofString "created_at", time),
    (.ofString "expression", expression), (.ofString "result", result),
    (.ofString "error", .null), (.ofString "inexact", .bool false)]

def session (j : Json) : Step Json := do
  let members ← membersOf j
  let start ← field members "session_start"
  let stamp ← match seconds? start with
    | some n => startOf n
    | none => .error .malformed
  let time := Json.ofString (String.ofList stamp.renderFull)
  let entries ← (← listField members "entries").mapM (entry time)
  let id ← field members "session_uuid"
  return .obj [(.ofString "session_id", id), (.ofString "started_at", time),
    (.ofString "entries", .arr entries)]

/-- `_migrate_v1`: a payload of version 1 as one of version 2. -/
def fromVersion1 (j : Json) : Step Payload := do
  let members ← membersOf j
  let vars ← (← listField members "variables").foldlM addVariable []
  let sessions ← (← listField members "sessions").mapM session
  return .migrated vars sessions

end Migration

/-- Why a payload is not carried over, the file not being known. -/
def loadFailure (cause : LoadCause) : LoadFailure := .error ⟨cause, none⟩

/-- `migrate_payload`: a payload of any version as one of the newest. -/
def migrate (version : Int) (j : Json) : Except LoadFailure Payload :=
  if version ≥ formatVersion then .ok (.asFound j)
  else if version = 1 then
    match Migration.fromVersion1 j with
    | .ok payload => .ok payload
    | .error .malformed => .error (loadFailure (.malformed version))
    | .error .unnamedYear => .error (.system .unnamedYear)
  else .error (loadFailure (.noMigration version))

end ExactCalc
