/-
  ExactCalc.History.Container — a history as bytes (`encode_container`,
  `decode_container`, `read_version`; SPEC §6): four bytes of format version, then
  compressed JSON.

  The JSON text is canonical: keys in the order of their code points, no spaces, times
  with their offset, integers in hexadecimal. The version is checked before anything
  else is looked at.
-/

import ExactCalc.Bytes
import ExactCalc.History.Fields
import ExactCalc.History.Migration
import ExactCalc.Json.Reader
import ExactCalc.Json.Writer
import ExactCalc.Zlib.Stream

namespace ExactCalc

/-! ## Writing -/

/-- `_int_to_hex`: an integer as the text of its hexadecimal numeral. -/
def hexText (n : Int) : String :=
  String.ofList ((if n < 0 then ['-'] else []) ++ Digits.inBase 16 n.natAbs)

def StoredNumber.toJson (a : StoredNumber) : Json :=
  .obj [(.ofString "denominator", .ofString (hexText a.denominator)),
    (.ofString "inexact", .bool a.inexact),
    (.ofString "numerator", .ofString (hexText a.numerator))]

def Stamp.toJson (s : Stamp) : Json := .ofString (String.ofList s.render)

def nullableJson {α : Type} (f : α → Json) : Option α → Json
  | some a => f a
  | none => .null

def Entry.toJson (e : Entry) : Json :=
  .obj [(.ofString "created_at", e.createdAt.toJson), (.ofString "entry_id", .str e.id),
    (.ofString "error", nullableJson .str e.error), (.ofString "expression", .str e.expression),
    (.ofString "inexact", .bool e.inexact),
    (.ofString "result", nullableJson StoredNumber.toJson e.result)]

def Session.toJson (s : Session) : Json :=
  .obj [(.ofString "entries", .arr (s.entries.map Entry.toJson)),
    (.ofString "session_id", .str s.id), (.ofString "started_at", s.startedAt.toJson)]

namespace History

/-- The variables in the order of their names. -/
def sortedVariables (h : History) : List (Text.Symbols × StoredNumber) :=
  h.vars.pairs.mergeSort fun a b => Text.Symbols.le a.1 b.1

/-- `HistoryContainer.to_payload`, the keys of each object in their order. -/
def toJson (h : History) : Json :=
  .obj [(.ofString "sessions", .arr (h.sessions.map Session.toJson)),
    (.ofString "variables", .obj (h.sortedVariables.map fun (k, v) => (k, v.toJson)))]

/-- The JSON text that `encode_container` compresses. -/
def payload (h : History) : List Char := h.toJson.render

def header (version : Nat) : Bytes := Zlib.fourBytes version

/-- `encode_container`: the bytes of a history. The block is compressed by `Zlib.compress`. -/
def encode (h : History) : Bytes :=
  header formatVersion ++ Zlib.compress (Bytes.ofText (String.ofList h.payload))

/-! ## Reading -/

/-- `read_version`: the version and the bytes after it. -/
def splitHeader (bytes : Bytes) : Except LoadCause (Nat × Bytes) :=
  match bytes with
  | a :: b :: c :: d :: rest => .ok (Zlib.fromFour a b c d, rest)
  | short => .error (.tooShort short.length)

/-- The history of these variables and sessions, unless there are errors, `others` among them. -/
def ofParts (vars : Checked (Table Text.Symbols StoredNumber)) (sessions : Checked (List Session))
    (others : Nat) : Checked History :=
  match vars, sessions, others with
  | .ok vars, .ok list, 0 => .ok ⟨vars, Session.sorted list⟩
  | _, _, _ => .error (vars.errors + sessions.errors + others)

/-- The history in a payload, its sessions sorted. -/
def ofPayload (payload : Payload) (s : Supply) : Checked History × Supply :=
  match payload with
  | .migrated pairs list =>
    let (sessions, s) := Fields.items Fields.session list s
    (ofParts (Fields.numberTable pairs) sessions 0, s)
  | .asFound (.obj members) =>
    let (sessions, s) := Fields.listed Fields.session members "sessions" s
    let others := Fields.strangers ["format_version", "variables", "sessions"] members
    ((ofParts (Fields.variablesField members) sessions others).mapError
      (Fields.recordErrors members), s)
  | .asFound _ => (.error 1, s)

/-- The text of a file's content. -/
def textOf (version : Nat) (block : Bytes) : Except LoadCause String := do
  match Zlib.decompress block with
  | .error e => .error (.notCompressed version e)
  | .ok plain =>
    match Bytes.text? plain with
    | some text => return text
    | none => .error (.notJson version)

/-- The payload in a file, carried over to the newest version. -/
def payloadOf (bytes : Bytes) : Except LoadFailure (Nat × Payload) := do
  let fail {α : Type} (cause : LoadCause) : Except LoadFailure α := .error (loadFailure cause)
  match splitHeader bytes with
  | .error cause => fail cause
  | .ok (version, block) =>
    if version > formatVersion then fail (.newer version)
    else if version < 1 then fail (.unknownVersion version)
    else
      match textOf version block with
      | .error cause => fail cause
      | .ok text =>
        match Json.read text.toList with
        | some (.obj members) => return (version, ← migrate version (.obj members))
        | some _ => fail (.notObject version)
        | none => fail (.notJson version)

/-- `decode_container`: the history that a file's bytes hold. -/
def decode (bytes : Bytes) (s : Supply) : Except LoadFailure History × Supply :=
  match payloadOf bytes with
  | .error f => (.error f, s)
  | .ok (version, payload) =>
    match ofPayload payload s with
    | (.ok h, s) => (.ok h, s)
    | (.error n, s) => (.error (loadFailure (.invalid version n)), s)

end History

end ExactCalc
