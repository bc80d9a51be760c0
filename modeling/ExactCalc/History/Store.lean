/-
  ExactCalc.History.Store — the history store (`HistoryStore`; SPEC §4.5): sessions and
  variables in memory, and the file that keeps them.

  Sessions stand in the order of their start. Entries go to the session that this store
  started, or to a new one. A load that fails leaves the store as it was, and so does a
  save that fails; a save writes a temporary file first and moves it over the old one,
  so that the old one stays whole.
-/

import ExactCalc.History.Container
import ExactCalc.Variables

namespace ExactCalc

/-- What goes wrong outside while a history is saved. -/
inductive Mishap where
  | encoding (detail : String)
  /-- The folder cannot be made, though so many folders on the way to it can. -/
  | making (reached : Nat)
  | writing
  /-- Only so many bytes of the temporary file can be written. -/
  | cuttingOff (size : Nat)
  | replacing
  deriving DecidableEq

/-- `HistoryStore`: sessions and variables in memory, and the path of their file. -/
structure Store where
  path : Path
  sessions : List Session
  vars : Variables
  /-- The session that this store started last. -/
  current : Option Text.Symbols
  /-- Whether an entry came in after the last save. -/
  dirty : Bool
  /-- Bytes of the file as it was last loaded or saved (`last_payload_size`). A save writes stored
  blocks (`Zlib.compress`) where `encode_container` deflates at level 6, so after a save this is the
  size of the stored blocks and not the one that deflated blocks would have. -/
  lastSize : Option Nat

/-- `HistoryContainer.set_variables`: variables as they are stored. -/
def Variables.stored (vars : Variables) : Table Text.Symbols StoredNumber :=
  Table.ofList (vars.pairs.map fun (name, a) => (.ofString name, .ofNumber a))

/-- `HistoryContainer.variable_snapshot`, as `VariableTable.restore` takes it: stored variables
with their names checked. -/
def Variables.ofStored (t : Table Text.Symbols StoredNumber) : Except EvalError Variables :=
  Variables.restore (Table.ofList (t.pairs.map fun (name, a) => (name.display, a.toNumber)))

namespace Store

/-- A store of which nothing is loaded. -/
def new (path : Path) : Store := ⟨path, [], Table.empty, none, false, none⟩

/-! ## Sessions and entries -/

/-- `HistoryStore._find`: the session of that identifier. -/
def find? (s : Store) (id : Text.Symbols) : Option Session := s.sessions.find? (·.id = id)

/-- `HistoryStore.current_session`: the session that takes the entries, if it is still there. -/
def currentSession? (s : Store) : Option Session := s.current.bind s.find?

/-- `HistoryStore.latest_session`: the session that started last. -/
def latestSession? (s : Store) : Option Session := s.sessions.getLast?

/-- `HistoryStore._open_session`: puts a session where its start belongs; it takes the entries
from now on. -/
def enroll (s : Store) (session : Session) : Store :=
  { s with sessions := Session.sorted (s.sessions ++ [session]), current := some session.id }

/-- `HistoryStore.start_session`: a new session, which takes the entries from now on. -/
def startSession (s : Store) (supply : Supply) : Session × Store × Supply :=
  let (session, supply) := Session.new supply
  (session, s.enroll session, supply)

/-- The sessions with an entry at the end of the first one of that id. -/
def addEntry (id : Text.Symbols) (e : Entry) : List Session → List Session
  | [] => []
  | a :: rest =>
    if a.id = id then { a with entries := a.entries ++ [e] } :: rest else a :: addEntry id e rest

/-- `HistoryStore.append`: records an entry in the current session, or in a new one. -/
def append (s : Store) (e : Entry) (supply : Supply) : Store × Supply :=
  match s.currentSession? with
  | some session => ({ s with sessions := addEntry session.id e s.sessions, dirty := true }, supply)
  | none =>
    let (session, supply) := Session.new supply
    ({ s.enroll { session with entries := [e] } with dirty := true }, supply)

/-- `HistoryStore.entries` of no session in particular: the entries of all sessions, in their
order. -/
def allEntries (s : Store) : List Entry := s.sessions.flatMap Session.entries

/-- `HistoryStore.counts`: how many sessions there are, and how many entries in all. -/
def counts (s : Store) : Nat × Nat :=
  (s.sessions.length, (s.sessions.map fun a => a.entries.length).foldr (· + ·) 0)

/-- `HistoryStore.entries` of one session. -/
def entriesOf? (s : Store) (id : Text.Symbols) : Option (List Entry) :=
  (s.find? id).map Session.entries

/-- `HistoryStore.find_entry`. -/
def findEntry? (s : Store) (id : Text.Symbols) : Option Entry := s.allEntries.find? (·.id = id)

/-- `HistoryStore.snapshot_container`: what a save writes. -/
def history (s : Store) : History := ⟨s.vars.stored, s.sessions⟩

/-! ## Loading -/

/-- `HistoryStore._read_bytes`: the bytes of the history file; a missing file is no failure. -/
def content (s : Store) (d : Disk) : Except LoadFailure (Option Bytes) :=
  match d.read s.path with
  | .ok bytes => .ok (some bytes)
  | .error .notFound => .ok none
  | .error .embeddedZero => .error (.system (.disk .embeddedZero))
  | .error e => .error (.error ⟨.unreadable e.message, some s.path.text⟩)

/-- The store with other sessions and variables, none of them new. -/
def replaced (s : Store) (sessions : List Session) (vars : Variables) : Store :=
  { s with sessions := sessions, vars := vars, current := none, dirty := false }

/-- The store with a history in place of its content. -/
def withHistory (s : Store) (h : History) (size : Option Nat) : Except LoadError Store :=
  match Variables.ofStored h.vars with
  | .ok vars =>
    .ok { s.replaced h.sessions vars with lastSize := size }
  | .error e => .error ⟨.badVariable e, some s.path.text⟩

/-- The same failure, with the file it concerns. -/
def locateFailure (s : Store) : LoadFailure → LoadFailure
  | .error e => .error ⟨e.cause, some s.path.text⟩
  | .system f => .system f

/-- `HistoryStore.load`: takes the content of the history file. -/
def load (s : Store) (d : Disk) (supply : Supply) : Except LoadFailure Store × Supply :=
  match s.content d with
  | .error f => (.error f, supply)
  | .ok none => ((s.withHistory .empty none).mapError .error, supply)
  | .ok (some bytes) =>
    match History.decode bytes supply with
    | (.error f, supply) => (.error (s.locateFailure f), supply)
    | (.ok h, supply) => ((s.withHistory h bytes.length).mapError .error, supply)

/-- The store without sessions and variables. -/
def emptied (s : Store) : Store := s.replaced [] Table.empty

/-- `HistoryStore.load_or_empty`: takes the content of the history file, or none and the error. -/
def loadOrEmpty (s : Store) (d : Disk) (supply : Supply) :
    Except SystemFailure (Store × Option LoadError) × Supply :=
  match s.load d supply with
  | (.ok s, supply) => (.ok (s, none), supply)
  | (.error (.error e), supply) => (.ok (s.emptied, some e), supply)
  | (.error (.system f), supply) => (.error f, supply)

/-! ## Saving -/

/-- The bytes to be written. -/
def encoded (s : Store) : Option Mishap → Except SaveError Bytes
  | some (.encoding detail) => .error ⟨.notEncoded detail, s.path.text⟩
  | _ => .ok s.history.encode

/-- Makes the folder of the target; folders on the way to it remain even if that fails. -/
def prepare (target : Path) (mishap : Option Mishap) (d : Disk) : Except DiskError Unit × Disk :=
  match mishap with
  | some (.making reached) =>
    match d.makeParent ⟨target.anchor, target.parts.take (reached + 1)⟩ with
    | (.ok _, d) => (.error .inputOutput, d)
    | (.error e, d) => (.error e, d)
  | _ =>
    match d.makeParent target with
    | (.ok _, d) => (.ok (), d)
    | (.error e, d) => (.error e, d)

/-- Writes the temporary file; after an error it may be there in part. -/
def writeTemporary (temporary : Path) (bytes : Bytes) (mishap : Option Mishap) (d : Disk) :
    Except DiskError Unit × Disk :=
  match mishap with
  | some .writing => (.error .inputOutput, d)
  | some (.cuttingOff size) =>
    match d.write temporary (bytes.take size) with
    | .ok written => (.error .inputOutput, written)
    | .error e => (.error e, d)
  | _ =>
    match d.write temporary bytes with
    | .ok written => (.ok (), written)
    | .error e => (.error e, d)

/-- Writes a temporary file and moves it over the target. -/
def publish (target temporary : Path) (bytes : Bytes) (mishap : Option Mishap) (d : Disk) :
    Except DiskError Unit × Disk :=
  match writeTemporary temporary bytes mishap d with
  | (.error e, written) => (.error e, written)
  | (.ok (), written) =>
    match
      if mishap = some .replacing then .error .inputOutput else written.move temporary target
    with
    | .error e => (.error e, written)
    | .ok moved => (.ok (), moved)

/-- The disk's part of `HistoryStore.save`: replaces a file whole, and makes its folder where
there is none. After an error nothing of the temporary file remains, unless the error behind
`SystemFailure` keeps it from being removed. -/
def replaceFile (target : Path) (bytes : Bytes) (mishap : Option Mishap) (d : Disk) :
    Except (DiskError ⊕ SystemFailure) Unit × Disk :=
  if target.name?.isNone then (.error (.inr (.noFileName target)), d)
  else
    let (made, d) := prepare target mishap d
    let temporary := d.temporary target
    let (published, d) :=
      match made with
      | .ok () => publish target temporary bytes mishap d
      | .error e => (.error e, d)
    match published with
    | .ok () => (.ok (), d)
    | .error e =>
      match d.discard temporary with
      | .ok d => (.error (.inl e), d)
      | .error e => (.error (.inr (.disk e)), d)

/-- `HistoryStore.save`: writes sessions and variables to the history file. -/
def save (s : Store) (mishap : Option Mishap) (d : Disk) : Except SaveFailure Store × Disk :=
  match s.encoded mishap with
  | .error e => (.error (.error e), d)
  | .ok bytes =>
    match replaceFile s.path bytes mishap d with
    | (.ok (), d) => (.ok { s with dirty := false, lastSize := bytes.length }, d)
    | (.error (.inl e), d) => (.error (.error ⟨.notWritten e.message, s.path.text⟩), d)
    | (.error (.inr f), d) => (.error (.system f), d)

end Store

end ExactCalc
