/-
  ExactCalc.Engine — the calculator (`CalcEngine`: `open`, `evaluate`, `_checkpoint`,
  `save`, `close`; SPEC §6): evaluates inputs one by one, and records each value in the
  history.

  An input that is blank or rejected leaves everything as it was. After a value the
  entry goes to the current session, and when enough entries have come in since the last
  save, the history is saved; should that fail, the entries stay in memory for a later
  save.
-/

import ExactCalc.Expr.Evaluation
import ExactCalc.Expr.Parsing
import ExactCalc.History.Store
import ExactCalc.Settings

namespace ExactCalc

/-- What lies outside: the disk, and the identifiers and times to come. -/
structure World where
  disk : Disk
  supply : Supply

/-- `CalcEngine`: a store, and what says when to save it and what to show. -/
structure Engine where
  store : Store
  settings : Settings
  /-- Entries that came in after the last save. -/
  unsaved : Nat
  /-- Why the history that was found is not there. -/
  loadError : Option LoadError

/-- `CalcResult`: what an accepted input comes to. -/
structure Answer where
  expression : String
  value : Number
  /-- The value in decimal. -/
  display : String
  entryId : Text.Symbols

/-- What comes of one input. -/
inductive Reply where
  | blank
  | answer (a : Answer)
  | rejected (failure : Failure)
  | broken (failure : SystemFailure)

namespace Engine

/-- `CalcEngine.open`: loads the history, or none, and starts a session. -/
def start (settings : Settings) (w : World) : Except SystemFailure Engine × World :=
  match (Store.new settings.historyPath).loadOrEmpty w.disk w.supply with
  | (.error f, supply) => (.error f, { w with supply := supply })
  | (.ok (store, loadError), supply) =>
    let (_, store, supply) := store.startSession supply
    (.ok ⟨store, settings, 0, loadError⟩, { w with supply := supply })

/-- `CalcEngine.variables`. -/
def vars (e : Engine) : Variables := e.store.vars

/-- `CalcEngine.format`: a value with the places of the settings. -/
def format (e : Engine) (a : Number) : String := a.decimal e.settings.places

/-- An entry as it is listed. -/
def rendition (e : Engine) (entry : Entry) : String := entry.rendition e.settings.places

/-- `CalcEngine.reinsert`: the input of an entry, to be edited again. -/
def reinsert? (e : Engine) (id : Text.Symbols) : Option Text.Symbols :=
  (e.store.findEntry? id).map Entry.expression

/-! ## Saving -/

/-- `CalcEngine.save`: the entries are saved, and the count of those that are not starts anew. -/
def save (e : Engine) (mishap : Option Mishap) (d : Disk) : Except SaveFailure Engine × Disk :=
  match e.store.save mishap d with
  | (.ok store, d) => (.ok { e with store := store, unsaved := 0 }, d)
  | (.error f, d) => (.error f, d)

/-- Whether enough entries have come in for a save. -/
def isDue (e : Engine) : Bool :=
  e.settings.autosaveInterval != 0 && e.settings.autosaveInterval ≤ e.unsaved

/-- `CalcEngine._checkpoint`: saves if it is time to; a failure the user would be told of is
left for later. -/
def checkpoint (e : Engine) (mishap : Option Mishap) (d : Disk) :
    Except SystemFailure Engine × Disk :=
  if e.isDue then
    match e.save mishap d with
    | (.ok e, d) => (.ok e, d)
    | (.error (.error _), d) => (.ok e, d)
    | (.error (.system f), d) => (.error f, d)
  else (.ok e, d)

/-- `CalcEngine.close`: saves what is not saved yet. -/
def close (e : Engine) (mishap : Option Mishap) (d : Disk) : Except SaveFailure Engine × Disk :=
  if e.store.dirty then e.save mishap d else (.ok e, d)

/-! ## Evaluating -/

def isBlank (text : String) : Bool := text.toList.all Text.isBlank

/-- The end of `CalcEngine.evaluate`: records a value, and saves if it is time to. -/
def record (e : Engine) (text : String) (value : Number) (vars : Variables)
    (mishap : Option Mishap) (w : World) : Reply × Engine × World :=
  let (entry, supply) := Entry.ofResult text value w.supply
  let (store, supply) := { e.store with vars := vars }.append entry supply
  let recorded := { e with store := store, unsaved := e.unsaved + 1 }
  match recorded.checkpoint mishap w.disk with
  | (.ok e, d) => (.answer ⟨text, value, e.format value, entry.id⟩, e, ⟨d, supply⟩)
  | (.error f, d) => (.broken f, recorded, ⟨d, supply⟩)

/-- `CalcEngine.evaluate`: a blank or rejected input changes nothing, and any other is recorded. -/
def evaluate (e : Engine) (text : String) (mishap : Option Mishap) (w : World) :
    Reply × Engine × World :=
  if isBlank text then (.blank, e, w)
  else
    match Expr.parse text >>= Expr.evaluate e.vars with
    | .error f => (.rejected f, e, w)
    | .ok (value, vars) => e.record text value vars mishap w

end Engine

end ExactCalc
