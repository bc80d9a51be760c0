/-
  ExactCalc.History.Span — spans (`traced_history_operation`; SPEC §10): what is traced
  of a load or a save, where tracing is asked for.

  A span names the history file only by the hash of its name. It tells how the operation
  ended, and after a success how much the store holds.
-/

import ExactCalc.Hash.Sha256
import ExactCalc.History.Store

namespace ExactCalc

namespace Store

/-- `is_tracing_enabled`: whether a setting asks for tracing. -/
def tracing (setting : String) : Bool :=
  ["1", "true", "yes"].contains ((Text.trim setting).map Char.toLower)

inductive Operation where
  | load
  | save
  deriving DecidableEq

def Operation.name : Operation → String
  | load => "apecrunch.history.load"
  | save => "apecrunch.history.save"

inductive Ending where
  | loadFailed (failure : LoadFailure)
  | saveFailed (failure : SaveFailure)
  | done (sessions entries : Nat) (size : Option Nat)

structure Span where
  operation : Operation
  fileNameHash : String
  ending : Ending

/-- How a success ends. -/
def ending (s : Store) : Ending := .done s.sessions.length s.allEntries.length s.lastSize

def fileNameHash (s : Store) : String := Sha256.hex (Bytes.ofText s.path.name)

/-- The span of `HistoryStore.load`. -/
def loadSpan (s : Store) (r : Except LoadFailure Store) : Span :=
  ⟨.load, s.fileNameHash, match r with
    | .ok s => s.ending
    | .error f => .loadFailed f⟩

/-- The span of `HistoryStore.save`. -/
def saveSpan (s : Store) (r : Except SaveFailure Store) : Span :=
  ⟨.save, s.fileNameHash, match r with
    | .ok s => s.ending
    | .error f => .saveFailed f⟩

end Store

end ExactCalc
