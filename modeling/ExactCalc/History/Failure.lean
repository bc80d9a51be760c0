/-
  ExactCalc.History.Failure — why a history cannot be loaded or saved
  (`HistoryLoadError`, `HistorySaveError`; SPEC §7).

  - `LoadError` and `SaveError`: the causes a user is told of, with the file they
    concern.
  - `SystemFailure`: what nothing on the way handles; it ends the command.
-/

import ExactCalc.Disk.Basic
import ExactCalc.Failure
import ExactCalc.Zlib.Bits

namespace ExactCalc

/-! ## Failures of the system -/

inductive SystemFailure where
  /-- A time whose year the system cannot name. -/
  | unnamedYear
  /-- A path that cannot be asked for, or a save that failed as well as the removal of its temporary
  file. -/
  | disk (error : DiskError)
  /-- A history path that ends in no name. -/
  | noFileName (path : Path)
  deriving DecidableEq

def SystemFailure.message : SystemFailure → String
  | unnamedYear => "[Errno 75] Value too large for defined data type"
  | disk error => error.message
  | noFileName path =>
    "PosixPath(" ++ String.ofList (Text.quoted path.text.toList) ++ ") has an empty name"

/-! ## Loading -/

/-- What a `HistoryLoadError` says. -/
inductive LoadCause where
  /-- The system does not hand out the file. -/
  | unreadable (detail : String)
  | tooShort (size : Nat)
  | newer (version : Nat)
  | unknownVersion (version : Nat)
  | notCompressed (version : Nat) (error : Zlib.Error)
  | notJson (version : Nat)
  | notObject (version : Nat)
  | noMigration (version : Int)
  | malformed (version : Int)
  | invalid (version errors : Nat)
  | badVariable (error : EvalError)
  deriving DecidableEq

/-- `HistoryLoadErrorKind`. -/
inductive LoadKind where
  | corrupt
  | incompatibleVersion
  | io
  deriving DecidableEq

def LoadKind.name : LoadKind → String
  | corrupt => "CORRUPT"
  | incompatibleVersion => "INCOMPATIBLE_VERSION"
  | io => "IO"

/-- `FORMAT_VERSION`: the newest format, and the only one that is written. -/
def formatVersion : Nat := 2

namespace LoadCause

def kind : LoadCause → LoadKind
  | unreadable _ => .io
  | newer _ | unknownVersion _ | noMigration _ => .incompatibleVersion
  | _ => .corrupt

/-- The version that the file gives, where the failure comes after reading it. -/
def version? : LoadCause → Option Int
  | newer v | unknownVersion v | notCompressed v _ | notJson v | notObject v | invalid v _ =>
    some v
  | noMigration v | malformed v => some v
  | unreadable _ | tooShort _ | badVariable _ => none

/-- What a user is told. Where a reader of JSON, or the first field of the wrong shape, would have
the last word, there is a fixed text. -/
def message : LoadCause → String
  | unreadable detail => "Failed to read history file: " ++ detail
  | tooShort size =>
    "History data too short for a version header (" ++ size.repr ++ " bytes)"
  | newer v =>
    "History format version " ++ v.repr ++ " is newer than supported " ++ formatVersion.repr
  | unknownVersion v => "Unknown history format version " ++ v.repr
  | notCompressed _ error => "History data could not be decompressed: " ++ error.message
  | notJson _ => "History payload is not valid JSON: the text does not follow the grammar"
  | notObject _ => "History payload is not an object"
  | noMigration v => "No migration from history format version " ++ intText v
  | malformed v =>
    "History payload version " ++ intText v ++ " is malformed: a part has the wrong shape"
  | invalid _ errors => "History payload failed validation: " ++ errors.repr ++ " error(s)"
  | badVariable error => "History variable table is invalid: " ++ error.message

end LoadCause

/-- `HistoryLoadError`: a cause and the file that it concerns, where that is known. -/
structure LoadError where
  cause : LoadCause
  /-- The history file, where the failure concerns one. -/
  path : Option String
  deriving DecidableEq

def withPath (message : String) : Option String → String
  | some path => if path.isEmpty then message else message ++ " path=" ++ path
  | none => message

def LoadError.message (e : LoadError) : String := withPath e.cause.message e.path

inductive LoadFailure where
  | error (error : LoadError)
  | system (failure : SystemFailure)
  deriving DecidableEq

/-! ## Saving -/

inductive SaveCause where
  | notEncoded (detail : String)
  | notWritten (detail : String)
  deriving DecidableEq

/-- `HistorySaveError`: a cause and the file that it concerns. -/
structure SaveError where
  cause : SaveCause
  path : String
  deriving DecidableEq

def SaveCause.message : SaveCause → String
  | notEncoded detail => "Failed to encode history: " ++ detail
  | notWritten detail => "Failed to write history file: " ++ detail

def SaveError.message (e : SaveError) : String := withPath e.cause.message (some e.path)

inductive SaveFailure where
  | error (error : SaveError)
  | system (failure : SystemFailure)
  deriving DecidableEq

end ExactCalc
