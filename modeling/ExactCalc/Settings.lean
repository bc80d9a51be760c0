/-
  ExactCalc.Settings — settings, read from the variables of the environment
  (`CalcSettings`, `load_settings`, `resolve_log_level`; SPEC §9).

  A variable that is unset or blank leaves the setting as it is by default. Both
  integers are read before either is checked against its range.
-/

import ExactCalc.Disk.Path
import ExactCalc.Failure
import ExactCalc.Text.Numeral
import ExactCalc.Text.Upper

namespace ExactCalc

/-- What a run finds around it. -/
structure Environment where
  value? : String → Option String
  home : Path
  /-- The homes of users, by name. -/
  homes : List (String × Path)

/-- `SettingsError`: why there are no settings. -/
inductive SettingsError where
  | notAnInteger (key value : String)
  | placesOutOfRange (places : Int)
  | intervalNegative (interval : Int)
  | unknownLevel (name : String)
  /-- A path that starts with the home of a user who is not known. -/
  | unknownHome
  deriving DecidableEq

/-- `MAX_DECIMAL_PLACES`: the largest number of places that can be shown. -/
def maxPlaces : Nat := 64

/-- `CalcSettings`, within the ranges that these are checked for. -/
structure Settings where
  /-- Places shown after the point. -/
  places : Nat
  /-- Entries between two saves; zero saves at the end only. -/
  autosaveInterval : Nat
  dataDir : Path
  /-- Seen from the data directory. -/
  historyFile : Path
  places_le : places ≤ maxPlaces

namespace Settings

def placesKey : String := "APECRUNCH_DECIMAL_PLACES"

def intervalKey : String := "APECRUNCH_AUTOSAVE_INTERVAL"

def dataDirKey : String := "APECRUNCH_DATA_DIR"

def historyFileKey : String := "APECRUNCH_HISTORY_FILE"

def levelKey : String := "APECRUNCH_LOG_LEVEL"

end Settings

def SettingsError.message : SettingsError → String
  | notAnInteger key value => key ++ " must be an integer, got '" ++ value ++ "'"
  | placesOutOfRange places =>
    Settings.placesKey ++ " must be between 0 and " ++ maxPlaces.repr ++ ", got " ++ intText places
  | intervalNegative interval =>
    Settings.intervalKey ++ " must be a non-negative integer, got " ++ intText interval
  | unknownLevel name =>
    Settings.levelKey ++ " must be a logging level name, got '" ++ name ++ "'"
  | unknownHome => "Could not determine home directory."

namespace Settings

def defaultPlaces : Nat := 6

def defaultInterval : Nat := 1

def defaultDataDir (home : Path) : Path := home.join ⟨.relative, [".local", "share", "apecrunch"]⟩

def defaultHistoryFile : Path := ⟨.relative, ["history.bin"]⟩

/-- `CalcSettings.history_path`. -/
def historyPath (s : Settings) : Path := s.dataDir.join s.historyFile

/-- `CalcSettings.__post_init__`: settings within their ranges. -/
def checked (places interval : Int) (dataDir historyFile : Path) : Except SettingsError Settings :=
  if h : 0 ≤ places ∧ places ≤ maxPlaces then
    if interval < 0 then .error (.intervalNegative interval)
    else .ok ⟨places.toNat, interval.toNat, dataDir, historyFile, by omega⟩
  else .error (.placesOutOfRange places)

/-! ## Reading -/

/-- The value of a variable, if it says anything. -/
def stated? (env : Environment) (key : String) : Option String :=
  ((env.value? key).map Text.trim).filter (· != "")

/-- `_parse_int`: the integer that a variable gives, or the default. -/
def integer (env : Environment) (key : String) (default : Nat) : Except SettingsError Int :=
  match stated? env key with
  | none => .ok default
  | some text =>
    match Text.Numeral.decimal? text.toList with
    | some n => .ok n
    | none => .error (.notAnInteger key text)

/-- `_parse_path`: the path that a variable gives, or the default. -/
def path (env : Environment) (key : String) (default : Path) : Except SettingsError Path :=
  match stated? env key with
  | none => .ok default
  | some text =>
    match (Path.ofText text).expandHome env.home env.homes with
    | some p => .ok p
    | none => .error .unknownHome

/-- `load_settings`: the settings that the environment asks for. -/
def read (env : Environment) : Except SettingsError Settings := do
  let places ← integer env placesKey defaultPlaces
  let interval ← integer env intervalKey defaultInterval
  let dataDir ← path env dataDirKey (defaultDataDir env.home)
  let historyFile ← path env historyFileKey defaultHistoryFile
  checked places interval dataDir historyFile

/-! ## Logging -/

def levels : List (String × Nat) :=
  [("CRITICAL", 50), ("FATAL", 50), ("ERROR", 40), ("WARNING", 30), ("WARN", 30), ("INFO", 20),
    ("DEBUG", 10), ("NOTSET", 0)]

def defaultLevel : String := "WARNING"

/-- `resolve_log_level`: the least level of what is logged. -/
def logLevel (env : Environment) : Except SettingsError Nat :=
  let name := Text.upper (Text.trim ((env.value? levelKey).getD defaultLevel))
  match levels.lookup name with
  | some level => .ok level
  | none => .error (.unknownLevel name)

end Settings

end ExactCalc
