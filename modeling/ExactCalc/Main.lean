/-
  ExactCalc.Main — the program: looks at the arguments, the environment, standard input,
  the clock and the history file, carries the command line out, and writes back the
  history file if it has changed.
-/

import ExactCalc.Console.Execution
import ExactCalc.Hash.Sha256
import Std.Time.DateTime.Timestamp

namespace ExactCalc.Console

/-! ## Identifiers and time -/

/-- The identifier of number `n` under a random seed: thirty-two digits, of which two tell that the
others are random. -/
def identifier (seed : Bytes) (n : Nat) : String :=
  let digits := (Sha256.hex (seed ++ Bytes.ofText n.repr)).toList
  let group (first count : Nat) : String := String.ofList ((digits.drop first).take count)
  "-".intercalate [group 0 8, group 8 4, "4" ++ group 13 3, "8" ++ group 17 3, group 20 12]

/-- The time of a count of microseconds. -/
def stampOf (micros : Int) : Stamp :=
  (Stamp.ofEpoch? (micros / 1000000) (micros % 1000000).toNat).getD Stamp.epoch

def supplyOf (seed : Bytes) (micros : Int) : Supply :=
  ⟨identifier seed, fun _ => stampOf micros, 0, 0⟩

def readSupply : IO Supply := do
  let seed ← IO.getRandomBytes 16
  let now ← Std.Time.Timestamp.now
  return supplyOf seed.toList (now.toNanosecondsSinceUnixEpoch.val / 1000)

/-! ## The environment -/

def settingKeys : List String :=
  [Settings.placesKey, Settings.intervalKey, Settings.dataDirKey, Settings.historyFileKey,
    Settings.levelKey]

/-- The user and the home in a line of the table of users. -/
def account? (line : String) : Option (String × Path) :=
  match line.splitOn ":" with
  | user :: _ :: _ :: _ :: _ :: home :: _ => some (user, Path.ofText home)
  | _ => none

/-- The homes of all users; none where there is no table. -/
def readHomes : IO (List (String × Path)) := do
  try return ((← IO.FS.readFile "/etc/passwd").splitOn "\n").filterMap account?
  catch _ => return []

def readEnvironment : IO Environment := do
  let pairs ← settingKeys.filterMapM fun key => return (← IO.getEnv key).map (key, ·)
  let home := (← IO.getEnv "HOME").getD "/"
  return ⟨fun key => pairs.lookup key, Path.ofText home, ← readHomes⟩

partial def readAll (input : IO.FS.Stream) (read : String) : IO String := do
  let line ← input.getLine
  if line.isEmpty then return read else readAll input (read ++ line)

def readInput : IO StandardInput := do
  let input ← IO.getStdin
  return ⟨← readAll input "", ← input.isTty⟩

/-! ## The history file -/

/-- A disk with one file, and the folders it needs. -/
def diskWith (path : Path) (content : Bytes) : Disk :=
  let d := (Disk.empty.makeParent path).2
  (d.write path content).toOption.getD d

/-- The code of the failure to follow a path through a file: the system's number, negated. -/
def notAFolderCode : UInt32 := -20

/-- A disk on which the history file is as it is found. Where a file is in the way, the folder of
the history file is one; what cannot be read for another reason is a folder. -/
def readDisk (path : Path) : IO Disk := do
  try
    let content ← IO.FS.readBinFile path.text
    return diskWith path content.toList
  catch
    | .noFileOrDirectory .. => return Disk.empty
    | .inappropriateType _ code _ =>
      if code = notAFolderCode then return diskWith path.parent []
      else return (Disk.empty.makeFolders [] path.parts).2
    | _ => return (Disk.empty.makeFolders [] path.parts).2

/-- Puts the history file where it belongs, by way of a temporary file. -/
def writeBack (path : Path) (content : Bytes) (tag : String) : IO Unit := do
  let temporary := (path.withName (path.name ++ "." ++ tag ++ ".tmp")).text
  IO.FS.createDirAll path.parent.text
  IO.FS.writeBinFile temporary ⟨content.toArray⟩
  try IO.FS.rename temporary path.text
  catch e =>
    IO.FS.removeFile temporary
    throw e

/-- Writes the history file if a run changed it; the error line otherwise. -/
def keep (path : Path) (before after : Disk) (tag : String) : IO (Option String) := do
  match after.read path with
  | .error _ => return none
  | .ok content =>
    if (before.read path).toOption == some content then return none
    else
      try
        writeBack path content tag
        return none
      catch e => return some (SaveError.message ⟨.notWritten (toString e), path.text⟩)

/-! ## The run -/

def asksForInput : List String → Bool := fun arguments =>
  Command.ofArguments arguments matches .ok .repl

/-- The path of the history file; without valid settings none is needed. -/
def historyPath? (env : Environment) : Option Path :=
  (settingsOf env).toOption.map Settings.historyPath

def execute (arguments : List String) : IO Outcome := do
  let env ← readEnvironment
  let supply ← readSupply
  let input ← if asksForInput arguments then readInput else pure (.ofText "")
  match historyPath? env with
  | none => return (run arguments env input none ⟨Disk.empty, supply⟩).1
  | some path =>
    let before ← readDisk path
    let (outcome, after) := run arguments env input none ⟨before, supply⟩
    match ← keep path before after.disk (supply.ids after.supply.nextId) with
    | none => return outcome
    | some message => return { outcome with code := 1, err := outcome.err ++ errorLine message }

end ExactCalc.Console

open ExactCalc.Console in
def main (arguments : List String) : IO UInt32 := do
  let outcome ← execute arguments
  (← IO.getStdout).putStr outcome.out
  (← IO.getStderr).putStr outcome.err
  return outcome.code.toUInt32
