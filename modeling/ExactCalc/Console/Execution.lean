/-
  ExactCalc.Console.Execution — a command line carried out (`main`, `cmd_eval`,
  `cmd_history`, `cmd_vars`, `cmd_paths`, `cmd_repl`; SPEC §6): what is printed, and the
  exit code.

  Zero is success. Two means that the arguments, the settings, an expression or a
  session's name were refused, one that the history could not be kept or that the system
  failed. Whatever the command does, the history is saved at its end if it holds
  anything new; a failure to do so has the last word.
-/

import ExactCalc.Console.Arguments
import ExactCalc.Console.Repl

namespace ExactCalc.Console

/-- What is left when a run is over. -/
structure Outcome where
  code : Nat
  out : String
  err : String
  deriving DecidableEq

/-- A command at its end, before the history is closed. -/
structure Performance where
  out : String
  err : String
  status : Except SystemFailure Nat
  engine : Engine
  world : World

def errorLine (message : String) : String := line ("error: " ++ message)

/-! ## Help -/

def programName : String := "apecrunch"

def versionText : String := programName ++ " 0.1.0"

def argumentsText : CommandName → String
  | .eval => " [-h] [--fraction] EXPRESSION [EXPRESSION ...]"
  | .history => " [-h] [--session ID] [--all]"
  | _ => " [-h]"

def commandUsage (c : CommandName) : String :=
  "usage: " ++ programName ++ " " ++ c.text ++ argumentsText c

def programUsage : String :=
  "usage: " ++ programName ++ " [-h] [--version] \x7b" ++
    ",".intercalate (CommandName.all.map CommandName.text) ++ "\x7d ..."

def usage : Option CommandName → String
  | some c => commandUsage c
  | none => programUsage

/-! ## Standard input -/

/-- What stands on standard input, and whether a person at a terminal types it. -/
structure StandardInput where
  text : String
  isTerminal : Bool

namespace StandardInput

/-- A text that comes from a file or a pipe. -/
def ofText (text : String) : StandardInput := ⟨text, false⟩

instance : Coe String StandardInput := ⟨ofText⟩

/-- `REPL_PROMPT`: the prompt of a dialogue; only a terminal gets one. -/
def prompt (input : StandardInput) : String := if input.isTerminal then "> " else ""

end StandardInput

/-! ## Commands -/

/-- `cmd_eval`: evaluates texts in order, up to the first one that is rejected. -/
def evaluateAll (fraction : Bool) (mishap : Option Mishap) :
    List String → Engine → World → Performance
  | [], e, w => ⟨"", "", .ok 0, e, w⟩
  | text :: rest, e, w =>
    match e.evaluate text mishap w with
    | (.broken f, e, w) => ⟨"", "", .error f, e, w⟩
    | (.rejected f, e, w) => ⟨"", line (failureText f), .ok 2, e, w⟩
    | (reply, e, w) =>
      let p := evaluateAll fraction mishap rest e w
      { p with out := replyText fraction reply ++ p.out }

/-- The entries of the last session that has any. -/
def lastEntries (e : Engine) : List Entry :=
  match e.store.sessions.reverse.find? fun s => !s.entries.isEmpty with
  | some s => s.entries
  | none => []

/-- The entries that were asked for; the name of an unknown session otherwise. -/
def selected (e : Engine) (session : Option String) (all : Bool) : Except String (List Entry) :=
  if all then .ok e.store.allEntries
  else
    match session.filter (· != "") with
    | none => .ok (lastEntries e)
    | some id =>
      match e.store.entriesOf? (.ofString id) with
      | some entries => .ok entries
      | none => .error id

/-- `cmd_history`: the entries that were asked for, one on each line. -/
def showHistory (session : Option String) (all : Bool) (e : Engine) (w : World) : Performance :=
  match selected e session all with
  | .ok entries => ⟨listEntries e entries, "", .ok 0, e, w⟩
  | .error id => ⟨"", errorLine ("unknown session " ++ id), .ok 2, e, w⟩

/-- `cmd_paths`: where the data lies. -/
def pathsText (settings : Settings) : String :=
  line ("data_dir: " ++ settings.dataDir.text) ++
    line ("history_file: " ++ settings.historyPath.text)

/-- Carries out a command with an engine. A dialogue starts with its prompt (`cmd_repl`). -/
def perform (input : StandardInput) (mishap : Option Mishap) (e : Engine) (w : World) :
    Command → Performance
  | .eval texts fraction => evaluateAll fraction mishap texts e w
  | .history session all => showHistory session all e w
  | .vars => ⟨listVariables e, "", .ok 0, e, w⟩
  | .paths => ⟨pathsText e.settings, "", .ok 0, e, w⟩
  | .repl =>
    let d := dialogue input.prompt mishap input.text e w
    ⟨input.prompt ++ d.printed, "", match d.failure with
      | some f => .error f
      | none => .ok 0, d.engine, d.world⟩

/-! ## Whole runs -/

/-- Closes the history after a command, as `main` does however the command ends. -/
def conclude (mishap : Option Mishap) (p : Performance) : Outcome × World :=
  let (closed, d) := p.engine.close mishap p.world.disk
  let w := { p.world with disk := d }
  match closed, p.status with
  | .ok _, .ok code => (⟨code, p.out, p.err⟩, w)
  | .ok _, .error f => (⟨1, p.out, p.err ++ errorLine f.message⟩, w)
  | .error (.error e), _ => (⟨1, p.out, p.err ++ errorLine e.message⟩, w)
  | .error (.system f), _ => (⟨1, p.out, p.err ++ errorLine f.message⟩, w)

/-- `_print_load_error`: the warning that a history was not loaded. -/
def warning : Option LoadError → String
  | some e => line ("warning: history reset (" ++ e.cause.kind.name ++ "): " ++ e.message)
  | none => ""

def settingsCode : SettingsError → Nat
  | .unknownHome => 1
  | _ => 2

/-- Opens the history and carries out a command. -/
def runCommand (command : Command) (settings : Settings) (input : StandardInput)
    (mishap : Option Mishap) (w : World) : Outcome × World :=
  match Engine.start settings w with
  | (.error f, w) => (⟨1, "", errorLine f.message⟩, w)
  | (.ok e, w) =>
    let p := perform input mishap e w command
    conclude mishap { p with err := warning e.loadError ++ p.err }

/-- The settings, after a look at the level of logging. -/
def settingsOf (env : Environment) : Except SettingsError Settings := do
  let _ ← Settings.logLevel env
  Settings.read env

/-- `main`: carries out a command line. -/
def run (arguments : List String) (env : Environment) (input : StandardInput)
    (mishap : Option Mishap) (w : World) : Outcome × World :=
  match Command.ofArguments arguments with
  | .error (.help about) => (⟨0, line (usage about), ""⟩, w)
  | .error .version => (⟨0, line versionText, ""⟩, w)
  | .error .misuse => (⟨2, "", line (usage none)⟩, w)
  | .ok command =>
    match settingsOf env, command with
    | .error e, _ => (⟨settingsCode e, "", errorLine e.message⟩, w)
    | .ok settings, .paths => (⟨0, pathsText settings, ""⟩, w)
    | .ok settings, command => runCommand command settings input mishap w

end ExactCalc.Console
