/-
  ExactCalc.Console.Arguments — the command line (`create_parser`; SPEC §6): what its
  words are, and the command they ask for.

  A word that starts with a dash is an option, unless it is a negative numeral or holds
  a space; after `--` every word is an argument. Long options may be cut short as long
  as they stay distinct, and may carry their value after an equals sign. Options before
  the command belong to the program, all words after it to the command.
-/

import ExactCalc.Text.Digit

namespace ExactCalc.Console

inductive Switch where
  | help
  | version
  | fraction
  | session
  | all
  deriving DecidableEq

/-- What an option carries in its own word. -/
inductive Attached where
  | nothing
  | value (text : String)
  /-- Letters that follow a short option, with or without an equals sign. -/
  | letters (cs : List Char)

inductive Role where
  | argument
  /-- The first `--`. -/
  | separator
  | option (switch : Switch) (attached : Attached)
  /-- An option that nobody knows. -/
  | stranger

structure Word where
  text : String
  role : Role

/-- Why there is no command. -/
inductive Stop (κ : Type) where
  | help (about : Option κ)
  | version
  | misuse

/-! ## Words -/

/-- A minus sign, then an integer or a fraction with a point; one line break may follow. -/
def isNegativeNumeral (cs : List Char) : Bool :=
  let isDigit := fun c => (Text.digitValue? c).isSome
  match cs with
  | '-' :: rest =>
    let body := if rest.getLast? = some '\n' then rest.dropLast else rest
    match body.dropWhile isDigit with
    | [] => !body.isEmpty
    | '.' :: digits => !digits.isEmpty && digits.all isDigit
    | _ => false
  | _ => false

/-- What stands before the first equals sign, and what after it. -/
def splitValue (cs : List Char) : List Char × Option String :=
  match cs.dropWhile (· != '=') with
  | '=' :: value => (cs.takeWhile (· != '='), some (String.ofList value))
  | _ => (cs, none)

def Attached.ofValue : Option String → Attached
  | some text => value text
  | none => nothing

def Attached.ofLetters : Option String → Attached
  | some text => letters text.toList
  | none => nothing

abbrev Options := List (String × Switch)

def Options.get? (options : Options) (name : List Char) : Option Switch :=
  options.lookup (String.ofList name)

/-- The role of a word, unless it abbreviates several options. -/
def roleOf (options : Options) (cs : List Char) : Option Role :=
  let plain := if isNegativeNumeral cs || cs.contains ' ' then Role.argument else .stranger
  match cs with
  | '-' :: second :: rest =>
    let (name, value) := splitValue cs
    match options.get? cs, options.get? name with
    | some switch, _ => some (.option switch .nothing)
    | none, some switch =>
      some (.option switch (if second = '-' then .ofValue value else .ofLetters value))
    | none, none =>
      if second = '-' then
        match options.filter fun (known, _) => name.isPrefixOf known.toList with
        | [] => some plain
        | [(_, switch)] => some (.option switch (.ofValue value))
        | _ => none
      else
        match options.get? ['-', second] with
        | some switch => some (.option switch (.letters rest))
        | none => some plain
  | _ => some .argument

def words (options : Options) : List String → Option (List Word)
  | [] => some []
  | "--" :: rest => some (⟨"--", .separator⟩ :: rest.map fun text => ⟨text, .argument⟩)
  | text :: rest => do
    let role ← roleOf options text.toList
    return ⟨text, role⟩ :: (← words options rest)

/-- Whether the letters after `-h` are accepted: each asks for help again. -/
def helpTakes (cs : List Char) : Bool := !cs.isEmpty && cs.all (· == 'h')

/-! ## The words of a command -/

/-- Whether arguments are still taken: in one run only. -/
inductive Intake where
  | waiting
  | taking
  | done
  deriving DecidableEq

structure Reading where
  intake : Intake
  arguments : List String
  fraction : Bool
  session : Option String
  all : Bool
  /-- Whether there was a word that has no place. -/
  strangers : Bool

namespace Reading

def new (takesArguments : Bool) : Reading :=
  ⟨if takesArguments then .waiting else .done, [], false, none, false, false⟩

def take (r : Reading) (text : String) : Reading :=
  if r.intake = .done then { r with strangers := true }
  else { r with intake := .taking, arguments := r.arguments ++ [text] }

def separate (r : Reading) : Reading :=
  if r.intake = .done then { r with strangers := true } else r

/-- An option ends the run of arguments. -/
def interrupt (r : Reading) : Reading :=
  if r.intake = .taking then { r with intake := .done } else r

def switchOn (r : Reading) : Switch → Reading
  | .fraction => { r with fraction := true }
  | .all => { r with all := true }
  | _ => r

/-- Reads words from the left. -/
def read {κ : Type} (about : κ) : List Word → Reading → Except (Stop κ) Reading
  | [], r => .ok r
  | ⟨text, .argument⟩ :: rest, r => read about rest (r.take text)
  | ⟨_, .separator⟩ :: rest, r => read about rest r.separate
  | ⟨_, .stranger⟩ :: rest, r => read about rest { r.interrupt with strangers := true }
  | ⟨_, .option .session .nothing⟩ :: ⟨text, .argument⟩ :: rest, r =>
    read about rest { r.interrupt with session := some text }
  | ⟨_, .option .session .nothing⟩ :: _, _ => .error .misuse
  | ⟨_, .option .session (.value text)⟩ :: rest, r =>
    read about rest { r.interrupt with session := some text }
  | ⟨_, .option .help .nothing⟩ :: _, _ => .error (.help (some about))
  | ⟨_, .option .help (.letters cs)⟩ :: _, _ =>
    .error (if helpTakes cs then .help (some about) else .misuse)
  | ⟨_, .option switch .nothing⟩ :: rest, r => read about rest (r.interrupt.switchOn switch)
  | ⟨_, .option _ _⟩ :: _, _ => .error .misuse

end Reading

/-! ## Commands -/

inductive CommandName where
  | eval
  | repl
  | history
  | vars
  | paths
  deriving DecidableEq

namespace CommandName

def all : List CommandName := [.eval, .repl, .history, .vars, .paths]

def text : CommandName → String
  | eval => "eval"
  | repl => "repl"
  | history => "history"
  | vars => "vars"
  | paths => "paths"

def ofText? (s : String) : Option CommandName := all.find? fun c => c.text == s

def options : CommandName → Options
  | eval => [("-h", .help), ("--help", .help), ("--fraction", .fraction)]
  | history => [("-h", .help), ("--help", .help), ("--session", .session), ("--all", .all)]
  | _ => [("-h", .help), ("--help", .help)]

/-- Whether the command needs arguments; the others take none. -/
def takesArguments (c : CommandName) : Bool := c = eval

end CommandName

/-- A command and what it is given (`create_parser`). -/
inductive Command where
  | eval (texts : List String) (fraction : Bool)
  | repl
  | history (session : Option String) (all : Bool)
  | vars
  | paths

namespace Command

def ofReading (name : CommandName) (r : Reading) : Except (Stop CommandName) Command :=
  if r.strangers || (name.takesArguments && r.arguments.isEmpty) then .error .misuse
  else
    .ok <| match name with
      | .eval => eval r.arguments r.fraction
      | .repl => repl
      | .history => history r.session r.all
      | .vars => vars
      | .paths => paths

/-- The command of that name with the words after it. -/
def ofWords (name : String) (rest : List String) : Except (Stop CommandName) Command :=
  match CommandName.ofText? name with
  | none => .error .misuse
  | some c =>
    match words c.options rest with
    | none => .error .misuse
    | some ws => Reading.read c ws (.new c.takesArguments) >>= ofReading c

def programOptions : Options := [("-h", .help), ("--help", .help), ("--version", .version)]

/-- Reads the words before the command; `strangers` tells of unknown options among them. An unknown
option is only complained of when the command itself is fine. -/
def ofProgramWords (strangers : Bool) : List Word → Except (Stop CommandName) Command
  | [] => .error (if strangers then .misuse else .help none)
  | ⟨name, .argument⟩ :: rest => do
    let command ← ofWords name (rest.map Word.text)
    if strangers then .error .misuse else return command
  | ⟨_, .stranger⟩ :: rest => ofProgramWords true rest
  | ⟨_, .option .help .nothing⟩ :: _ => .error (.help none)
  | ⟨_, .option .help (.letters cs)⟩ :: _ => .error (if helpTakes cs then .help none else .misuse)
  | ⟨_, .option .version .nothing⟩ :: _ => .error .version
  | _ => .error .misuse

/-- The command that a command line asks for. -/
def ofArguments (arguments : List String) : Except (Stop CommandName) Command :=
  match words programOptions arguments with
  | none => .error .misuse
  | some ws => ofProgramWords false ws

end Command

end ExactCalc.Console
