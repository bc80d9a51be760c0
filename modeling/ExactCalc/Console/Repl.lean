/-
  ExactCalc.Console.Repl — the line-by-line dialogue (`run_repl`; SPEC §6): each line is
  an input or a command, and is dealt with whole before the next one.

  Commands start with a colon. They only look; inputs go to the engine one after the
  other. A line that is rejected leads to one line of output, and the dialogue goes on.
-/

import ExactCalc.Engine

namespace ExactCalc.Console

/-! ## What is printed -/

def line (s : String) : String := s ++ "\n"

/-- `_format_error`: the line for a failure. -/
def failureText : Failure → String
  | .rejected r => "error[" ++ r.kindName ++ "]: " ++ r.message
  | .fault f => "error: " ++ f.message

/-- `_format_result`: the value in decimal, and on request a value that is no integer as a
fraction as well. -/
def answerText (a : Answer) (fraction : Bool) : String :=
  if fraction && !a.value.isInteger then a.display ++ " [" ++ a.value.fraction ++ "]" else a.display

/-- `cmd_vars`: the variables with their values, one on each line. -/
def listVariables (e : Engine) : String :=
  String.join (e.vars.pairs.map fun (name, a) => line (name ++ " = " ++ e.format a))

def listEntries (e : Engine) (entries : List Entry) : String :=
  String.join (entries.map fun entry => line (entry.id.display ++ "  " ++ e.rendition entry))

/-! ## Lines -/

inductive Line where
  | quit
  | vars
  | history
  | reinsert (id : String)
  | unknown (command : String)
  | input (text : String)
  deriving DecidableEq

namespace Line

def reinsertWord : List Char := ":reinsert".toList

def ofText (text : String) : Line :=
  let command := Text.trim text
  if command = ":quit" ∨ command = ":q" then quit
  else if command = ":vars" then vars
  else if command = ":history" then history
  else
    match command.toList with
    | ':' :: _ =>
      if reinsertWord.isPrefixOf command.toList then
        reinsert (Text.trim (String.ofList (command.toList.drop reinsertWord.length)))
      else unknown command
    | _ => input text

end Line

/-- The lines of a text, each without its line break; what follows the last break is a line if it
is not empty. -/
def linesOf : List Char → List (List Char)
  | [] => []
  | '\n' :: rest => [] :: linesOf rest
  | c :: rest =>
    match linesOf rest with
    | [] => [[c]]
    | l :: more => (c :: l) :: more

/-! ## The dialogue -/

/-- What a command that only looks prints. -/
def look (e : Engine) : Line → String
  | .vars => listVariables e
  | .history =>
    match e.store.currentSession? with
    | some session => listEntries e session.entries
    | none => ""
  | .reinsert id =>
    match e.reinsert? (.ofString id) with
    | some text => line text.display
    | none => line ("error: unknown entry " ++ id)
  | .unknown command => line ("error: unknown command " ++ command)
  | .quit | .input _ => ""

/-- How a dialogue stands: all that was printed, and the failure that ended it, if one did. -/
structure Dialogue where
  printed : String
  failure : Option SystemFailure
  engine : Engine
  world : World

/-- What is printed for a reply. -/
def replyText (fraction : Bool) : Reply → String
  | .answer a => line (answerText a fraction)
  | .rejected f => line (failureText f)
  | .blank | .broken _ => ""

/-- A line as it comes in, and what goes wrong outside should it lead to a save. -/
structure Turn where
  text : String
  mishap : Option Mishap
  deriving DecidableEq

/-- `run_repl`: deals with lines until one quits; the prompt is printed after each. -/
def converse (prompt : String) : List Turn → Engine → World → Dialogue
  | [], e, w => ⟨"", none, e, w⟩
  | turn :: rest, e, w =>
    match Line.ofText turn.text with
    | .quit => ⟨"", none, e, w⟩
    | .input text =>
      match e.evaluate text turn.mishap w with
      | (.broken f, e, w) => ⟨"", some f, e, w⟩
      | (reply, e, w) =>
        let d := converse prompt rest e w
        { d with printed := replyText false reply ++ prompt ++ d.printed }
    | command =>
      let d := converse prompt rest e w
      { d with printed := look e command ++ prompt ++ d.printed }

/-- The lines of a text, all with the same mishap. -/
def turnsOf (mishap : Option Mishap) (input : String) : List Turn :=
  (linesOf input.toList).map fun l => ⟨String.ofList l, mishap⟩

/-- A dialogue over the lines of a text. -/
def dialogue (prompt : String) (mishap : Option Mishap) (input : String) (e : Engine) (w : World) :
    Dialogue :=
  converse prompt (turnsOf mishap input) e w

end ExactCalc.Console
