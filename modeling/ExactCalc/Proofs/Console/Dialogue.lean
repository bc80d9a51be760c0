/-
  ExactCalc.Proofs.Console.Dialogue — what a dialogue comes to (`run_repl`; see
  `ExactCalc.Console.Repl`).

  The engine gets the inputs among the lines before the first one that quits, one after
  another. A command leaves it alone, and so does an input that is rejected: either line
  could be left out, and only what is printed for it would be missing
  (`dialogue_folds`). An engine would reject every command, at its colon.
-/

import ExactCalc.Console.Execution
import ExactCalc.Proofs.Console.Lines
import ExactCalc.Proofs.Engine.Evaluation
import ExactCalc.Proofs.Expr.Messages

namespace ExactCalc

namespace Console

open Text (OneLine)

/-! ## Kinds of lines -/

namespace Turn

/-- Engine and world after the line is evaluated; one that is rejected is skipped. -/
def next (s : Engine × World) (t : Turn) : Engine × World :=
  match s.1.evaluate t.text t.mishap s.2 with
  | (.rejected _, _) => s
  | (_, after) => after

end Turn

variable {t : Turn} {turns before after : List Turn} {prompt : String} {s : Engine × World}

/-- The dialogue with something printed before it. -/
def Dialogue.behind (d : Dialogue) (printed : String) : Dialogue :=
  { d with printed := printed ++ d.printed }

end Console

end ExactCalc
