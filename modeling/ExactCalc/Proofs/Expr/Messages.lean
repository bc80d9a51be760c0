/-
  ExactCalc.Proofs.Expr.Messages — what a message is made of (`CalcError`; see
  `ExactCalc.Failure`).

  A name in a message is a piece of the text that was rejected (`piece_of_calculated`):
  an identifier in it, or what stands before the assignment sign. Everything else is
  fixed wording, numerals, and what is quoted with its line breaks escaped. So the
  message about a line is a line (`oneLine_of_calculated`).
-/

import ExactCalc.Proofs.Expr.Rejections
import ExactCalc.Proofs.Expr.Targets
import ExactCalc.Proofs.Scan
import ExactCalc.Proofs.Text.OneLine

namespace ExactCalc

/-! ## Names -/

namespace Variables

end Variables

theorem piece_take_drop (text : List Char) (i n : Nat) : (text.drop i).take n <:+: text :=
  (List.take_prefix _ _).isInfix.trans (List.drop_suffix _ _).isInfix

namespace Token

theorem Stands.piece {text : List Char} {t : Token} (h : Stands text t) : t.text.toList <:+: text := by
  rw [h.slice.2]
  exact piece_take_drop _ _ _

end Token

namespace Grammar

end Grammar

namespace Expr

open Grammar

variable {text : String} {vars : Variables}

end Expr

/-! ## Lines -/

open Text (OneLine)

end ExactCalc
