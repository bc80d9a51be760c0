/-
  ExactCalc.Proofs.Text.OneLine — texts of one line. Numerals are such texts, and so is
  whatever is quoted: its line breaks are escaped (see `ExactCalc.Text.Quoted`).
-/

import ExactCalc.Proofs.Text.Places
import ExactCalc.Text.Quoted

namespace ExactCalc.Text

/-- A text without a line break. -/
def OneLine (s : String) : Prop := '\n' ∉ s.toList

instance (s : String) : Decidable (OneLine s) := inferInstanceAs (Decidable ('\n' ∉ s.toList))

@[simp] theorem oneLine_append {s t : String} : OneLine (s ++ t) ↔ OneLine s ∧ OneLine t := by
  unfold OneLine
  rw [String.toList_append, List.mem_append, not_or]

end ExactCalc.Text
