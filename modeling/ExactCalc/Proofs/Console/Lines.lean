/-
  ExactCalc.Proofs.Console.Lines — what is printed, line by line (see
  `ExactCalc.Console.Repl`).

  A text is cut at its line breaks, so no line holds one (`lineBreak_not_mem_line`).
  Lines that are printed one after another are read back as they are, as long as none
  holds a line break (`linesOf_lines`); and the text for a value holds none
  (`valueText_one_line`).
-/

import ExactCalc.Console.Repl
import ExactCalc.Proofs.Number.Decimal
import ExactCalc.Proofs.Text.OneLine

namespace ExactCalc.Console

open Text (OneLine)

/-! ## Lines -/

theorem linesOf_append {l : List Char} (h : '\n' ∉ l) (rest : List Char) :
    linesOf (l ++ '\n' :: rest) = l :: linesOf rest := by
  induction l with
  | nil => rfl
  | cons c l ih =>
    rw [List.mem_cons, not_or] at h
    rw [List.cons_append, linesOf, ih h.2]
    exact Ne.symm h.1

/-- What is printed as lines are these lines, if none of them holds a line break. -/
theorem linesOf_lines {texts : List String} (h : ∀ text ∈ texts, OneLine text) :
    linesOf (String.join (texts.map line)).toList = texts.map String.toList := by
  rw [String.toList_join]
  induction texts with
  | nil => rfl
  | cons text texts ih =>
    obtain ⟨htext, htexts⟩ := List.forall_mem_cons.mp h
    have hline : (line text).toList = text.toList ++ ['\n'] := String.toList_append
    rw [List.map_cons, List.flatMap_cons, hline, List.append_assoc, List.singleton_append,
      linesOf_append htext, ih htexts, List.map_cons]

/-! ## Values -/

/-- A value as it is printed: in decimal, and on request also as a fraction if it is no integer. -/
def valueText (places : Nat) (fraction : Bool) (value : Number) : String :=
  if fraction && !value.isInteger then value.decimal places ++ " [" ++ value.fraction ++ "]"
  else value.decimal places

theorem valueText_one_line (places : Nat) (fraction : Bool) (value : Number) :
    OneLine (valueText places fraction value) := by
  have hdecimal : OneLine (value.decimal places) := by
    unfold OneLine Number.decimal
    rw [String.toList_ofList]
    exact fun h => absurd (Number.mem_decimalChars h) (by decide)
  have hfraction : OneLine value.fraction := by
    unfold OneLine Number.fraction
    rw [String.toList_ofList]
    exact fun h => absurd (Number.mem_fractionChars h) (by decide)
  unfold valueText
  split
  · simp only [Text.oneLine_append]
    exact ⟨⟨⟨hdecimal, by decide⟩, hfraction⟩, by decide⟩
  · exact hdecimal

end ExactCalc.Console
