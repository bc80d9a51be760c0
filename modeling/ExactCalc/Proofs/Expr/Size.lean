/-
  ExactCalc.Proofs.Expr.Size — no number outgrows the supported size, neither a result
  nor a variable, however many texts are calculated one after another (`calculate_fits`;
  `MAX_RESULT_BITS`, see `ExactCalc.Limits`).

  One node keeps the bound: an operation checks its result or is a root of what fits
  (`fits_value`). One text keeps it (`fits_calculate`), since what a tree brings along
  are literals of a parsed text, and an assignment puts only the result into the table.
  The run is an induction on the texts.
-/

import ExactCalc.Proofs.Expr.Nodes
import ExactCalc.Proofs.Expr.Targets
import ExactCalc.Proofs.Number.Size
import ExactCalc.Proofs.Table

namespace ExactCalc

/-- Every value of the table is within the supported size. -/
def Variables.Fits (vars : Variables) : Prop := ∀ p ∈ vars.pairs, p.2.Fits

theorem Variables.Fits.insert {vars : Variables} (h : vars.Fits) {v : Number} (hv : v.Fits)
    (name : String) : Variables.Fits (vars.insert name v) := by
  intro p hp
  rcases Table.mem_of_mem_put hp with rfl | hp
  · exact hv
  · exact h p hp

namespace Expr

open Grammar

/-! ## Calculating -/

/-- The value of a text over a table, and the table after it. A text without a value leaves the
table as it is. -/
def calculate (vars : Variables) (text : String) : Except Failure Number × Variables :=
  match parse text >>= evaluate vars with
  | .ok (v, vars') => (.ok v, vars')
  | .error f => (.error f, vars)

/-- The table after a sequence of texts. -/
def tableAfter (vars : Variables) (texts : List String) : Variables :=
  texts.foldl (fun vars text => (calculate vars text).2) vars

theorem calculate_cases (vars : Variables) (text : String) :
    (∃ e v vars', parse text = .ok e ∧ evaluate vars e = .ok (v, vars') ∧
      calculate vars text = (.ok v, vars')) ∨
    ∃ f, (parse text >>= evaluate vars) = .error f ∧ calculate vars text = (.error f, vars) := by
  unfold calculate
  cases h : (parse text >>= evaluate vars) with
  | error f => exact Or.inr ⟨f, rfl, rfl⟩
  | ok r =>
    obtain ⟨e, he, hr⟩ := bind_eq_ok.mp h
    exact Or.inl ⟨e, r.1, r.2, he, hr, rfl⟩

/-! ## One node -/

variable {vars vars' : Variables} {a b v : Number}

theorem fits_applySign {s : Sign} (ha : a.Fits) (h : applySign s a = .ok v) : v.Fits := by
  unfold applySign at h
  split at h
  · exact Number.fits_bounded h
  · cases h
    exact ha

theorem fits_applyOperator {op : Operator} (h : applyOperator op a b = .ok v) : v.Fits := by
  cases op with
  | add => exact Number.fits_bounded h
  | sub => exact Number.fits_bounded h
  | mul => exact Number.fits_bounded h
  | div => exact Number.fits_div h
  | pow => exact Number.fits_pow h
  | other symbol => cases h

theorem fits_two : (Number.exact 2).Fits := ⟨by decide, by decide⟩

/-! ## One text -/

theorem fits_value {ts : List Token} (hshort : ShortLiterals ts) (hvars : vars.Fits) {e : Expr}
    (he : Made ts e) : ∀ {v : Number}, e.value vars = .ok v → v.Fits := by
  induction he with
  | number ht hk =>
    intro v h
    cases h
    exact Number.fits_denoted (hshort _ ht hk)
  | two =>
    intro v h
    cases h
    exact fits_two
  | name =>
    intro v h
    unfold value at h
    split at h
    · rename_i hv
      cases h
      exact hvars _ (Table.get?_eq_some_iff.mp hv)
    · cases h
  | signed _ _ ih =>
    intro v h
    obtain ⟨a, ha, h⟩ := bind_eq_ok.mp h
    exact fits_applySign (ih ha) h
  | binary _ _ _ _ _ =>
    intro v h
    obtain ⟨a, -, h⟩ := bind_eq_ok.mp h
    obtain ⟨b, -, h⟩ := bind_eq_ok.mp h
    exact fits_applyOperator h
  | root _ _ _ ihr =>
    intro v h
    obtain ⟨degree, -, h⟩ := bind_eq_ok.mp h
    obtain ⟨radicand, hr, h⟩ := bind_eq_ok.mp h
    exact Number.fits_root (ihr hr) h

theorem fits_evaluate {text : String} {e : Expr} (he : parse text = .ok e) (hvars : vars.Fits)
    (h : evaluate vars e = .ok (v, vars')) : v.Fits ∧ vars'.Fits := by
  obtain ⟨ts, n, -, hshort, hmade⟩ := made_of_parse he
  obtain ⟨hn, hv, rfl⟩ | ⟨name, right, rfl, hv, -, rfl⟩ := evaluate_ok_cases h
  · rcases hmade with hmade | ⟨name, right, rfl, -⟩
    · exact ⟨fits_value hshort hvars hmade hv, hvars⟩
    · exact absurd trivial hn
  · rcases hmade with hmade | ⟨_, _, hassign, hmade⟩
    · cases hmade
    · cases hassign
      have hfit := fits_value hshort hvars hmade hv
      exact ⟨hfit, hvars.insert hfit name⟩

theorem fits_calculate (h : vars.Fits) (text : String) :
    (calculate vars text).2.Fits ∧ ∀ v, (calculate vars text).1 = .ok v → v.Fits := by
  obtain ⟨e, v, vars', he, hv, hc⟩ | ⟨f, -, hc⟩ := calculate_cases vars text
  · rw [hc]
    obtain ⟨hfit, hvars⟩ := fits_evaluate he h hv
    refine ⟨hvars, fun u hu => ?_⟩
    cases hu
    exact hfit
  · rw [hc]
    exact ⟨h, nofun⟩

/-! ## Runs -/

theorem fits_tableAfter (h : vars.Fits) (texts : List String) : (tableAfter vars texts).Fits := by
  induction texts generalizing vars with
  | nil => exact h
  | cons text texts ih => exact ih (fits_calculate h text).1

/-- Over a table within the supported size, whatever texts are calculated, every later table and
every value is within it. -/
theorem calculate_fits (h : vars.Fits) (texts : List String) :
    (tableAfter vars texts).Fits ∧
    ∀ text v, (calculate (tableAfter vars texts) text).1 = .ok v → v.Fits :=
  ⟨fits_tableAfter h texts, fun text => (fits_calculate (fits_tableAfter h texts) text).2⟩

/-- A root that is cut off goes into the table and on from there; the division that fails between
leaves no trace. -/
theorem calculate_fits_of_third :
    let vars : Variables := Table.empty.insert "x" (.exact (1 / 3))
    let texts := ["y = √x", "z = y/0", "x = y^2"]
    vars.Fits ∧ (tableAfter vars texts).keys = ["x", "y"] ∧ (tableAfter vars texts).Fits ∧
      ∃ v, (calculate (tableAfter vars texts) "x").1 = .ok v ∧ v.inexact = true ∧ v.Fits := by
  intro vars texts
  have hvars : vars.Fits := by
    intro p hp
    rw [List.mem_singleton.mp hp]
    exact ⟨by decide +kernel, by decide +kernel⟩
  obtain ⟨htable, hvalue⟩ := calculate_fits hvars texts
  refine ⟨hvars, by decide +kernel, htable, ?_⟩
  have hx : (calculate (tableAfter vars texts) "x").1 =
      .ok ⟨(57735026918962576450914878050195 / 10 ^ 32) ^ 2, true⟩ := by decide +kernel
  exact ⟨_, hx, rfl, hvalue "x" _ hx⟩

end Expr

end ExactCalc
