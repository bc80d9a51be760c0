/-
  ExactCalc.Proofs.Expr.Reentry — what is printed of a number can be typed in again
  (`printed_reenters`; see `ExactCalc.Number.Decimal`).

  The fraction of a number is the text of a literal, so its derivation is at hand
  (`exists_input`). A decimal text without an ellipsis is a numeral behind one sign at
  most. The numeral is a lexeme, it denotes what is shown, and that is the whole
  magnitude, as nothing was cut off.
-/

import ExactCalc.Proofs.Expr.Rendering
import ExactCalc.Proofs.Number.Truncation

namespace ExactCalc

open Grammar
open Token (Apart Scans operatorToken)

/-! ## Numerals as literals -/

namespace DecimalNumeral

variable (n : DecimalNumeral)

theorem isLexeme_chars : Number.isLexeme n.chars = true := by
  rw [Number.isLexeme_iff]
  unfold chars
  by_cases hd : n.decimals.isEmpty = true
  · rw [if_pos hd, List.append_nil]
    exact Or.inl ⟨n.whole_ne_nil, fun c hc => n.isDigit_whole hc⟩
  · rw [if_neg hd]
    exact Or.inr ⟨n.whole, n.decimals, rfl, fun c hc => n.isDigit_whole hc,
      fun c hc => n.isDigit_decimals hc, Or.inl n.whole_ne_nil⟩

theorem digitsOf_decimals : Number.digitsOf n.decimals = n.decimals :=
  Number.digitsOf_of_digits fun _ hc => n.isDigit_decimals hc

theorem digitsOf_chars : Number.digitsOf n.chars = n.whole ++ n.decimals := by
  have hwhole : Number.digitsOf n.whole = n.whole :=
    Number.digitsOf_of_digits fun _ hc => n.isDigit_whole hc
  refine (List.filter_append _ _).trans (congrArg₂ (· ++ ·) hwhole ?_)
  split
  · rename_i hd
    rw [List.isEmpty_iff.mp hd]
    rfl
  · exact n.digitsOf_decimals

theorem decimalsOf_chars : Number.decimalsOf n.chars = n.decimals := by
  have hpoint : ∀ c ∈ n.whole, (c != '.') = true :=
    fun c hc => Number.ne_point_of_isDigit (n.isDigit_whole hc)
  unfold Number.decimalsOf chars
  rw [List.dropWhile_append_of_pos hpoint]
  split
  · rename_i hd
    rw [List.isEmpty_iff.mp hd]
    rfl
  · exact n.digitsOf_decimals

/-- As a literal a numeral denotes its value. -/
theorem denoted_chars : Number.denoted n.chars = n.value := by
  unfold Number.denoted
  rw [n.digitsOf_chars, n.decimalsOf_chars, Rat.mkRat_eq_div, Nat.pow_eq, Int.cast_natCast, Nat.cast_pow,
    Nat.cast_ofNat]
  rfl

end DecimalNumeral

namespace Number

/-- Where nothing is cut off, the magnitude is shown. -/
theorem value_shown_of_den {a : Number} {places : Nat} (h : (a.value * 10 ^ places).den = 1) :
    (shown (a.scaled places) places).value = |a.value| := by
  have hpos : (0 : Rat) < 10 ^ places := pow_pos (by decide) places
  have hunits : |a.value| * 10 ^ places = ((a.value * 10 ^ places).num.natAbs : Nat) := by
    rw [← abs_of_pos hpos, ← abs_mul, abs_of_pos hpos, Nat.cast_natAbs, Int.cast_abs,
      Rat.coe_int_num_of_den_eq_one h]
  rw [value_shown, scaled_eq_floor, hunits, Nat.floor_natCast, ← hunits,
    mul_div_cancel_right₀ _ hpos.ne']

/-- Without an ellipsis a decimal text is a sign and the numeral of the whole magnitude. -/
theorem exists_numeral {a : Number} {places : Nat} (h : places ≤ maxPrintedDigits) :
    ∃ text, a.decimal? places = .ok text ∧ ('…' ∉ text.toList →
      ∃ n : DecimalNumeral, n.value = |a.value| ∧
        text = String.ofList ((if a.value < 0 then ['-'] else []) ++ n.chars)) := by
  refine ⟨_, a.decimal?_eq_shown h, fun hwhole => ?_⟩
  unfold textAround at hwhole ⊢
  rw [String.toList_ofList] at hwhole
  by_cases hcut : a.inexact ∨ (a.value * 10 ^ places).den ≠ 1
  · rw [if_pos hcut] at hwhole
    exact absurd (List.mem_append_right _ (List.mem_singleton_self _)) hwhole
  · have hden : (a.value * 10 ^ places).den = 1 := not_not.mp fun hden => hcut (Or.inr hden)
    refine ⟨shown (a.scaled places) places, value_shown_of_den hden, ?_⟩
    rw [if_neg hcut, List.append_nil]

end Number

namespace Expr

/-! ## Texts that are parsed -/

variable {cs : List Char}

/-- A text that has a derivation within the limits is parsed to its tree. -/
theorem parse_of_scans {d : Input} (hscans : Scans Apart cs 0 d.tokens) (hfit : d.Fits)
    (hshort : ShortLiterals d.tokens) : parse (String.ofList cs) = .ok (d.tree cs) := by
  have hscan : Token.scan (String.ofList cs).toList = ⟨d.tokens, .finished cs.length⟩ := by
    rw [String.toList_ofList]
    exact Token.scan_of_scans hscans
  exact (parse_iff_derives hscan).mpr ⟨d, rfl, by rw [String.toList_ofList], hfit, hshort⟩

/-- A text that is an operand is parsed to it. -/
theorem parse_of_power {p : Power} (hscans : Scans Apart cs 0 p.tokens) (hnesting : p.nesting ≤ maxNesting)
    (hdepth : p.tree.depth ≤ maxNesting) (hshort : ShortLiterals p.tokens) :
    parse (String.ofList cs) = .ok p.tree := by
  obtain ⟨s, htokens, htree, hnested⟩ := exists_sum_of_power p
  rw [← htokens] at hscans hshort
  rw [← hnested] at hnesting
  rw [← htree] at hdepth ⊢
  exact parse_of_scans (d := .sum s) hscans ⟨hnesting, hdepth⟩ hshort

/-! ## Calculating what was printed -/

theorem calculate_fraction {v : Number} (hs : v.Short) (vars : Variables) :
    (parse v.fraction >>= evaluate vars) = .ok (.exact v.value, vars) := by
  have hw : WritableInput (literal (.exact v.value)) := .value (.literal rfl)
  have hshort : (literal (.exact v.value)).Short := ⟨hs.num, hs.den⟩
  obtain ⟨d, hscans, htree, hliterals, hfits⟩ := exists_input hw
  have hparse : parse v.fraction = .ok (d.tree v.fractionChars) :=
    parse_of_scans hscans (hfits (by decide : 1 ≤ 50)) (hliterals.mpr hshort)
  have hspelled : d.tree v.fractionChars = (literal (.exact v.value)).spelled := htree
  rw [hspelled] at hparse
  exact bind_of_ok hparse (evaluate_spelled hw hshort vars)

section

variable {n : DecimalNumeral} (hs : (Number.digitsOf n.chars).length ≤ maxLiteralDigits)

include hs

theorem shortLiterals_chars (start : Nat) :
    ShortLiterals [⟨.number, String.ofList n.chars, start, start + n.chars.length⟩] := by
  unfold ShortLiterals
  rw [List.forall_mem_singleton, String.toList_ofList]
  exact fun _ => hs

theorem parse_numeral : parse (String.ofList n.chars) = .ok (literal (.exact n.value)) := by
  have h := parse_of_power (p := .plain ⟨[], nofun⟩ (.number _ rfl))
    (Token.scans_number n.isLexeme_chars 0) (by decide : 0 ≤ maxNesting) (by decide : 1 ≤ maxNesting)
    (shortLiterals_chars hs 0)
  rw [h, Power.tree, Atom.tree, String.toList_ofList, n.denoted_chars]
  rfl

theorem parse_negated : parse (String.ofList ('-' :: n.chars)) =
    .ok (.signed .minus (literal (.exact n.value))) := by
  have hscans := (Token.scans_operator (by decide : Token.isOperator '-' = true) 0).append
    (Token.scans_number n.isLexeme_chars 1) fun _ _ => trivial
  have hsign : ∀ t ∈ [operatorToken '-' 0], IsSign t :=
    List.forall_mem_singleton.mpr ⟨rfl, Or.inr rfl⟩
  have h := parse_of_power (p := .plain ⟨[operatorToken '-' 0], hsign⟩ (.number _ rfl)) hscans
    (by decide : 1 ≤ maxNesting) (by decide : 2 ≤ maxNesting)
    ((shortLiterals_cons_iff (by decide : Token.Kind.operator ≠ .number)).mpr (shortLiterals_chars hs 1))
  refine h.trans ?_
  rw [Power.tree, Atom.tree, String.toList_ofList, n.denoted_chars]
  rfl

theorem calculate_numeral (vars : Variables) :
    (parse (String.ofList n.chars) >>= evaluate vars) = .ok (.exact n.value, vars) :=
  bind_of_ok (parse_numeral hs) rfl

theorem calculate_negated (vars : Variables) :
    (parse (String.ofList ('-' :: n.chars)) >>= evaluate vars) = .ok (.exact (-n.value), vars) := by
  have hfits : bitSize (-n.value) ≤ maxResultBits := by
    rw [bitSize_neg, ← n.denoted_chars]
    exact Number.fits_iff.mp (Number.fits_denoted hs)
  have hneg : (Number.exact n.value).neg = .ok (.exact (-n.value)) := if_neg (Nat.not_lt.mpr hfits)
  exact bind_of_ok (parse_negated hs) (bind_of_ok hneg rfl)

end

/-- The fraction of a number with short numerals is calculated to the value of the number, over every
table, which stays as it is. So is a decimal text that has no ellipsis and no more digits than a literal
may have. -/
theorem printed_reenters (v : Number) (vars : Variables) :
    (v.Short → (parse v.fraction >>= evaluate vars) = .ok (.exact v.value, vars)) ∧
    ∀ places ≤ maxPlaces, ∃ text, v.decimal? places = .ok text ∧ ('…' ∉ text.toList →
      (Number.digitsOf text.toList).length ≤ maxLiteralDigits →
        (parse text >>= evaluate vars) = .ok (.exact v.value, vars)) := by
  refine ⟨fun hs => calculate_fraction hs vars, fun places hp => ?_⟩
  obtain ⟨text, htext, hnumeral⟩ := v.exists_numeral (hp.trans (by decide))
  refine ⟨text, htext, fun hwhole hs => ?_⟩
  obtain ⟨n, hn, rfl⟩ := hnumeral hwhole
  rw [String.toList_ofList] at hs
  by_cases hneg : v.value < 0
  · rw [if_pos hneg] at hs ⊢
    have h := calculate_negated hs vars
    rwa [hn, abs_of_neg hneg, neg_neg] at h
  · rw [if_neg hneg] at hs ⊢
    have h := calculate_numeral hs vars
    rwa [hn, abs_of_nonneg (not_lt.mp hneg)] at h

/-- A negative number, as a fraction and in decimal. -/
theorem printed_reenters_of_negative :
    let v : Number := .exact (-3 / 4)
    let vars : Variables := Table.empty
    (v.Short ∧ (parse "-3/4" >>= evaluate vars) = .ok (v, vars)) ∧ 2 ≤ maxPlaces ∧
      '…' ∉ "-0.75".toList ∧ (Number.digitsOf "-0.75".toList).length ≤ maxLiteralDigits ∧
      v.decimal? (2 : Nat) = .ok "-0.75" ∧ (parse "-0.75" >>= evaluate vars) = .ok (v, vars) := by
  intro v vars
  have hs : v.Short := ⟨by decide +kernel, by decide +kernel⟩
  have hplaces : 2 ≤ maxPlaces := by decide
  have hwhole : '…' ∉ "-0.75".toList := by decide +kernel
  have hdigits : (Number.digitsOf "-0.75".toList).length ≤ maxLiteralDigits := by decide +kernel
  have hfraction : v.fraction = "-3/4" := by decide +kernel
  have hdecimal : v.decimal? (2 : Nat) = .ok "-0.75" := by decide +kernel
  obtain ⟨hshort, hall⟩ := printed_reenters v vars
  obtain ⟨text, htext, hvalue⟩ := hall 2 hplaces
  obtain rfl : "-0.75" = text := Except.ok.inj (hdecimal.symm.trans htext)
  refine ⟨⟨hs, ?_⟩, hplaces, hwhole, hdigits, hdecimal, hvalue hwhole hdigits⟩
  rw [← hfraction]
  exact hshort hs

end Expr

end ExactCalc
