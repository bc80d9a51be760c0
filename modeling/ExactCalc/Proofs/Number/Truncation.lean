/-
  ExactCalc.Proofs.Number.Truncation — decimal texts are cut off where they should be
  (`decimal_truncates`; see `ExactCalc.Number.Decimal`).

  Between its sign and its ellipsis a decimal text is a `DecimalNumeral`: nothing
  superfluous at either end. There is one such numeral for a value at most
  (`DecimalNumeral.eq_of_value_eq`), so it is enough to know which value is shown: the
  magnitude in units of the last place, rounded down (`shown`).
-/

import ExactCalc.Proofs.Number.Decimal
import ExactCalc.Proofs.Number.Size
import Mathlib.Algebra.Order.Floor.Semifield
import Mathlib.Data.List.DropRight
import Mathlib.Data.Rat.Floor

namespace ExactCalc

/-! ## Digits and what they stand for -/

namespace Text

theorem digitChar_sub {c : Char} (h : c.isDigit = true) : Nat.digitChar (c.toNat - 48) = c := by
  obtain ⟨hlow, hhigh⟩ := isDigit_iff.mp h
  obtain ⟨k, hk, hc⟩ : ∃ k < 10, c.toNat = k + 48 := ⟨c.toNat - 48, by omega, by omega⟩
  rw [hc, Nat.add_sub_cancel]
  refine Char.toNat_inj.mp ?_
  rw [hc, Nat.toNat_digitChar_of_lt_ten hk, Nat.add_comm]

theorem ofDigitChars_concat (cs : List Char) (c : Char) (n : Nat) :
    Nat.ofDigitChars 10 (cs ++ [c]) n = 10 * Nat.ofDigitChars 10 cs n + (c.toNat - 48) := by
  rw [Nat.ofDigitChars_append, Nat.ofDigitChars_cons, Nat.ofDigitChars_nil]
  rfl

/-- Digits are the last ones of the number they are put onto. -/
theorem lastDigits_ofDigitChars {cs : List Char} (h : ∀ c ∈ cs, c.isDigit = true) (n : Nat) :
    lastDigits 10 cs.length (Nat.ofDigitChars 10 cs n) = cs := by
  induction cs using List.reverseRecOn with
  | nil => rfl
  | append_singleton cs c ih =>
    have hc := h c (List.mem_append_right _ (List.mem_singleton_self c))
    have hlt : c.toNat - 48 < 10 := digit_lt_ten hc
    rw [List.length_append, List.length_singleton, lastDigits, ofDigitChars_concat,
      Nat.mul_add_div (by decide), Nat.div_eq_of_lt hlt, Nat.add_zero, Nat.mul_add_mod,
      Nat.mod_eq_of_lt hlt, digitChar_sub hc, ih fun d hd => h d (List.mem_append_left _ hd)]

theorem ofDigitChars_lastDigits {width n : Nat} (h : n < 10 ^ width) :
    Nat.ofDigitChars 10 (lastDigits 10 width n) 0 = n := by
  rw [← Numeral.foldl_digits]
  exact foldl_lastDigits (by decide) (fun d hd => Nat.toNat_digitChar_sub_48_of_lt_ten hd) width n h

/-- Digits without a superfluous zero in front are the numeral of their value. -/
theorem toDigits_ofDigitChars {cs : List Char} (hne : cs ≠ []) (h : ∀ c ∈ cs, c.isDigit = true)
    (hlead : cs.head? = some '0' → cs = ['0']) : Nat.toDigits 10 (Nat.ofDigitChars 10 cs 0) = cs := by
  induction cs using List.reverseRecOn with
  | nil => exact absurd rfl hne
  | append_singleton cs c ih =>
    have hc := h c (List.mem_append_right _ (List.mem_singleton_self c))
    have hlt : c.toNat - 48 < 10 := digit_lt_ten hc
    rw [ofDigitChars_concat]
    by_cases hcs : cs = []
    · rw [hcs, Nat.ofDigitChars_nil, Nat.mul_zero, Nat.zero_add, Nat.toDigits_of_lt_base hlt,
        digitChar_sub hc]
      rfl
    · have hzero : cs.head? ≠ some '0' := by
        intro hz
        have hlength := congrArg List.length (hlead ((List.head?_append_of_ne_nil cs hcs).trans hz))
        rw [List.length_append, List.length_singleton, List.length_singleton] at hlength
        exact hcs (List.length_eq_zero_iff.mp (by omega))
      have hrest := ih hcs (fun d hd => h d (List.mem_append_left _ hd)) fun hz => absurd hz hzero
      have hpos : 0 < Nat.ofDigitChars 10 cs 0 := by
        refine Nat.pos_of_ne_zero fun h0 => hzero ?_
        rw [h0] at hrest
        rw [← hrest]
        rfl
      rw [← Nat.toDigits_append_toDigits (by decide) hpos hlt, hrest, Nat.toDigits_of_lt_base hlt,
        digitChar_sub hc]

theorem head?_toDigits {n : Nat} (h : (Nat.toDigits 10 n).head? = some '0') : n = 0 := by
  induction n using Nat.strongRecOn with
  | _ n ih =>
    by_cases hlt : n < 10
    · rw [Nat.toDigits_of_lt_base hlt] at h
      exact Nat.digitChar_eq_zero.mp (Option.some.inj h)
    · have hle := Nat.le_of_not_lt hlt
      rw [Nat.toDigits_of_base_le (by decide) hle,
        List.head?_append_of_ne_nil _ Nat.toDigits_ne_nil] at h
      have := ih (n / 10) (Nat.div_lt_self (by omega) (by decide)) h
      omega

end Text

/-! ## Numerals -/

theorem ten_pow_ne_zero (n : Nat) : (10 ^ n : Rat) ≠ 0 := pow_ne_zero n (by decide)

/-- A decimal numeral without a sign, and without superfluous zeros on either side. -/
structure DecimalNumeral where
  whole : List Char
  /-- The digits after the point. Without any there is no point. -/
  decimals : List Char
  whole_ne_nil : whole ≠ []
  digits : ∀ c ∈ whole ++ decimals, c.isDigit = true
  leading : whole.head? = some '0' → whole = ['0']
  trailing : decimals.getLast? ≠ some '0'

namespace DecimalNumeral

variable (n m : DecimalNumeral)

def chars : List Char := n.whole ++ (if n.decimals.isEmpty then [] else '.' :: n.decimals)

/-- All digits read as an integer. -/
def units : Nat := Nat.ofDigitChars 10 (n.whole ++ n.decimals) 0

def value : Rat := n.units / 10 ^ n.decimals.length

theorem isDigit_whole {c : Char} (h : c ∈ n.whole) : c.isDigit = true :=
  n.digits c (List.mem_append_left _ h)

theorem isDigit_decimals {c : Char} (h : c ∈ n.decimals) : c.isDigit = true :=
  n.digits c (List.mem_append_right _ h)

theorem decimals_eq : n.decimals = Text.lastDigits 10 n.decimals.length n.units := by
  unfold units
  rw [Nat.ofDigitChars_append, Text.lastDigits_ofDigitChars fun c hc => n.isDigit_decimals hc]

theorem whole_eq : n.whole = Nat.toDigits 10 (n.units / 10 ^ n.decimals.length) := by
  have hlt := Number.ofDigitChars_lt (fun c hc => n.isDigit_decimals hc) 0
  rw [Nat.zero_add, Nat.mul_one] at hlt
  unfold units
  rw [Nat.ofDigitChars_append, Nat.ofDigitChars_eq_ofDigitChars_zero,
    Nat.mul_add_div (Nat.pow_pos (by decide)), Nat.div_eq_of_lt hlt, Nat.add_zero,
    Text.toDigits_ofDigitChars n.whole_ne_nil (fun c hc => n.isDigit_whole hc) n.leading]

/-- The last decimal is no zero. -/
theorem units_mod_ten (h : n.decimals ≠ []) : n.units % 10 ≠ 0 := by
  intro h0
  obtain ⟨width, hwidth⟩ : ∃ width, n.decimals.length = width + 1 :=
    Nat.exists_eq_add_one_of_ne_zero fun hl => h (List.length_eq_zero_iff.mp hl)
  refine n.trailing ?_
  rw [n.decimals_eq, hwidth, Text.lastDigits, List.getLast?_concat, h0]
  rfl

variable {n m}

/-- Decimals that the value does not need would end in zero. -/
theorem length_decimals_le (h : n.value = m.value) : n.decimals.length ≤ m.decimals.length := by
  refine Nat.le_of_not_lt fun hlt => ?_
  obtain ⟨k, hk⟩ := Nat.exists_eq_add_of_lt hlt
  have hunits : n.units = m.units * 10 ^ k * 10 := by
    unfold value at h
    rw [div_eq_div_iff (ten_pow_ne_zero _) (ten_pow_ne_zero _), hk, pow_succ, pow_add] at h
    have := mul_right_cancel₀ (ten_pow_ne_zero m.decimals.length)
      (h.trans (by ring : _ = ((m.units : Rat) * 10 ^ k * 10) * 10 ^ m.decimals.length))
    exact_mod_cast this
  refine n.units_mod_ten (List.ne_nil_of_length_pos (by omega)) ?_
  rw [hunits, Nat.mul_mod_left]

/-- A value has one numeral at most. -/
theorem eq_of_value_eq (h : n.value = m.value) : n = m := by
  have hlength : n.decimals.length = m.decimals.length :=
    Nat.le_antisymm (length_decimals_le h) (length_decimals_le h.symm)
  have hunits : n.units = m.units := by
    unfold value at h
    rw [hlength, div_left_inj' (ten_pow_ne_zero _)] at h
    exact Nat.cast_injective h
  have hwhole : n.whole = m.whole := by
    rw [n.whole_eq, m.whole_eq, hlength, hunits]
  have hdecimals : n.decimals = m.decimals := by
    rw [n.decimals_eq, m.decimals_eq, hlength, hunits]
  obtain ⟨whole, decimals⟩ := n
  obtain ⟨whole', decimals'⟩ := m
  obtain rfl : whole = whole' := hwhole
  obtain rfl : decimals = decimals' := hdecimals
  rfl

end DecimalNumeral

namespace Number

/-! ## What is shown -/

theorem dropTrailingZeros_eq (cs : List Char) : dropTrailingZeros cs = cs.rdropWhile (· == '0') := rfl

theorem getLast?_dropTrailingZeros (cs : List Char) : (dropTrailingZeros cs).getLast? ≠ some '0' := by
  intro h
  have hne : dropTrailingZeros cs ≠ [] := by
    rintro hnil
    rw [hnil] at h
    cases h
  have hlast := List.rdropWhile_last_not (· == '0') cs hne
  rw [List.getLast?_eq_getLast_of_ne_nil hne] at h
  exact hlast (beq_iff_eq.mpr (Option.some.inj h))

theorem exists_trailingZeros (cs : List Char) :
    ∃ k, cs = dropTrailingZeros cs ++ List.replicate k '0' := by
  induction cs using List.reverseRecOn with
  | nil => exact ⟨0, rfl⟩
  | append_singleton cs c ih =>
    rw [dropTrailingZeros_eq, List.rdropWhile_concat]
    by_cases hc : (c == '0') = true
    · obtain ⟨k, hk⟩ := ih
      refine ⟨k + 1, ?_⟩
      rw [if_pos hc, List.replicate_succ', ← List.append_assoc, ← dropTrailingZeros_eq, ← hk,
        beq_iff_eq.mp hc]
    · rw [if_neg hc]
      exact ⟨0, (List.append_nil _).symm⟩

/-- The places after the point are the last digits, less the zeros at the end. -/
theorem placeDigits_eq {part places : Nat} (hp : places ≠ 0) (h : part < 10 ^ places) :
    placeDigits part places = dropTrailingZeros (Text.lastDigits 10 places part) := by
  unfold placeDigits
  exact congrArg dropTrailingZeros (Text.pad_toDigits (by decide) (Nat.pos_of_ne_zero hp) h)

/-- The places that are shown of a magnitude in units of the last place. -/
def shownPlaces (units places : Nat) : List Char :=
  dropTrailingZeros (Text.lastDigits 10 places units)

theorem isDigit_of_mem_shownPlaces {units places : Nat} {c : Char}
    (h : c ∈ shownPlaces units places) : c.isDigit = true := by
  obtain ⟨k, hk⟩ := exists_trailingZeros (Text.lastDigits 10 places units)
  obtain ⟨d, hd, rfl⟩ := Text.mem_lastDigits (by decide) (hk ▸ List.mem_append_left _ h)
  rw [Nat.isDigit_digitChar]
  exact decide_eq_true hd

/-- The numeral of a magnitude in units of the last place. -/
def shown (units places : Nat) : DecimalNumeral where
  whole := Digits.ofNat (units / 10 ^ places)
  decimals := shownPlaces units places
  whole_ne_nil := Digits.ofNat_ne_nil _
  digits c hc := (List.mem_append.mp hc).elim Digits.isDigit_of_mem_ofNat isDigit_of_mem_shownPlaces
  leading h := by
    rw [Digits.ofNat_eq] at h ⊢
    rw [Text.head?_toDigits h]
    rfl
  trailing := getLast?_dropTrailingZeros _

/-- With the zeros put back that were dropped, there are as many digits as places, and all of them make
the units. -/
theorem units_shown (units places : Nat) : ∃ k, (shown units places).decimals.length + k = places ∧
    (shown units places).units * 10 ^ k = units := by
  obtain ⟨k, hk⟩ := exists_trailingZeros (Text.lastDigits 10 places units)
  refine ⟨k, ?_, ?_⟩
  · have hlength := congrArg List.length hk
    rw [Text.length_lastDigits, List.length_append, List.length_replicate] at hlength
    exact hlength.symm
  · rw [Nat.mul_comm, ← Nat.ofDigitChars_replicate_zero]
    show Nat.ofDigitChars 10 (List.replicate k '0') (Nat.ofDigitChars 10
      (Digits.ofNat (units / 10 ^ places) ++ shownPlaces units places) 0) = units
    rw [← Nat.ofDigitChars_append, List.append_assoc, shownPlaces, ← hk, Nat.ofDigitChars_append,
      Digits.ofDigitChars_ofNat, Nat.ofDigitChars_eq_ofDigitChars_zero, Text.length_lastDigits,
      ← Text.lastDigits_mod, Text.ofDigitChars_lastDigits (Nat.mod_lt _ (Nat.pow_pos (by decide))),
      Nat.div_add_mod]

theorem length_shown_le (units places : Nat) : (shown units places).decimals.length ≤ places := by
  obtain ⟨k, hlength, -⟩ := units_shown units places
  omega

theorem value_shown (units places : Nat) : (shown units places).value = units / 10 ^ places := by
  obtain ⟨k, hlength, hunits⟩ := units_shown units places
  have hscale : (10 ^ places : Rat) = 10 ^ (shown units places).decimals.length * 10 ^ k := by
    rw [← pow_add, hlength]
  have hcast : (units : Rat) = (shown units places).units * 10 ^ k := by
    rw [← Nat.cast_ofNat, ← Nat.cast_pow, ← Nat.cast_mul, hunits]
  rw [hscale, hcast, mul_div_mul_right _ _ (ten_pow_ne_zero k)]
  rfl

variable (a : Number) (places : Nat)

/-- A decimal text is a sign, the numeral of what is shown, and an ellipsis. -/
theorem decimalChars_eq : a.decimalChars places =
    (if a.value < 0 then ['-'] else []) ++ (shown (a.scaled places) places).chars ++
      (if a.inexact || a.isCut places then ['…'] else []) := by
  have hplaces : (if places = 0 then [] else placeDigits (a.scaled places % Nat.pow 10 places) places) =
      shownPlaces (a.scaled places) places := by
    by_cases hp : places = 0
    · rw [if_pos hp, hp]
      rfl
    · rw [if_neg hp]
      refine (placeDigits_eq hp (Nat.mod_lt _ (Nat.pow_pos (by decide)))).trans ?_
      exact congrArg dropTrailingZeros (Text.lastDigits_mod places _)
  unfold decimalChars
  dsimp only
  rw [hplaces, List.append_assoc _ (Digits.ofNat _)]
  rfl

/-- A magnitude in units, rounded down. -/
theorem natAbs_mul_div_den (q : Rat) (scale : Nat) : q.num.natAbs * scale / q.den = ⌊|q| * scale⌋₊ := by
  have habs : |q| = (q.num.natAbs : Rat) / q.den := by
    rw [Rat.abs_def, Rat.divInt_eq_div]
    rfl
  rw [habs, div_mul_eq_mul_div, ← Nat.cast_mul, Nat.floor_div_eq_div]

/-- What is shown is the magnitude, rounded down. -/
theorem scaled_eq_floor : a.scaled places = ⌊|a.value| * 10 ^ places⌋₊ := by
  have h := natAbs_mul_div_den a.value (10 ^ places)
  rw [Nat.cast_pow, Nat.cast_ofNat] at h
  exact h

/-- Something is cut off unless the value is a number of units of the last place. -/
theorem isCut_iff : a.isCut places = true ↔ (a.value * 10 ^ places).den ≠ 1 := by
  have hnum : a.value * 10 ^ places =
      ((a.value.num * (10 ^ places : Nat) : Int) : Rat) / (a.value.den : Int) := by
    rw [Int.cast_mul, Int.cast_natCast, Int.cast_natCast, Nat.cast_pow, Nat.cast_ofNat,
      mul_div_right_comm, Rat.num_div_den]
  have hden : (a.value.den : Int) ≠ 0 := Int.natCast_ne_zero.mpr a.value.den_ne_zero
  rw [hnum, Ne, Rat.den_div_intCast_eq_one_iff _ _ hden, Int.natCast_dvd, Int.natAbs_mul,
    Int.natAbs_natCast]
  unfold isCut scaled
  rw [bne_iff_ne, Ne, not_iff_not]
  exact ⟨fun h => Dvd.intro_left _ h, fun h => Nat.div_mul_cancel h⟩

/-- The text around a numeral: a minus sign if the number is negative, and an ellipsis if it is flagged or
is no number of units of the last place. -/
def textAround (n : DecimalNumeral) : String :=
  String.ofList ((if a.value < 0 then ['-'] else []) ++ n.chars ++
    (if a.inexact ∨ (a.value * 10 ^ places).den ≠ 1 then ['…'] else []))

/-- The decimal text shows the magnitude in units of the last place. -/
theorem decimal?_eq_shown {places : Nat} (h : places ≤ maxPrintedDigits) :
    a.decimal? places = .ok (a.textAround places (shown (a.scaled places) places)) := by
  have hellipsis : (a.inexact || a.isCut places) = true ↔
      a.inexact ∨ (a.value * 10 ^ places).den ≠ 1 := by
    rw [Bool.or_eq_true, isCut_iff]
  rw [a.decimal?_of_le h]
  unfold decimal textAround
  rw [decimalChars_eq, if_congr hellipsis rfl rfl]

/-- With up to as many places as are written in one piece, the decimal text of a number is that around the
numeral of its magnitude rounded down to these places. There is only one such numeral, without superfluous
zeros on either side. -/
theorem decimal_truncates (a : Number) {places : Nat} (h : places ≤ maxPrintedDigits) :
    ∃ n : DecimalNumeral, a.decimal? places = .ok (a.textAround places n) ∧
      n.decimals.length ≤ places ∧ n.value = ⌊|a.value| * 10 ^ places⌋₊ / 10 ^ places ∧
      ∀ m : DecimalNumeral, m.value = n.value → m = n := by
  refine ⟨shown (a.scaled places) places, a.decimal?_eq_shown h, length_shown_le _ _, ?_,
    fun m hm => DecimalNumeral.eq_of_value_eq hm⟩
  rw [value_shown, scaled_eq_floor]

/-- Of four decimals three are shown; the last of them is a zero, and is not. -/
theorem decimal_truncates_of_negative :
    let a : Number := .exact (-3769 / 625)
    3 ≤ maxPrintedDigits ∧ ∃ n : DecimalNumeral, a.decimal? (3 : Nat) = .ok "-6.03…" ∧
      n.chars = ['6', '.', '0', '3'] ∧ n.value = 6030 / 10 ^ 3 := by
  intro a
  have hplaces : 3 ≤ maxPrintedDigits := by decide
  obtain ⟨n, htext, -, hvalue, -⟩ := decimal_truncates a hplaces
  have hshown : a.decimal? (3 : Nat) = .ok "-6.03…" := by decide +kernel
  have hfloor : ⌊|a.value| * 10 ^ 3⌋₊ = 6030 := by decide +kernel
  have hneg : a.value < 0 := by decide +kernel
  have hcut : a.inexact ∨ (a.value * 10 ^ 3).den ≠ 1 := Or.inr (by decide +kernel)
  refine ⟨hplaces, n, hshown, ?_, ?_⟩
  · rw [hshown, textAround, if_pos hneg, if_pos hcut] at htext
    have hchars : ['-'] ++ ['6', '.', '0', '3'] ++ ['…'] = ['-'] ++ n.chars ++ ['…'] :=
      String.ofList_inj.mp (Except.ok.inj htext)
    exact (List.append_cancel_left (List.append_cancel_right hchars)).symm
  · rw [hvalue, hfloor]
    rfl

end Number

end ExactCalc
