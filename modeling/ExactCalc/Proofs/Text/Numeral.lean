/-
  ExactCalc.Proofs.Text.Numeral — numerals that are nothing but digits: what the readers
  of numerals make of them (see `ExactCalc.Text.Numeral`).

  - `digits?_of_values`: every character has a value, so the numeral has the value that
    its places give it.
  - `decimal?_of_digits`: a decimal numeral without sign, spaces and underscores.
  - `hex?_of_toDigits`: a hexadecimal numeral as it is written, with a minus or no sign.
-/

import ExactCalc.Proofs.Text.Places
import ExactCalc.Text.Numeral

namespace ExactCalc.Text

/-! ## ASCII digits -/

theorem isDigit_iff {c : Char} : c.isDigit = true ↔ 48 ≤ c.toNat ∧ c.toNat ≤ 57 := by
  simp only [Char.isDigit, Bool.and_eq_true, decide_eq_true_eq, ge_iff_le, UInt32.le_iff_toNat_le]
  exact Iff.rfl

theorem digit_lt_ten {c : Char} (h : c.isDigit = true) : c.toNat - 48 < 10 := by
  have := isDigit_iff.mp h
  omega

theorem isNumeralBlank_of_isDigit {c : Char} (h : c.isDigit = true) : isNumeralBlank c = false := by
  rw [isDigit_iff] at h
  simp only [isNumeralBlank, Bool.or_eq_false_iff, Bool.and_eq_false_iff, decide_eq_false_iff_not,
    beq_eq_false_iff_ne]
  omega

theorem trimBy_eq_self {p : Char → Bool} {cs : List Char} (h : ∀ c ∈ cs, p c = false) :
    trimBy p cs = cs := by
  have drop : ∀ ds : List Char, (∀ c ∈ ds, p c = false) → ds.dropWhile p = ds := by
    intro ds hds
    cases ds with
    | nil => rfl
    | cons c rest => simp [hds c List.mem_cons_self]
  unfold trimBy
  rw [drop cs h, drop cs.reverse (fun c hc => h c (List.mem_reverse.mp hc)), List.reverse_reverse]

/-- What is blank at the end is dropped. -/
theorem trimBy_concat {p : Char → Bool} {b : Char} (h : p b = true) (cs : List Char) :
    trimBy p (cs ++ [b]) = trimBy p cs := by
  unfold trimBy
  rw [List.dropWhile_append]
  split
  · rename_i hempty
    rw [List.isEmpty_iff.mp hempty, List.dropWhile_cons, if_pos h, List.dropWhile_nil]
  · rw [List.reverse_append, List.reverse_singleton, List.singleton_append, List.dropWhile_cons,
      if_pos h]

namespace Numeral

theorem digit?_underscore (base : Nat) : digit? base '_' = none := by
  have : digitValue? '_' = none := by decide
  simp [digit?, this]

theorem digit?_of_isDigit {c : Char} (h : c.isDigit = true) {base : Nat} (hb : 10 ≤ base) :
    digit? base c = some (c.toNat - 48) := by
  have hlt : c.toNat - 48 < base := Nat.lt_of_lt_of_le (digit_lt_ten h) hb
  simp [digit?, digitValue?_of_isDigit h, hlt]

/-- A numeral whose characters all have a value has the value of its places. -/
theorem digits?_of_values {base : Nat} {f : Char → Nat} :
    ∀ (cs : List Char) (count value : Nat), (∀ c ∈ cs, digit? base c = some (f c)) →
      digits? base count value cs =
        some (count + cs.length, cs.foldl (fun n c => n * base + f c) value) := by
  intro cs
  induction cs with
  | nil => intro count value _; rfl
  | cons c rest ih =>
    intro count value h
    have hc := h c List.mem_cons_self
    have hne : c ≠ '_' := by
      rintro rfl
      rw [digit?_underscore] at hc
      cases hc
    have step : digits? base count value (c :: rest) =
        digits? base (count + 1) (value * base + f c) rest := by
      rw [digits?.eq_3 _ _ _ _ _ (by rintro _ _ rfl _; exact hne rfl)]
      simp [hc]
    rw [step, ih _ _ (fun d hd => h d (List.mem_cons_of_mem _ hd)), List.length_cons,
      List.foldl_cons, Nat.add_assoc, Nat.add_comm 1]

theorem natural?_of_values {base : Nat} {f : Char → Nat} {cs : List Char} (hne : cs ≠ [])
    (h : ∀ c ∈ cs, digit? base c = some (f c)) :
    natural? base cs = some (cs.length, cs.foldl (fun n c => n * base + f c) 0) := by
  have hl : cs.length ≠ 0 := fun e => hne (List.length_eq_zero_iff.mp e)
  simp [natural?, digits?_of_values cs 0 0 h, hl]

theorem sign_of_unsigned {cs : List Char} (h : ∀ c ∈ cs, c ≠ '-' ∧ c ≠ '+') :
    sign cs = (false, cs) := by
  cases cs with
  | nil => rfl
  | cons c rest =>
    obtain ⟨hm, hp⟩ := h c List.mem_cons_self
    exact sign.eq_3 _ (fun _ e => hm (List.cons.inj e).1) (fun _ e => hp (List.cons.inj e).1)

theorem ne_sign_of_isDigit {c : Char} (h : c.isDigit = true) : c ≠ '-' ∧ c ≠ '+' := by
  constructor
  · rintro rfl; revert h; decide
  · rintro rfl; revert h; decide

/-- The value of decimal digits is the one that their places give them. -/
theorem foldl_digits (cs : List Char) (value : Nat) :
    cs.foldl (fun n c => n * 10 + (c.toNat - 48)) value = Nat.ofDigitChars 10 cs value := by
  rw [Nat.ofDigitChars_eq_foldl]
  simp only [Nat.mul_comm 10]
  rfl

theorem decimal?_of_digits {cs : List Char} (hne : cs ≠ []) (hle : cs.length ≤ maxDigits)
    (h : ∀ c ∈ cs, c.isDigit = true) : decimal? cs = some (Nat.ofDigitChars 10 cs 0 : Nat) := by
  have hv : ∀ c ∈ cs, digit? 10 c = some (c.toNat - 48) :=
    fun c hc => digit?_of_isDigit (h c hc) (Nat.le_refl 10)
  unfold decimal?
  rw [trimBy_eq_self (fun c hc => isNumeralBlank_of_isDigit (h c hc)),
    sign_of_unsigned (fun c hc => ne_sign_of_isDigit (h c hc))]
  simp only [natural?_of_values hne hv, hle, if_true, foldl_digits]
  rfl

/-- A line break at the end of a numeral makes no difference. -/
theorem decimal?_lineBreak (cs : List Char) : decimal? (cs ++ ['\n']) = decimal? cs := by
  unfold decimal?
  rw [trimBy_concat (by decide)]

/-! ## Hexadecimal digits -/

/-- The value of a hexadecimal digit as it is written. -/
def hexValue (c : Char) : Nat := if c.isDigit then c.toNat - 48 else c.toNat - 87

theorem hexValue_digitChar : ∀ d < 16, hexValue (Nat.digitChar d) = d := by decide

theorem digit?_of_digitChar : ∀ d < 16, digit? 16 (Nat.digitChar d) = some d := by decide

theorem plain_of_digitChar : ∀ d < 16, isNumeralBlank (Nat.digitChar d) = false ∧
    Nat.digitChar d ≠ '-' ∧ Nat.digitChar d ≠ '+' ∧ Nat.digitChar d ≠ 'x' ∧
    Nat.digitChar d ≠ 'X' := by decide

theorem plain_of_mem_toDigits {n : Nat} {c : Char} (h : c ∈ Nat.toDigits 16 n) :
    isNumeralBlank c = false ∧ c ≠ '-' ∧ c ≠ '+' ∧ c ≠ 'x' ∧ c ≠ 'X' := by
  obtain ⟨d, hd, rfl⟩ := mem_toDigits (by decide) h
  exact plain_of_digitChar d hd

/-- What has no `x` has no mark. -/
theorem dropHexMark_eq_self {cs : List Char} (h : ∀ c ∈ cs, c ≠ 'x' ∧ c ≠ 'X') :
    dropHexMark cs = cs := by
  match cs with
  | [] => rfl
  | [_] => rfl
  | zero :: x :: rest =>
    obtain ⟨hx, hX⟩ := h x (List.mem_cons_of_mem _ List.mem_cons_self)
    unfold dropHexMark
    simp [hx, hX]

theorem natural?_toDigits (n : Nat) :
    natural? 16 (Nat.toDigits 16 n) = some ((Nat.toDigits 16 n).length, n) := by
  have hv : ∀ c ∈ Nat.toDigits 16 n, digit? 16 c = some (hexValue c) := by
    intro c hc
    obtain ⟨d, hd, rfl⟩ := mem_toDigits (by decide) hc
    rw [digit?_of_digitChar d hd, hexValue_digitChar d hd]
  rw [natural?_of_values Nat.toDigits_ne_nil hv, foldl_toDigits (by decide) hexValue_digitChar]

theorem hex?_of_toDigits (negative : Bool) (n : Nat) :
    hex? ((if negative then ['-'] else []) ++ Nat.toDigits 16 n) = some (signed negative n) := by
  have hplain : ∀ c ∈ Nat.toDigits 16 n, _ := fun c hc => plain_of_mem_toDigits hc
  have hblank : ∀ c ∈ (if negative then ['-'] else []) ++ Nat.toDigits 16 n,
      isNumeralBlank c = false := by
    intro c hc
    rcases List.mem_append.mp hc with hc | hc
    · split at hc
      · rw [List.mem_singleton.mp hc]
        decide
      · cases hc
    · exact (hplain c hc).1
  have hsign : sign ((if negative then ['-'] else []) ++ Nat.toDigits 16 n) =
      (negative, Nat.toDigits 16 n) := by
    cases negative
    · exact sign_of_unsigned fun c hc => ⟨(hplain c hc).2.1, (hplain c hc).2.2.1⟩
    · rfl
  unfold hex?
  rw [trimBy_eq_self hblank, hsign]
  dsimp only
  rw [dropHexMark_eq_self fun c hc => (hplain c hc).2.2.2, natural?_toDigits]
  rfl

end Numeral

end ExactCalc.Text
