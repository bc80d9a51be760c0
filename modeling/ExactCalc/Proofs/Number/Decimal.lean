/-
  ExactCalc.Proofs.Number.Decimal — the texts of numbers, in decimal and as fractions
  (see `ExactCalc.Number.Decimal`).

  Within the range of the settings every number can be shown in decimal, as the places
  after the point are few enough to be written in one piece. Beside digits there are few
  characters in either text.
-/

import ExactCalc.Number.Decimal
import ExactCalc.Proofs.Number.Digits
import ExactCalc.Settings

namespace ExactCalc.Number

/-- Up to as many places are shown as are written in one piece. -/
theorem decimal?_of_le (a : Number) {places : Nat} (h : places ≤ maxPrintedDigits) :
    a.decimal? places = .ok (a.decimal places) := by
  have hpow : ∀ m n, m ≤ n → Nat.pow 10 m ≤ Nat.pow 10 n :=
    fun m n => Nat.pow_le_pow_right (by decide)
  unfold decimal?
  rw [if_neg (by omega), Int.toNat_natCast, if_neg]
  apply Nat.not_le.mpr
  calc a.scaled places % Nat.pow 10 places
    _ < Nat.pow 10 places := Nat.mod_lt _ (Nat.pow_pos (by decide))
    _ ≤ Nat.pow 10 maxPrintedDigits := hpow _ _ h

theorem decimal?_eq_ok (a : Number) {places : Nat} (h : places ≤ maxPlaces) :
    a.decimal? places = .ok (a.decimal places) :=
  a.decimal?_of_le (Nat.le_trans h (by decide))

/-! ## Characters -/

theorem isDigit_of_mem_placeDigits {part places : Nat} {c : Char} (h : c ∈ placeDigits part places) :
    c.isDigit = true := by
  have hmem : c ∈ List.replicate (places - (Nat.toDigits 10 part).length) '0' ++ Nat.toDigits 10 part :=
    List.mem_reverse.mp (List.dropWhile_subset _ (List.mem_reverse.mp h))
  rcases List.mem_append.mp hmem with hzero | hdigit
  · rw [List.eq_of_mem_replicate hzero]
    rfl
  · exact Nat.isDigit_of_mem_toDigits (b := 10) (by decide) (by decide) hdigit

theorem mem_decimalChars {a : Number} {places : Nat} {c : Char} (h : c ∈ a.decimalChars places) :
    c.isDigit = true ∨ c = '-' ∨ c = '.' ∨ c = '…' := by
  unfold decimalChars at h
  simp only [List.mem_append] at h
  rcases h with ((h | h) | h) | h
  · split at h
    · exact Or.inr (Or.inl (List.mem_singleton.mp h))
    · cases h
  · exact Or.inl (Digits.isDigit_of_mem_ofNat h)
  · by_cases hp : places = 0
    · rw [if_pos hp] at h
      cases h
    · rw [if_neg hp] at h
      split at h
      · cases h
      · rcases List.mem_cons.mp h with hpoint | h
        · exact Or.inr (Or.inr (Or.inl hpoint))
        · exact Or.inl (isDigit_of_mem_placeDigits h)
  · split at h
    · exact Or.inr (Or.inr (Or.inr (List.mem_singleton.mp h)))
    · cases h

theorem mem_fractionChars {a : Number} {c : Char} (h : c ∈ a.fractionChars) :
    c.isDigit = true ∨ c = '-' ∨ c = '/' := by
  have hint : ∀ i, c ∈ Digits.ofInt i → c.isDigit = true ∨ c = '-' ∨ c = '/' := by
    intro i hi
    unfold Digits.ofInt at hi
    split at hi
    · rcases List.mem_cons.mp hi with hsign | hi
      · exact Or.inr (Or.inl hsign)
      · exact Or.inl (Digits.isDigit_of_mem_ofNat hi)
    · exact Or.inl (Digits.isDigit_of_mem_ofNat hi)
  unfold fractionChars at h
  split at h
  · exact hint _ h
  · rcases List.mem_append.mp h with h | h
    · exact hint _ h
    · rcases List.mem_cons.mp h with hbar | h
      · exact Or.inr (Or.inr hbar)
      · exact Or.inl (Digits.isDigit_of_mem_ofNat h)

end ExactCalc.Number
