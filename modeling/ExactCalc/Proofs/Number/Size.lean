/-
  ExactCalc.Proofs.Number.Size — how large a number can be (`_check_size`):
  `Number.Fits` bounds the bits of numerator and denominator.

  Most operations check it at the end. Two do without the check. A literal fits because
  its digits are counted: as many as are allowed make less than `2 ^ maxResultBits`
  (`fits_denoted`). A root fits because it is a root (`fits_root`): an exact one is no
  larger than its radicand in either part, and one that is cut off after `rootDigits`
  decimals has a degree of two or more, which at least halves the bits that the scale
  doubles.
-/

import ExactCalc.Proofs.Number.Arithmetic
import ExactCalc.Proofs.Number.Literal
import Mathlib.Data.Rat.Lemmas

namespace ExactCalc

/-! ## Bits -/

theorem bitLength_le_iff {n k : Nat} : bitLength n ≤ k ↔ n < 2 ^ k := by
  unfold bitLength
  split
  · rename_i h
    simp [h]
  · rename_i h
    rw [Nat.succ_le_iff, Nat.log2_lt h]

theorem bitSize_le_iff {q : Rat} {k : Nat} :
    bitSize q ≤ k ↔ q.num.natAbs < 2 ^ k ∧ q.den < 2 ^ k := by
  unfold bitSize
  rw [Nat.max_le, bitLength_le_iff, bitLength_le_iff]

theorem bitSize_neg (q : Rat) : bitSize (-q) = bitSize q := by
  unfold bitSize
  rw [Rat.neg_num, Int.natAbs_neg, Rat.neg_den]

theorem bitSize_abs (q : Rat) : bitSize |q| = bitSize q := by
  rcases abs_choice q with h | h
  · rw [h]
  · rw [h, bitSize_neg]

/-- Lowest terms are no larger than the integers that were divided. -/
theorem bitSize_div_le {n m k : Nat} (hn : n < 2 ^ k) (hm : m < 2 ^ k) (hpos : 0 < m) :
    bitSize ((n : Rat) / (m : Rat)) ≤ k := by
  have hdiv : (n : Rat) / (m : Rat) = Rat.divInt n m := (Rat.divInt_eq_div n m).symm
  rw [hdiv, bitSize_le_iff]
  have hnum : (Rat.divInt n m).num.natAbs ∣ n :=
    Int.natAbs_dvd_natAbs.mpr (Rat.num_dvd (n : Int) (by omega))
  have hden : (Rat.divInt n m).den ∣ m := Int.natCast_dvd_natCast.mp (Rat.den_dvd n m)
  refine ⟨?_, Nat.lt_of_le_of_lt (Nat.le_of_dvd hpos hden) hm⟩
  rcases Nat.eq_zero_or_pos n with rfl | hn0
  · simp
  · exact Nat.lt_of_le_of_lt (Nat.le_of_dvd hn0 hnum) hn

namespace Number

/-- Numerator and denominator are within the supported size. -/
structure Fits (a : Number) : Prop where
  num : bitLength a.value.num.natAbs ≤ maxResultBits
  den : bitLength a.value.den ≤ maxResultBits

theorem fits_iff {a : Number} : a.Fits ↔ bitSize a.value ≤ maxResultBits :=
  ⟨fun h => Nat.max_le.mpr ⟨h.num, h.den⟩, fun h => ⟨(Nat.max_le.mp h).1, (Nat.max_le.mp h).2⟩⟩

/-! ## Checked results -/

theorem fits_bounded {q : Rat} {inexact : Bool} {v : Number} (h : bounded q inexact = .ok v) :
    v.Fits := by
  unfold bounded at h
  split at h
  · cases h
  · rename_i hsize
    cases h
    exact fits_iff.mpr (Nat.le_of_not_lt hsize)

theorem fits_div {a b v : Number} (h : a.div b = .ok v) : v.Fits := by
  unfold div at h
  split at h
  · cases h
  · exact fits_bounded h

theorem fits_pow {a e v : Number} (h : a.pow e = .ok v) : v.Fits := by
  unfold pow at h
  dsimp only at h
  split at h
  · split at h
    · cases h
    · exact fits_bounded h
  split at h
  · cases h
  obtain ⟨base, -, h⟩ := bind_eq_ok.mp h
  split at h
  · cases h
  · exact fits_bounded h

/-! ## Literals -/

theorem ofDigitChars_lt {cs : List Char} (h : ∀ c ∈ cs, c.isDigit = true) (n : Nat) :
    Nat.ofDigitChars 10 cs n < 10 ^ cs.length * (n + 1) := by
  induction cs generalizing n with
  | nil =>
    rw [Nat.ofDigitChars_nil, List.length_nil, Nat.pow_zero, Nat.one_mul]
    exact Nat.lt_succ_self n
  | cons c cs ih =>
    have hdigit : c.toNat - '0'.toNat < 10 := Text.digit_lt_ten (h c List.mem_cons_self)
    rw [Nat.ofDigitChars_cons]
    calc Nat.ofDigitChars 10 cs (10 * n + (c.toNat - '0'.toNat))
        < 10 ^ cs.length * (10 * n + (c.toNat - '0'.toNat) + 1) :=
          ih (fun d hd => h d (List.mem_cons_of_mem _ hd)) _
      _ ≤ 10 ^ cs.length * (10 * (n + 1)) := Nat.mul_le_mul_left _ (by omega)
      _ = 10 ^ (c :: cs).length * (n + 1) := by
          rw [List.length_cons, Nat.pow_succ, Nat.mul_assoc]

theorem ten_pow_maxLiteralDigits_lt : 10 ^ maxLiteralDigits < 2 ^ maxResultBits := by
  decide +kernel

/-- The digits of a literal make less than the bits of a result. -/
theorem ten_pow_lt {n : Nat} (h : n ≤ maxLiteralDigits) : 10 ^ n < 2 ^ maxResultBits :=
  Nat.lt_of_le_of_lt (Nat.pow_le_pow_right (by decide) h) ten_pow_maxLiteralDigits_lt

theorem length_decimalsOf_le (cs : List Char) : (decimalsOf cs).length ≤ (digitsOf cs).length :=
  ((List.dropWhile_suffix _).sublist.filter _).length_le

theorem fits_denoted {cs : List Char} (h : (digitsOf cs).length ≤ maxLiteralDigits) :
    (exact (denoted cs)).Fits := by
  rw [fits_iff]
  have hdigits : ∀ c ∈ digitsOf cs, c.isDigit = true := fun _ => isDigit_of_mem_digitsOf
  have hnum := ofDigitChars_lt hdigits 0
  rw [Nat.zero_add, Nat.mul_one] at hnum
  have hdenoted : denoted cs = (Nat.ofDigitChars 10 (digitsOf cs) 0 : Nat) /
      (10 ^ (decimalsOf cs).length : Nat) := Rat.mkRat_eq_div _ _
  show bitSize (denoted cs) ≤ maxResultBits
  rw [hdenoted]
  exact bitSize_div_le (hnum.trans (ten_pow_lt h))
    (ten_pow_lt ((length_decimalsOf_le cs).trans h)) (Nat.pow_pos (by decide))

/-! ## Roots -/

/-- A rational root is no larger than its radicand. -/
theorem bitSize_root_le {q r : Rat} {n k : Nat} (hn : 0 < n) (h : r ^ n = q)
    (hq : bitSize q ≤ k) : bitSize r ≤ k := by
  obtain ⟨hnum, hden⟩ := Root.num_den_of_pow_eq h
  rw [bitSize_le_iff, ← hnum, ← hden] at hq
  rw [bitSize_le_iff]
  exact ⟨Nat.lt_of_le_of_lt (Nat.le_self_pow hn.ne' _) hq.1,
    Nat.lt_of_le_of_lt (Nat.le_self_pow hn.ne' _) hq.2⟩

/-- A root of degree two or more has at most half the bits of its radicand, and those of the
scale. -/
theorem nthRoot_scaled_lt {v n k scale extra : Nat} (hn : 2 ≤ n) (hv : v < 2 ^ k)
    (hscale : scale < 2 ^ extra) (hextra : 2 * extra + 2 ≤ k) (den : Nat) :
    Nat.nthRoot n (v * scale ^ n / den) < 2 ^ k := by
  have hhalf : k ≤ (k / 2 + 1) * n :=
    calc k ≤ (k / 2 + 1) * 2 := by omega
      _ ≤ (k / 2 + 1) * n := Nat.mul_le_mul_left _ hn
  have hv : v < (2 ^ (k / 2 + 1)) ^ n := by
    rw [← Nat.pow_mul]
    exact hv.trans_le (Nat.pow_le_pow_right (by decide) hhalf)
  refine lt_of_pow_lt_pow_left₀ n (Nat.zero_le _) ?_
  calc Nat.nthRoot n (v * scale ^ n / den) ^ n
      ≤ v * scale ^ n / den := Nat.pow_nthRoot_le_iff.mpr (Or.inl (by omega))
    _ ≤ v * scale ^ n := Nat.div_le_self _ _
    _ < (2 ^ (k / 2 + 1)) ^ n * (2 ^ extra) ^ n :=
        Nat.mul_lt_mul_of_lt_of_le hv (Nat.pow_le_pow_left hscale.le n)
          (Nat.pow_pos (Nat.pow_pos (by decide)))
    _ = (2 ^ (k / 2 + 1 + extra)) ^ n := by rw [← Nat.mul_pow, ← Nat.pow_add]
    _ ≤ (2 ^ k) ^ n := Nat.pow_le_pow_left (Nat.pow_le_pow_right (by decide) (by omega)) n

/-- The scale of a root that is cut off has few bits beside those of a result. -/
theorem scale_lt : 10 ^ rootDigits < 2 ^ 107 := by decide

theorem bitSize_magnitudeRoot_le {q m : Rat} {n : Nat} {cut : Bool} (hn : 0 < n) (hq : 0 ≤ q)
    (hsize : bitSize q ≤ maxResultBits) (h : magnitudeRoot q n = .ok (m, cut)) :
    bitSize m ≤ maxResultBits := by
  obtain ⟨r, -, hpow, hexact⟩ | ⟨hnone, hcut⟩ := magnitudeRoot_cases hn hq
  · cases h.symm.trans hexact
    exact bitSize_root_le hn hpow hsize
  · cases h.symm.trans hcut
    -- every rational is its own root of degree one
    have htwo : 2 ≤ n := by
      rcases Nat.eq_or_lt_of_le hn with rfl | h2
      · exact absurd (pow_one q) (hnone q)
      · exact h2
    refine bitSize_div_le ?_ ?_ (Nat.pow_pos (by decide))
    · exact nthRoot_scaled_lt htwo (bitSize_le_iff.mp hsize).1 scale_lt (by decide) _
    · exact scale_lt.trans_le (Nat.pow_le_pow_right (by decide) (by decide))

theorem fits_root {a d v : Number} (ha : a.Fits) (h : a.root d = .ok v) : v.Fits := by
  obtain ⟨cause, -, hcause⟩ | ⟨n, m, cut, hpos, -, -, -, hm, hroot⟩ := root_cases a d
  · rw [hcause] at h
    cases h
  rw [hroot] at h
  cases h
  have hsize : bitSize m ≤ maxResultBits :=
    bitSize_magnitudeRoot_le hpos (abs_nonneg _) (by rw [bitSize_abs]; exact fits_iff.mp ha) hm
  rw [fits_iff]
  dsimp only
  split
  · rw [bitSize_neg]
    exact hsize
  · exact hsize

end Number

end ExactCalc
