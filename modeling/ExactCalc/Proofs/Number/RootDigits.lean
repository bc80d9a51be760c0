/-
  ExactCalc.Proofs.Number.RootDigits — roots are exact where they can be, and cut off
  correctly otherwise (`root_truncates`; see `ExactCalc.Number.Power`).

  A root that is cut off is below the true one by less than a unit of its last decimal
  (`truncated_bounds`). Shown with no more places than that, it has the digits of the
  true root: cutting off twice is cutting off once (`floor_mul_pow_eq`).
-/

import ExactCalc.Proofs.Number.Truncation
import Mathlib.Analysis.SpecialFunctions.Pow.Real

namespace ExactCalc

/-! ## Magnitudes in units of the last place -/

section

variable {K : Type} [Field K] [LinearOrder K] [IsStrictOrderedRing K] [FloorSemiring K]

/-- What is rounded down to some decimals, may be rounded down to more of them before. -/
theorem floor_mul_pow_eq (x : K) {places digits : Nat} (h : places ≤ digits) :
    ⌊x * 10 ^ places⌋₊ = ⌊x * 10 ^ digits⌋₊ / 10 ^ (digits - places) := by
  have hscale : x * 10 ^ places = x * 10 ^ digits / (10 ^ (digits - places) : Nat) := by
    obtain ⟨k, rfl⟩ := Nat.exists_eq_add_of_le h
    rw [Nat.add_sub_cancel_left, pow_add, Nat.cast_pow, Nat.cast_ofNat, ← mul_assoc,
      mul_div_cancel_right₀ _ (pow_ne_zero k (by norm_num))]
  rw [hscale, Nat.floor_div_natCast]

end

theorem floor_cast (q : Rat) : ⌊(q : ℝ)⌋₊ = ⌊q⌋₊ := by
  rw [← Int.floor_toNat, ← Int.floor_toNat, Rat.floor_cast]

namespace Root

/-- The root of the scaled radicand, rounded down, is the root of the radicand in units of the last
place, rounded down. -/
theorem truncated_bounds {q : Rat} {n scale : Nat} (hn : n ≠ 0) (hq : 0 ≤ q) (hs : 0 < scale) :
    ((Nat.nthRoot n (q.num.natAbs * scale ^ n / q.den) : Rat) / scale) ^ n ≤ q ∧
      q < ((Nat.nthRoot n (q.num.natAbs * scale ^ n / q.den) + 1 : Rat) / scale) ^ n := by
  set k := Nat.nthRoot n (q.num.natAbs * scale ^ n / q.den)
  have hpos : (0 : Rat) < (scale : Rat) ^ n := pow_pos (Nat.cast_pos.mpr hs) n
  have hfloor : q.num.natAbs * scale ^ n / q.den = ⌊q * (scale : Rat) ^ n⌋₊ := by
    have h := Number.natAbs_mul_div_den q (scale ^ n)
    rwa [abs_of_nonneg hq, Nat.cast_pow] at h
  have hlow : k ^ n ≤ ⌊q * (scale : Rat) ^ n⌋₊ := by
    rw [← hfloor]
    exact Nat.pow_nthRoot_le_iff.mpr (Or.inl hn)
  have hhigh : ⌊q * (scale : Rat) ^ n⌋₊ < (k + 1) ^ n := by
    rw [← hfloor]
    exact Nat.lt_pow_nthRoot_add_one hn _
  rw [div_pow, div_pow, div_le_iff₀ hpos, lt_div_iff₀ hpos]
  constructor
  · have := (Nat.le_floor_iff (mul_nonneg hq hpos.le)).mp hlow
    exact_mod_cast this
  · have := (Nat.floor_lt (mul_nonneg hq hpos.le)).mp hhigh
    exact_mod_cast this

/-- Such bounds tell the root apart from all others, in units of the last place. -/
theorem floor_of_bounds {y : ℝ} {q : Rat} {n k scale : Nat} (hn : n ≠ 0) (hs : 0 < scale) (hy : 0 ≤ y)
    (hpow : y ^ n = q) (hlow : ((k : Rat) / scale) ^ n ≤ q) (hhigh : q < ((k + 1 : Rat) / scale) ^ n) :
    ⌊y * scale⌋₊ = k := by
  have hpos : (0 : ℝ) < scale := Nat.cast_pos.mpr hs
  rw [Nat.floor_eq_iff (mul_nonneg hy hpos.le), ← div_le_iff₀ hpos, ← lt_div_iff₀ hpos]
  constructor
  · rw [← pow_le_pow_iff_left₀ (by positivity) hy hn, hpow]
    have h := (Rat.cast_le (K := ℝ)).mpr hlow
    push_cast at h
    exact h
  · rw [← pow_lt_pow_iff_left₀ hy (by positivity) hn, hpow]
    have h := (Rat.cast_lt (K := ℝ)).mpr hhigh
    push_cast at h
    exact h

/-- A root that is rational is that root. -/
theorem floor_of_pow {y : ℝ} {q r : Rat} {n : Nat} (hn : n ≠ 0) (hy : 0 ≤ y) (hr : 0 ≤ r)
    (hpow : y ^ n = q) (h : r ^ n = q) (digits : Nat) : ⌊y * 10 ^ digits⌋₊ = ⌊r * 10 ^ digits⌋₊ := by
  have hyr : y = r := by
    refine (pow_left_inj₀ hy (Rat.cast_nonneg.mpr hr) hn).mp ?_
    rw [hpow, ← h, Rat.cast_pow]
  rw [hyr, ← floor_cast, Rat.cast_mul, Rat.cast_pow, Rat.cast_ofNat]

end Root

/-- A real number has a root of every positive degree, and if it is negative, of every odd one. -/
theorem exists_isRoot {n : Nat} (hn : 0 < n) {x : ℝ} (hx : x < 0 → Odd n) :
    ∃ y : ℝ, IsRoot n x y ∧ |y| ^ n = |x| := by
  have hpow : (|x| ^ ((n : ℝ)⁻¹)) ^ n = |x| := Real.rpow_inv_natCast_pow (abs_nonneg x) hn.ne'
  have hroot := isRoot_of_abs hn (Real.rpow_nonneg (abs_nonneg x) _) hpow hx
  exact ⟨_, hroot, by rw [← abs_pow, hroot.pow]⟩

namespace Number

/-! ## Roots of numbers -/

/-- The sign that is put back makes no difference to the magnitude. -/
theorem abs_signed (q r : Rat) : |if q < 0 then -r else r| = |r| := by
  split
  · exact abs_neg r
  · rfl

/-- A root whose degree is within its bounds is that of the magnitude, with the sign put back. -/
theorem root_of_magnitude {a d : Number} {n : Nat} {m : Rat} {cut : Bool} (hd : d.value = n)
    (hpos : 0 < n) (hmax : n ≤ maxRootDegree) (hreal : a.value < 0 → Odd n)
    (hm : magnitudeRoot |a.value| n = .ok (m, cut)) :
    a.root d = .ok ⟨if a.value < 0 then -m else m, cut || a.inexact || d.inexact⟩ := by
  have hint : ¬ (!d.isInteger || decide (d.value < 1)) = true := by
    have hone : ¬ (n : Rat) < 1 := not_lt.mpr (Nat.one_le_cast.mpr hpos)
    simp [isInteger, hd, hone]
  have hbound : ¬ (n : Int) > maxRootDegree := by omega
  have heven : ¬ (a.value < 0 ∧ (n : Int) % 2 = 0) := by
    rintro ⟨hneg, h⟩
    have := Nat.odd_iff.mp (hreal hneg)
    omega
  unfold root
  rw [if_neg hint, hd, Rat.num_natCast, if_neg hbound, if_neg heven, abs_eq, hm]
  rfl

/-- With at most as many places as a root keeps, what agrees with a real number in units of the last
decimal is shown with the digits of that number. -/
theorem exists_digits {v : Number} {y : ℝ}
    (h : ⌊|v.value| * 10 ^ rootDigits⌋₊ = ⌊|y| * 10 ^ rootDigits⌋₊) {places : Nat}
    (hp : places ≤ rootDigits) : ∃ m : DecimalNumeral, v.decimal? places = .ok (v.textAround places m) ∧
      m.decimals.length ≤ places ∧ m.value = ⌊|y| * 10 ^ places⌋₊ / 10 ^ places := by
  refine ⟨shown (v.scaled places) places, v.decimal?_eq_shown (hp.trans (by decide)),
    length_shown_le _ _, ?_⟩
  rw [value_shown, scaled_eq_floor, floor_mul_pow_eq _ hp, floor_mul_pow_eq _ hp, h]

/-- A root of a degree within its bounds, even ones of negative numbers apart, is the rational root of the
magnitude with the sign put back, and flagged only if an operand is, or there is none; then it is flagged,
and less than a unit of its last decimal below the true root. Either way it is shown with the digits of
the true root, cut off after any number of places that a root keeps. -/
theorem root_truncates {a d : Number} {n : Nat} (hd : d.value = n) (hpos : 1 ≤ n)
    (hmax : n ≤ maxRootDegree) (hreal : 0 ≤ a.value ∨ Odd n) :
    ∃ v, a.root d = .ok v ∧
      ((∃ r : Rat, 0 ≤ r ∧ r ^ n = |a.value| ∧
          v = ⟨if a.value < 0 then -r else r, a.inexact || d.inexact⟩) ∨
        (∀ r : Rat, r ^ n ≠ |a.value|) ∧ ∃ (k : Nat) (r : Rat), r = k / 10 ^ rootDigits ∧
          v = ⟨if a.value < 0 then -r else r, true⟩ ∧
          r ^ n < |a.value| ∧ |a.value| < (r + 1 / 10 ^ rootDigits) ^ n) ∧
      ∃ y : ℝ, IsRoot n (a.value : ℝ) y ∧ ∀ places ≤ rootDigits, ∃ m : DecimalNumeral,
        v.decimal? places = .ok (v.textAround places m) ∧ m.decimals.length ≤ places ∧
        m.value = ⌊|y| * 10 ^ places⌋₊ / 10 ^ places := by
  have hodd : a.value < 0 → Odd n := fun hneg => hreal.resolve_left (not_le.mpr hneg)
  have hne : n ≠ 0 := Nat.one_le_iff_ne_zero.mp hpos
  obtain ⟨y, hy, hpow⟩ := exists_isRoot hpos fun hneg => hodd (Rat.cast_lt_zero.mp hneg)
  rw [← Rat.cast_abs] at hpow
  obtain ⟨r, hr, hrpow, hm⟩ | ⟨hnone, hm⟩ := magnitudeRoot_cases hpos (abs_nonneg a.value)
  · refine ⟨_, root_of_magnitude hd hpos hmax hodd hm, Or.inl ⟨r, hr, hrpow, by rw [Bool.false_or]⟩,
      y, hy, fun places hp => exists_digits ?_ hp⟩
    rw [abs_signed, abs_of_nonneg hr, Root.floor_of_pow hne (abs_nonneg y) hr hpow hrpow]
  · obtain ⟨hlow, hhigh⟩ := Root.truncated_bounds hne (abs_nonneg a.value)
      (Nat.pow_pos (n := rootDigits) (by decide : 0 < 10))
    have hdigits := Root.floor_of_bounds hne (Nat.pow_pos (by decide)) (abs_nonneg y) hpow hlow hhigh
    set k := Nat.nthRoot n (|a.value|.num.natAbs * (10 ^ rootDigits) ^ n / |a.value|.den)
    rw [Nat.cast_pow, Nat.cast_ofNat] at hlow hhigh hdigits
    rw [add_div] at hhigh
    refine ⟨_, root_of_magnitude hd hpos hmax hodd hm, Or.inr ⟨hnone, k, _, rfl, ?_,
      lt_of_le_of_ne hlow (hnone _), hhigh⟩, y, hy, fun places hp => exists_digits ?_ hp⟩
    · rw [Nat.cast_pow, Nat.cast_ofNat]
      rfl
    · rw [abs_signed, Nat.cast_pow, Nat.cast_ofNat, abs_of_nonneg (by positivity),
        div_mul_cancel₀ _ (by positivity), Nat.floor_natCast, hdigits]

/-- The cube root of a negative integer, with four of its decimals. -/
theorem root_truncates_of_negative :
    let a : Number := .exact (-2)
    let d : Number := .exact 3
    (d.value = (3 : Nat) ∧ 1 ≤ 3 ∧ 3 ≤ maxRootDegree ∧ (0 ≤ a.value ∨ Odd 3)) ∧
      ∃ v, a.root d = .ok v ∧ v.inexact = true ∧ ∃ m : DecimalNumeral,
        v.decimal? (4 : Nat) = .ok (v.textAround 4 m) ∧ m.value = 12599 / 10 ^ 4 := by
  intro a d
  have hd : d.value = (3 : Nat) := rfl
  have hmax : 3 ≤ maxRootDegree := by decide
  have hreal : 0 ≤ a.value ∨ Odd 3 := Or.inr (by decide)
  obtain ⟨v, hroot, hcases, y, hy, hdigits⟩ := root_truncates hd (by decide) hmax hreal
  obtain ⟨m, htext, -, hvalue⟩ := hdigits 4 (by decide)
  have hpow : |y| ^ 3 = ((2 : Rat) : ℝ) := by
    rw [← abs_pow, hy.pow]
    norm_num [a, exact]
  have hfloor : ⌊|y| * (10 ^ 4 : Nat)⌋₊ = 12599 :=
    Root.floor_of_bounds (by decide) (by decide) (abs_nonneg y) hpow (by norm_num) (by norm_num)
  rw [Nat.cast_pow, Nat.cast_ofNat] at hfloor
  rw [hfloor] at hvalue
  refine ⟨⟨hd, by decide, hmax, hreal⟩, v, hroot, ?_, m, htext, hvalue⟩
  obtain ⟨r, -, hrpow, -⟩ | ⟨-, k, r, -, rfl, -, -⟩ := hcases
  · obtain ⟨hnum, -⟩ := Root.num_den_of_pow_eq hrpow
    have hlt : r.num.natAbs < 2 := by
      refine lt_of_pow_lt_pow_left₀ 3 (Nat.zero_le _) ?_
      rw [hnum]
      decide +kernel
    interval_cases r.num.natAbs <;> exact absurd hnum (by decide +kernel)
  · rfl

end Number

end ExactCalc
