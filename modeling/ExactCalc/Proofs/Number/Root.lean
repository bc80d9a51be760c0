/-
  ExactCalc.Proofs.Number.Root — integer and rational roots (`integer_root`,
  `exact_root`; see `ExactCalc.Number.Root`).

  Newton's iteration stays above the root while it falls (`lt_pow_descend`), and where
  it stops falling it is no larger than the root, so `floorRoot` is the integer part of
  the root. A rational in lowest terms is a power exactly when numerator and denominator
  are, so `exactRoot?` misses no rational root.
-/

import ExactCalc.Number.Root
import ExactCalc.Proofs.Failure
import Mathlib.Algebra.Order.Field.Rat
import Mathlib.Algebra.Order.Ring.Abs
import Mathlib.Analysis.SpecialFunctions.Pow.NthRootLemmas
import Mathlib.Tactic.IntervalCases

namespace ExactCalc.Root

/-! ## The integer part of a root -/

theorem lt_two_pow_bitLength (v : Nat) : v < 2 ^ bitLength v := by
  unfold bitLength
  split
  · rename_i h
    rw [h]
    decide
  · exact Nat.lt_log2_self

/-- A first guess lies above the root. -/
theorem lt_pow_firstGuess (v : Nat) {d : Nat} (hd : 0 < d) : v < (firstGuess v d + 1) ^ d := by
  have hceil : bitLength v ≤ (bitLength v + d - 1) / d * d := by
    have := Nat.div_add_mod (bitLength v + d - 1) d
    have := Nat.mod_lt (bitLength v + d - 1) hd
    rw [Nat.mul_comm]
    omega
  calc v < 2 ^ bitLength v := lt_two_pow_bitLength v
    _ ≤ 2 ^ ((bitLength v + d - 1) / d * d) := Nat.pow_le_pow_right (by decide) hceil
    _ = firstGuess v d ^ d := Nat.pow_mul _ _ _
    _ ≤ (firstGuess v d + 1) ^ d := Nat.pow_le_pow_left (Nat.le_succ _) d

/-- The next guess still lies above the root. -/
theorem lt_pow_newtonStep (v : Nat) {d guess : Nat} (hd : 0 < d) (hg : guess ≠ 0) :
    v < (newtonStep v d guess + 1) ^ d := by
  obtain ⟨n, rfl⟩ : ∃ n, d = n + 1 := ⟨d - 1, by omega⟩
  have h := Nat.nthRoot.lt_pow_go_succ_aux (a := v) (n := n) hg
  rwa [Nat.add_comm (v / guess ^ n)] at h

/-- Where the guesses no longer fall, they have reached the root. -/
theorem pow_le_of_le_newtonStep {v d guess : Nat} (hd : 0 < d)
    (h : guess ≤ newtonStep v d guess) : guess ^ d ≤ v := by
  obtain ⟨n, rfl⟩ : ∃ n, d = n + 1 := ⟨d - 1, by omega⟩
  have h1 : guess * (n + 1) ≤ n * guess + v / guess ^ n := (Nat.le_div_iff_mul_le hd).mp h
  have h2 : guess ≤ v / guess ^ n := by
    rw [Nat.mul_succ, Nat.mul_comm guess n] at h1
    omega
  rw [Nat.pow_succ, Nat.mul_comm]
  exact Nat.mul_le_of_le_div _ _ _ h2

theorem lt_pow_descend {v d : Nat} (hd : 0 < d) (guess : Nat) (hv : v < (guess + 1) ^ d) :
    v < (descend v d guess + 1) ^ d := by
  induction guess using descend.induct v d with
  | case1 guess hlt ih =>
    rw [descend, if_pos hlt]
    exact ih (lt_pow_newtonStep v hd (by omega))
  | case2 guess hge =>
    rw [descend, if_neg hge]
    exact hv

theorem pow_descend_le {v d : Nat} (hd : 0 < d) (guess : Nat) : descend v d guess ^ d ≤ v := by
  induction guess using descend.induct v d with
  | case1 guess hlt ih =>
    rw [descend, if_pos hlt]
    exact ih
  | case2 guess hge =>
    rw [descend, if_neg hge]
    exact pow_le_of_le_newtonStep hd (Nat.le_of_not_lt hge)

/-- The integer part of a root. -/
theorem floorRoot_eq (v : Nat) {d : Nat} (hd : 0 < d) : floorRoot v d = Nat.nthRoot d v := by
  unfold floorRoot
  split
  · rename_i h
    rw [Bool.or_eq_true, decide_eq_true_eq, decide_eq_true_eq] at h
    rcases h with h | rfl
    · interval_cases v
      · exact (Nat.nthRoot_zero_right (by omega)).symm
      · exact Nat.nthRoot_one_right.symm
    · rfl
  · exact (Nat.nthRoot_eq_of_le_of_lt (pow_descend_le hd _)
      (lt_pow_descend hd _ (lt_pow_firstGuess v hd))).symm

theorem integerRoot_of_nat (v : Nat) {d : Nat} (hd : 0 < d) :
    integerRoot v d = .ok (Nat.nthRoot d v) := by
  have h1 : ¬ (v : Int) < 0 := by omega
  have h2 : ¬ (d : Int) < 1 := by omega
  simp only [integerRoot, h1, h2, if_false, Int.toNat_natCast]
  rw [floorRoot_eq v hd]

/-! ## Perfect powers -/

theorem perfectRoot?_of_nat (v : Nat) {d : Nat} (hd : 0 < d) :
    perfectRoot? v d = .ok (if Nat.nthRoot d v ^ d = v then some (Nat.nthRoot d v) else none) := by
  refine bind_of_ok (integerRoot_of_nat v hd) ?_
  show Except.ok _ = _
  simp only [Nat.pow_eq, Int.toNat_natCast, Nat.cast_inj]

theorem perfectRoot?_eq_some_iff {v d : Nat} (hd : 0 < d) {r : Nat} :
    perfectRoot? v d = .ok (some r) ↔ r ^ d = v := by
  rw [perfectRoot?_of_nat v hd]
  constructor
  · intro h
    split at h
    · rename_i hp
      obtain rfl := Option.some.inj (Except.ok.inj h)
      exact hp
    · cases h
  · rintro rfl
    rw [Nat.nthRoot_pow (by omega), if_pos rfl]

theorem perfectRoot?_eq_none_iff {v d : Nat} (hd : 0 < d) :
    perfectRoot? v d = .ok none ↔ ∀ r, r ^ d ≠ v := by
  rw [perfectRoot?_of_nat v hd]
  have h := Nat.exists_pow_eq_iff' (n := d) (a := v) (by omega)
  constructor
  · intro he r hr
    rw [if_pos (h.mp ⟨r, hr⟩)] at he
    cases he
  · intro hn
    rw [if_neg fun hp => hn _ hp]

/-! ## Rational roots -/

/-- The root of a power in lowest terms is the root of both its parts. -/
theorem num_den_of_pow_eq {q r : Rat} {d : Nat} (h : r ^ d = q) :
    r.num.natAbs ^ d = q.num.natAbs ∧ r.den ^ d = q.den := by
  rw [← h, Rat.num_pow, Rat.den_pow, Int.natAbs_pow]
  exact ⟨rfl, rfl⟩

theorem ratio_of_pos {n m : Nat} (hm : m ≠ 0) : ratio n m = .ok ((n : Rat) / (m : Rat)) := by
  unfold ratio
  rw [if_neg (by omega), Rat.divInt_eq_div]
  rfl

/-- Numerator and denominator of a rational that is not negative, as the root functions take
them. -/
theorem exactRoot?_eq {q : Rat} (hq : 0 ≤ q) (d : Nat) : exactRoot? q d = (do
    match ← perfectRoot? q.num.natAbs d with
    | none => return none
    | some num =>
      match ← perfectRoot? q.den d with
      | none => return none
      | some den => return some (← ratio num den)) := by
  rw [Int.natAbs_of_nonneg (Rat.num_nonneg.mpr hq)]
  rfl

theorem exactRoot?_of_pow_eq {q r : Rat} {d : Nat} (hd : 0 < d) (hr : 0 ≤ r) (h : r ^ d = q) :
    exactRoot? q d = .ok (some r) := by
  obtain ⟨hn, hm⟩ := num_den_of_pow_eq h
  rw [exactRoot?_eq (h ▸ pow_nonneg hr d), (perfectRoot?_eq_some_iff hd).mpr hn,
    (perfectRoot?_eq_some_iff hd).mpr hm]
  show (do return some (← ratio r.num.natAbs r.den) : Except Fault (Option Rat)) = _
  have hnum : ((r.num.natAbs : Nat) : Rat) = r.num := by
    rw [← Int.cast_natCast, Int.natAbs_of_nonneg (Rat.num_nonneg.mpr hr)]
  rw [ratio_of_pos r.den_ne_zero, hnum, Rat.num_div_den]
  rfl

theorem exactRoot?_of_pow_ne {q : Rat} {d : Nat} (hd : 0 < d) (hq : 0 ≤ q)
    (h : ∀ r : Rat, r ^ d ≠ q) : exactRoot? q d = .ok none := by
  rw [exactRoot?_eq hq]
  by_cases hn : ∃ n, n ^ d = q.num.natAbs
  · obtain ⟨n, hn⟩ := hn
    rw [(perfectRoot?_eq_some_iff hd).mpr hn]
    by_cases hm : ∃ m, m ^ d = q.den
    · obtain ⟨m, hm⟩ := hm
      refine absurd ?_ (h ((n : Rat) / (m : Rat)))
      rw [div_pow, ← Nat.cast_pow, ← Nat.cast_pow, hn, hm, ← Int.cast_natCast,
        Int.natAbs_of_nonneg (Rat.num_nonneg.mpr hq), Rat.num_div_den]
    · push Not at hm
      rw [(perfectRoot?_eq_none_iff hd).mpr hm]
      rfl
  · push Not at hn
    rw [(perfectRoot?_eq_none_iff hd).mpr hn]
    rfl

/-- The exact root of a rational that is not negative: the one rational root there is, or none where
there is none. -/
theorem exactRoot?_eq_some_iff {q r : Rat} {d : Nat} (hd : 0 < d) (hq : 0 ≤ q) :
    exactRoot? q d = .ok (some r) ↔ 0 ≤ r ∧ r ^ d = q := by
  refine ⟨fun h => ?_, fun h => exactRoot?_of_pow_eq hd h.1 h.2⟩
  by_cases hex : ∃ r : Rat, r ^ d = q
  · obtain ⟨r', hr'⟩ := hex
    have habs : |r'| ^ d = q := by rw [← abs_pow, hr', abs_of_nonneg hq]
    rw [exactRoot?_of_pow_eq hd (abs_nonneg r') habs] at h
    obtain rfl := Option.some.inj (Except.ok.inj h)
    exact ⟨abs_nonneg r', habs⟩
  · push Not at hex
    rw [exactRoot?_of_pow_ne hd hq hex] at h
    cases h

/-- There is a rational root, or there is none; either way it is found out. -/
theorem exactRoot?_cases {q : Rat} {d : Nat} (hd : 0 < d) (hq : 0 ≤ q) :
    (∃ r, 0 ≤ r ∧ r ^ d = q ∧ exactRoot? q d = .ok (some r)) ∨
    (∀ r : Rat, r ^ d ≠ q) ∧ exactRoot? q d = .ok none := by
  by_cases hr : ∃ r, 0 ≤ r ∧ r ^ d = q
  · obtain ⟨r, hr, hpow⟩ := hr
    exact Or.inl ⟨r, hr, hpow, exactRoot?_of_pow_eq hd hr hpow⟩
  · have hnone : ∀ r : Rat, r ^ d ≠ q := fun r h =>
      hr ⟨|r|, abs_nonneg r, by rw [← abs_pow, h, abs_of_nonneg hq]⟩
    exact Or.inr ⟨hnone, exactRoot?_of_pow_ne hd hq hnone⟩

/-! ## Roots cut off -/

theorem truncatedRoot_eq {q : Rat} {d : Nat} (hd : 0 < d) (hq : 0 ≤ q) (digits : Nat) :
    truncatedRoot q d digits =
      .ok (Nat.nthRoot d (q.num.natAbs * (10 ^ digits) ^ d / q.den) / (10 ^ digits : Nat)) := by
  have hscaled : q.num * (Nat.pow (Nat.pow 10 digits) d : Nat) / q.den =
      (q.num.natAbs * (10 ^ digits) ^ d / q.den : Nat) := by
    rw [← Int.natAbs_of_nonneg (Rat.num_nonneg.mpr hq)]
    rfl
  refine bind_of_ok (a := Nat.nthRoot d (q.num.natAbs * (10 ^ digits) ^ d / q.den)) ?_ ?_
  · show integerRoot (q.num * (Nat.pow (Nat.pow 10 digits) d : Nat) / q.den) d = _
    rw [hscaled]
    exact integerRoot_of_nat _ hd
  · exact ratio_of_pos (Nat.pow_pos (by decide)).ne'

end ExactCalc.Root
