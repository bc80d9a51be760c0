/-
  ExactCalc.Proofs.Number.Power — which powers have a value, and which value that is
  (`pow_outcomes`; see `ExactCalc.Number.Power`).

  A power of zero is zero or one, or a division by zero. Any other power starts from the
  root of the base's magnitude that the exponent's denominator asks for, with the sign
  put back (`IsBase`). Given that root, the power fails only by its size. The estimate
  that is made before it is computed is one from below (`estimate_lt_bitSize`), so it
  rejects nothing that fits.
-/

import ExactCalc.Proofs.Number.Size

namespace ExactCalc

/-! ## Sizes of powers -/

theorem two_pow_le_of_ne_zero {n : Nat} (hn : n ≠ 0) : 2 ^ (bitLength n - 1) ≤ n := by
  unfold bitLength
  rw [if_neg hn, Nat.add_sub_cancel]
  exact Nat.log2_self_le hn

/-- A power has more bits than the bits of its base without the first, times the exponent. -/
theorem estimate_lt_bitLength {n : Nat} (hn : n ≠ 0) (k : Nat) :
    (bitLength n - 1) * k < bitLength (n ^ k) := by
  refine Nat.lt_of_not_le fun hle => ?_
  have hlt : n ^ k < 2 ^ ((bitLength n - 1) * k) := bitLength_le_iff.mp hle
  rw [Nat.pow_mul] at hlt
  exact Nat.not_le.mpr hlt (Nat.pow_le_pow_left (two_pow_le_of_ne_zero hn) k)

/-- A number and its inverse have the same parts. -/
theorem bitSize_inv {q : Rat} (hq : q ≠ 0) : bitSize q⁻¹ = bitSize q := by
  have hnum : q⁻¹.num.natAbs = q.den := by
    rw [Rat.num_inv, Int.natAbs_mul, Int.natAbs_sign_of_ne_zero (Rat.num_ne_zero.mpr hq), Nat.one_mul,
      Int.natAbs_natCast]
  have hden : q⁻¹.den = q.num.natAbs := by
    rw [Rat.den_inv, if_neg (Rat.num_ne_zero.mpr hq)]
  unfold bitSize
  rw [hnum, hden, Nat.max_comm]

/-- The sign of an exponent makes no difference to the size. -/
theorem bitSize_zpow {q : Rat} (hq : q ≠ 0) (p : Int) : bitSize (q ^ p) = bitSize (q ^ p.natAbs) := by
  rcases Int.natAbs_eq p with h | h
  · rw [h, zpow_natCast, Int.natAbs_natCast]
  · rw [h, zpow_neg, zpow_natCast, bitSize_inv (pow_ne_zero _ hq), Int.natAbs_neg, Int.natAbs_natCast]

theorem estimate_lt_bitSize {q : Rat} (hq : q ≠ 0) (p : Int) :
    (bitSize q - 1) * p.natAbs < bitSize (q ^ p) := by
  have hnum := estimate_lt_bitLength (Int.natAbs_ne_zero.mpr (Rat.num_ne_zero.mpr hq)) p.natAbs
  have hden := estimate_lt_bitLength q.den_ne_zero p.natAbs
  rw [bitSize_zpow hq]
  unfold bitSize
  rw [Rat.num_pow, Int.natAbs_pow, Rat.den_pow]
  rcases max_choice (bitLength q.num.natAbs) (bitLength q.den) with h | h
  · rw [h]
    exact hnum.trans_le (Nat.le_max_left _ _)
  · rw [h]
    exact hden.trans_le (Nat.le_max_right _ _)

/-- A sign makes no difference to the size of a power. -/
theorem bitSize_neg_zpow (q : Rat) (p : Int) : bitSize ((-q) ^ p) = bitSize (q ^ p) := by
  rcases Int.even_or_odd p with h | h
  · rw [h.neg_zpow]
  · rw [h.neg_zpow, bitSize_neg]

namespace Number

/-! ## The base of a power -/

/-- The power of `a` other than zero with the exponent `p` starts from `r`, the root of the magnitude:
neither the exponent nor the degree is beyond its bound, and there is such a root. -/
structure IsBase (a p r : Rat) : Prop where
  ne_zero : a ≠ 0
  exponent : p.num.natAbs ≤ maxExponent ∨ |a| = 1
  degree : p.den ≤ maxRootDegree
  real : 0 < a ∨ Odd p.den
  nonneg : 0 ≤ r
  pow : r ^ p.den = |a|

/-- A power with this exponent would be one of an even root of a negative number. -/
def IsComplex (a p : Rat) : Prop :=
  a < 0 ∧ Even p.den ∧ p.den ≤ maxRootDegree ∧ (p.num.natAbs ≤ maxExponent ∨ a = -1)

section

variable {a p r : Rat}

theorem IsBase.unique {r' : Rat} (h : IsBase a p r) (h' : IsBase a p r') : r = r' :=
  (pow_left_inj₀ h.nonneg h'.nonneg p.den_ne_zero).mp (h.pow.trans h'.pow.symm)

theorem IsBase.root_ne_zero (h : IsBase a p r) : r ≠ 0 := by
  rintro rfl
  have hpow := h.pow
  rw [zero_pow p.den_ne_zero] at hpow
  exact h.ne_zero (abs_eq_zero.mp hpow.symm)

theorem IsBase.not_isComplex (h : IsBase a p r) : ¬ IsComplex a p := by
  rintro ⟨hneg, heven, -⟩
  rcases h.real with hpos | hodd
  · exact lt_asymm hneg hpos
  · exact Nat.not_odd_iff_even.mpr heven hodd

theorem IsBase.powerBase_eq (h : IsBase a p r) :
    powerBase a p = .ok (if a < 0 then -r else r) := by
  have hreal : ¬ (a < 0 ∧ p.den % 2 = 0) := by
    rintro ⟨hneg, heven⟩
    exact h.not_isComplex ⟨hneg, Nat.even_iff.mpr heven, h.degree,
      h.exponent.imp_right fun h1 => by rw [← neg_eq_iff_eq_neg, ← h1, abs_of_neg hneg]⟩
  unfold powerBase
  by_cases hone : p.den = 1
  · -- without a root to take, the magnitude with its sign is the base
    have hr : r = |a| := by
      have hpow := h.pow
      rwa [hone, pow_one] at hpow
    rw [if_pos hone, hr]
    split
    · rename_i hneg
      rw [abs_of_neg hneg, neg_neg]
    · rename_i hnonneg
      rw [abs_of_nonneg (not_lt.mp hnonneg)]
  · rw [if_neg hone, if_neg (Nat.not_lt.mpr h.degree), if_neg hreal, abs_eq,
      Root.exactRoot?_of_pow_eq p.den_pos h.nonneg h.pow]
    rfl

/-- Where there is no base, the exponent or its denominator is out of bounds, or the root is not real
or not rational. -/
theorem powerBase_eq_error (ha : a ≠ 0) (hexponent : p.num.natAbs ≤ maxExponent ∨ |a| = 1)
    (h : ∀ r, ¬ IsBase a p r) : ∃ cause, powerBase a p = .error (.eval cause) ∧
      cause.kind = if a < 0 ∧ Even p.den ∧ p.den ≤ maxRootDegree then .complexResult
        else .invalidExponent := by
  have hone : p.den ≠ 1 := by
    intro hone
    refine h |a| ⟨ha, hexponent, ?_, Or.inr ?_, abs_nonneg a, ?_⟩
    · rw [hone]
      decide
    · rw [hone]
      decide
    · rw [hone, pow_one]
  unfold powerBase
  rw [if_neg hone]
  by_cases hdegree : p.den > maxRootDegree
  · rw [if_pos hdegree, if_neg fun hc => Nat.not_lt.mpr hc.2.2 hdegree]
    exact ⟨_, rfl, rfl⟩
  rw [if_neg hdegree]
  by_cases hreal : a < 0 ∧ p.den % 2 = 0
  · rw [if_pos hreal, if_pos ⟨hreal.1, Nat.even_iff.mpr hreal.2, Nat.not_lt.mp hdegree⟩]
    exact ⟨_, rfl, rfl⟩
  rw [if_neg hreal, if_neg fun hc => hreal ⟨hc.1, Nat.even_iff.mp hc.2.1⟩, abs_eq]
  obtain ⟨r, hr, hpow, -⟩ | ⟨-, hnone⟩ := Root.exactRoot?_cases p.den_pos (abs_nonneg a)
  · refine absurd ⟨ha, hexponent, Nat.not_lt.mp hdegree, ?_, hr, hpow⟩ (h r)
    rcases lt_or_gt_of_ne ha with hneg | hpos
    · exact Or.inr (Nat.odd_iff.mpr (Nat.mod_two_ne_zero.mp fun heven => hreal ⟨hneg, heven⟩))
    · exact Or.inl hpos
  · rw [hnone]
    exact ⟨_, rfl, rfl⟩

end

/-! ## Powers -/

variable {a e : Number}

theorem pow_of_zero (ha : a.value = 0) : a.pow e =
    if e.value < 0 then .error (.eval .zeroToNegativePower)
    else .ok ⟨if e.value = 0 then 1 else 0, a.inexact || e.inexact⟩ := by
  have hz : a.isZero = true := beq_iff_eq.mpr ha
  unfold pow
  dsimp only
  rw [if_pos hz]
  split
  · rfl
  split
  · rfl
  · rfl

theorem pow_of_ne_zero (ha : a.value ≠ 0) : a.pow e =
    if e.value.num.natAbs > maxExponent ∧ |a.value| ≠ 1 then
      .error (.eval (.exponentTooLarge e.value))
    else powerBase a.value e.value >>= fun base =>
      if (bitSize base - 1) * e.value.num.natAbs > maxResultBits then
        .error (.eval (.powerTooLarge e.value))
      else bounded (base ^ e.value.num) (a.inexact || e.inexact) := by
  have hz : ¬ a.isZero = true := fun hz => ha (beq_iff_eq.mp hz)
  unfold pow
  dsimp only
  rw [if_neg hz, abs_eq]
  simp only [integerPower_eq]

/-- A power that starts from a root is checked by its estimated size, and by its size. -/
theorem pow_of_isBase {r : Rat} (h : IsBase a.value e.value r) : a.pow e =
    if (bitSize r - 1) * e.value.num.natAbs > maxResultBits then
      .error (.eval (.powerTooLarge e.value))
    else bounded ((if a.value < 0 then -r else r) ^ e.value.num) (a.inexact || e.inexact) := by
  have hguard : ¬ (e.value.num.natAbs > maxExponent ∧ |a.value| ≠ 1) := by
    rintro ⟨hlarge, hunit⟩
    exact h.exponent.elim (fun hle => Nat.not_lt.mpr hle hlarge) hunit
  have hsize : bitSize (if a.value < 0 then -r else r) = bitSize r := by
    split
    · exact bitSize_neg r
    · rfl
  rw [pow_of_ne_zero h.ne_zero, if_neg hguard, h.powerBase_eq, ← hsize]
  rfl

theorem bitSize_signed_zpow (q r : Rat) (p : Int) :
    bitSize ((if q < 0 then -r else r) ^ p) = bitSize (r ^ p) := by
  split
  · exact bitSize_neg_zpow r p
  · rfl

/-- The estimate lets everything pass that fits. -/
theorem pow_of_fits {r : Rat} (h : IsBase a.value e.value r)
    (hfits : (exact (r ^ e.value.num)).Fits) : a.pow e =
      .ok ⟨(if a.value < 0 then -r else r) ^ e.value.num, a.inexact || e.inexact⟩ := by
  have hsize : bitSize (r ^ e.value.num) ≤ maxResultBits := fits_iff.mp hfits
  have hestimate : (bitSize r - 1) * e.value.num.natAbs < bitSize (r ^ e.value.num) :=
    estimate_lt_bitSize h.root_ne_zero e.value.num
  rw [pow_of_isBase h, if_neg (Nat.not_lt.mpr (hestimate.le.trans hsize))]
  refine if_neg (Nat.not_lt.mpr ?_)
  rw [bitSize_signed_zpow]
  exact hsize

theorem pow_of_not_fits {r : Rat} (h : IsBase a.value e.value r)
    (hlarge : ¬ (exact (r ^ e.value.num)).Fits) : ∃ cause, a.pow e = .error (.eval cause) ∧
      (cause.kind = .invalidExponent ∨ cause.kind = .resultTooLarge) := by
  rw [pow_of_isBase h]
  split
  · exact ⟨_, rfl, Or.inl rfl⟩
  · refine ⟨_, if_pos ?_, Or.inr rfl⟩
    rw [bitSize_signed_zpow]
    exact Nat.lt_of_not_le fun hle => hlarge (fits_iff.mpr hle)

/-- Without a base, a power of a number other than zero has no value. -/
theorem pow_of_not_isBase (ha : a.value ≠ 0) (h : ∀ r, ¬ IsBase a.value e.value r) :
    ∃ cause, a.pow e = .error (.eval cause) ∧ cause.kind ≠ .divisionByZero ∧
      (cause.kind = .complexResult ↔ IsComplex a.value e.value) := by
  rw [pow_of_ne_zero ha]
  by_cases hguard : e.value.num.natAbs > maxExponent ∧ |a.value| ≠ 1
  · rw [if_pos hguard]
    refine ⟨_, rfl, nofun, iff_of_false nofun ?_⟩
    rintro ⟨-, -, -, hle | hunit⟩
    · exact Nat.not_lt.mpr hle hguard.1
    · exact hguard.2 (by rw [hunit, abs_neg, abs_one])
  · have hexponent : e.value.num.natAbs ≤ maxExponent ∨ |a.value| = 1 := by
      rcases not_and_or.mp hguard with hle | hunit
      · exact Or.inl (Nat.not_lt.mp hle)
      · exact Or.inr (not_not.mp hunit)
    obtain ⟨cause, hbase, hkind⟩ := powerBase_eq_error ha hexponent h
    rw [if_neg hguard, hbase]
    refine ⟨cause, rfl, ?_, ?_⟩
    · rw [hkind]
      split <;> decide
    · rw [hkind]
      split
      · rename_i hc
        refine iff_of_true rfl ⟨hc.1, hc.2.1, hc.2.2, hexponent.imp_right fun hunit => ?_⟩
        rw [abs_of_neg hc.1] at hunit
        rw [← hunit, neg_neg]
      · rename_i hc
        exact iff_of_false (by decide) fun hcomplex => hc ⟨hcomplex.1, hcomplex.2.1, hcomplex.2.2.1⟩

/-! ## Which powers have a value -/

/-- `v` is the power of `a` with the exponent `e`, flagged if one of them is: that of zero, or that of
the base with the sign of `a`, if it fits. -/
inductive IsPowerOf (a e : Number) : Number → Prop
  | zero : a.value = 0 → 0 ≤ e.value →
    IsPowerOf a e ⟨if e.value = 0 then 1 else 0, a.inexact || e.inexact⟩
  | base {r : Rat} : IsBase a.value e.value r → (exact (r ^ e.value.num)).Fits →
    IsPowerOf a e ⟨(if a.value < 0 then -r else r) ^ e.value.num, a.inexact || e.inexact⟩

theorem IsPowerOf.unique {v v' : Number} (h : IsPowerOf a e v) (h' : IsPowerOf a e v') : v = v' := by
  cases h with
  | zero ha _ =>
    cases h' with
    | zero _ _ => rfl
    | base hr _ => exact absurd ha hr.ne_zero
  | base hr _ =>
    cases h' with
    | zero ha _ => exact absurd ha hr.ne_zero
    | base hr' _ => rw [hr.unique hr']

theorem IsPowerOf.not_negative_of_zero {v : Number} (h : IsPowerOf a e v) :
    ¬ (a.value = 0 ∧ e.value < 0) := by
  rintro ⟨ha, he⟩
  cases h with
  | zero _ hnonneg => exact not_le.mpr he hnonneg
  | base hr _ => exact hr.ne_zero ha

theorem IsPowerOf.not_isComplex {v : Number} (h : IsPowerOf a e v) :
    ¬ IsComplex a.value e.value := by
  cases h with
  | zero ha _ => exact fun hcomplex => hcomplex.1.ne ha
  | base hr _ => exact hr.not_isComplex

/-- The power is found, or it is refused for a cause that tells why there is none. -/
theorem pow_cases (a e : Number) :
    (∃ v, a.pow e = .ok v ∧ IsPowerOf a e v) ∨
    ∃ cause, a.pow e = .error (.eval cause) ∧ (∀ v, ¬ IsPowerOf a e v) ∧
      (cause.kind = .divisionByZero ↔ a.value = 0 ∧ e.value < 0) ∧
      (cause.kind = .complexResult ↔ IsComplex a.value e.value) := by
  by_cases ha : a.value = 0
  · rw [pow_of_zero ha]
    by_cases he : e.value < 0
    · rw [if_pos he]
      exact Or.inr ⟨_, rfl, fun v hv => hv.not_negative_of_zero ⟨ha, he⟩, iff_of_true rfl ⟨ha, he⟩,
        iff_of_false nofun fun hcomplex => hcomplex.1.ne ha⟩
    · rw [if_neg he]
      exact Or.inl ⟨_, rfl, .zero ha (not_lt.mp he)⟩
  have hzero : ¬ (a.value = 0 ∧ e.value < 0) := fun h => ha h.1
  by_cases hbase : ∃ r, IsBase a.value e.value r
  · obtain ⟨r, hr⟩ := hbase
    by_cases hfits : (exact (r ^ e.value.num)).Fits
    · exact Or.inl ⟨_, pow_of_fits hr hfits, .base hr hfits⟩
    · obtain ⟨cause, hpow, hkind⟩ := pow_of_not_fits hr hfits
      refine Or.inr ⟨cause, hpow, fun v hv => ?_, iff_of_false ?_ hzero,
        iff_of_false ?_ hr.not_isComplex⟩
      · cases hv with
        | zero h _ => exact ha h
        | base hr' hfits' => exact hfits (hr.unique hr' ▸ hfits')
      · rcases hkind with h | h <;> rw [h] <;> decide
      · rcases hkind with h | h <;> rw [h] <;> decide
  · obtain ⟨cause, hpow, hkind, hcomplex⟩ := pow_of_not_isBase ha (not_exists.mp hbase)
    refine Or.inr ⟨cause, hpow, fun v hv => ?_, iff_of_false hkind hzero, hcomplex⟩
    cases hv with
    | zero h _ => exact ha h
    | base hr _ => exact hbase ⟨_, hr⟩

/-- A power has a value exactly if it is one of zero to an exponent that is not negative, or starts from
a rational root and fits; it has no other value. Otherwise it is refused with a cause: a division by zero
exactly for negative powers of zero, a complex result exactly for even roots of negative numbers within
the other bounds. No power that fits is refused for its estimated size. -/
theorem pow_outcomes (a e : Number) :
    (∀ v, a.pow e = .ok v ↔ IsPowerOf a e v) ∧
    ((∃ v, a.pow e = .ok v) ∨ ∃ cause, a.pow e = .error (.eval cause)) ∧
    ((∃ cause, a.pow e = .error (.eval cause) ∧ cause.kind = .divisionByZero) ↔
      a.value = 0 ∧ e.value < 0) ∧
    ((∃ cause, a.pow e = .error (.eval cause) ∧ cause.kind = .complexResult) ↔
      IsComplex a.value e.value) ∧
    ¬ ∃ r, IsBase a.value e.value r ∧ (exact (r ^ e.value.num)).Fits ∧
      a.pow e = .error (.eval (.powerTooLarge e.value)) := by
  have hestimate : ¬ ∃ r, IsBase a.value e.value r ∧ (exact (r ^ e.value.num)).Fits ∧
      a.pow e = .error (.eval (.powerTooLarge e.value)) := by
    rintro ⟨r, hr, hfits, h⟩
    rw [pow_of_fits hr hfits] at h
    cases h
  obtain ⟨v, hpow, hv⟩ | ⟨cause, hpow, hnone, hdivision, hcomplex⟩ := pow_cases a e
  · have herror : ∀ k, ¬ ∃ cause, a.pow e = .error (.eval cause) ∧ cause.kind = k := by
      rintro k ⟨cause, h, -⟩
      rw [hpow] at h
      cases h
    refine ⟨fun v' => ⟨fun h => ?_, fun h => ?_⟩, Or.inl ⟨v, hpow⟩,
      iff_of_false (herror _) hv.not_negative_of_zero, iff_of_false (herror _) hv.not_isComplex,
      hestimate⟩
    · cases hpow.symm.trans h
      exact hv
    · rw [hpow, hv.unique h]
  · have herror : ∀ k, (∃ cause, a.pow e = .error (.eval cause) ∧ cause.kind = k) ↔ cause.kind = k := by
      refine fun k => ⟨?_, fun hk => ⟨cause, hpow, hk⟩⟩
      rintro ⟨cause', h, hk⟩
      cases hpow.symm.trans h
      exact hk
    refine ⟨fun v => iff_of_false ?_ (hnone v), Or.inr ⟨cause, hpow⟩, (herror _).trans hdivision,
      (herror _).trans hcomplex, hestimate⟩
    rw [hpow]
    exact nofun

/-- The power of a flagged negative fraction whose exponent asks for a cube root and an inverse. -/
theorem pow_outcomes_of_cube :
    let a : Number := ⟨-8 / 27, true⟩
    let e : Number := .exact (-2 / 3)
    IsBase a.value e.value (2 / 3) ∧ a.pow e = .ok ⟨9 / 4, true⟩ := by
  intro a e
  have hbase : IsBase a.value e.value (2 / 3) :=
    ⟨by decide +kernel, Or.inl (by decide +kernel), by decide +kernel, Or.inr (by decide +kernel),
      by decide +kernel, by decide +kernel⟩
  have hfits : (exact ((2 / 3) ^ e.value.num)).Fits := ⟨by decide +kernel, by decide +kernel⟩
  have hvalue : ((if a.value < 0 then -(2 / 3) else 2 / 3) ^ e.value.num : Rat) = 9 / 4 := by
    decide +kernel
  have hpower : IsPowerOf a e _ := .base hbase hfits
  rw [hvalue] at hpower
  exact ⟨hbase, ((pow_outcomes a e).1 _).mpr hpower⟩

end Number

end ExactCalc
