/-
  ExactCalc.Proofs.Number.Arithmetic — what the operations on numbers give, where they
  give something (see `ExactCalc.Number.Power`): the value that the operation has in any
  ordered field, and a flag where an operand has one. Only a root that is not rational
  raises a flag of its own.
-/

import ExactCalc.Number.Power
import ExactCalc.Proofs.Failure
import ExactCalc.Proofs.Number.Root
import Mathlib.Algebra.Order.Field.Power

namespace ExactCalc

/-! ## Roots and powers of an ordered field -/

section

variable {K : Type} [Field K] [LinearOrder K] [IsStrictOrderedRing K]

/-- `y` is the root of degree `n` of `x`; of two roots, the one that is not negative. -/
structure IsRoot (n : Nat) (x y : K) : Prop where
  positive : 0 < n
  pow : y ^ n = x
  nonneg : Even n → 0 ≤ y

/-- `y` is `x` to the power `p`, by the root that the exponent's denominator asks for. Zero has no
negative powers, and its power zero is one. -/
def IsPower (x : K) (p : Rat) (y : K) : Prop :=
  ∃ r, IsRoot p.den x r ∧ (r = 0 → 0 ≤ p) ∧ r ^ p.num = y

theorem IsRoot.unique {n : Nat} {x y y' : K} (h : IsRoot n x y) (h' : IsRoot n x y') : y = y' := by
  have he : y ^ n = y' ^ n := h.pow.trans h'.pow.symm
  rcases Nat.even_or_odd n with hn | hn
  · exact (pow_left_inj₀ (h.nonneg hn) (h'.nonneg hn) (by have := h.positive; omega)).mp he
  · exact hn.pow_injective he

theorem IsPower.unique {x y y' : K} {p : Rat} (h : IsPower x p y) (h' : IsPower x p y') : y = y' := by
  obtain ⟨r, hr, -, rfl⟩ := h
  obtain ⟨r', hr', -, rfl⟩ := h'
  rw [hr.unique hr']

theorem IsRoot.cast {n : Nat} {x y : Rat} (h : IsRoot n x y) : IsRoot n (x : K) (y : K) :=
  ⟨h.positive, by rw [← Rat.cast_pow, h.pow], fun hn => Rat.cast_nonneg.mpr (h.nonneg hn)⟩

theorem IsPower.cast {x y p : Rat} (h : IsPower x p y) : IsPower (x : K) p (y : K) := by
  obtain ⟨r, hr, hne, rfl⟩ := h
  exact ⟨r, hr.cast, fun h0 => hne (Rat.cast_eq_zero.mp h0), (Rat.cast_zpow r p.num).symm⟩

omit [IsStrictOrderedRing K] in
theorem isRoot_one (x : K) : IsRoot 1 x x :=
  ⟨Nat.one_pos, pow_one x, fun h => absurd h (by decide)⟩

/-- A number and its magnitude have roots of the same magnitude, if the degree is odd. -/
theorem isRoot_of_abs {n : Nat} {x y : K} (hn : 0 < n) (hy : 0 ≤ y) (h : y ^ n = |x|)
    (hx : x < 0 → Odd n) : IsRoot n x (if x < 0 then -y else y) := by
  by_cases hneg : x < 0
  · rw [if_pos hneg]
    refine ⟨hn, ?_, fun he => absurd (hx hneg) (Nat.not_odd_iff_even.mpr he)⟩
    rw [(hx hneg).neg_pow, h, abs_of_neg hneg, neg_neg]
  · rw [if_neg hneg]
    exact ⟨hn, h.trans (abs_of_nonneg (not_lt.mp hneg)), fun _ => hy⟩

end

namespace Number

theorem abs_eq (q : Rat) : q.abs = |q| := by
  rcases le_total 0 q with h | h
  · rw [Rat.abs_of_nonneg h, abs_of_nonneg h]
  · rw [Rat.abs_of_nonpos h, abs_of_nonpos h]

theorem bounded_eq_ok {q : Rat} {f : Bool} {v : Number} (h : bounded q f = .ok v) :
    v = ⟨q, f⟩ := by
  unfold bounded at h
  split at h
  · cases h
  · exact (Except.ok.inj h).symm

theorem div_eq_ok {a b v : Number} (h : a.div b = .ok v) :
    b.value ≠ 0 ∧ v = ⟨a.value / b.value, a.inexact || b.inexact⟩ := by
  unfold div at h
  split at h
  · cases h
  · rename_i hz
    exact ⟨by simpa [isZero] using hz, bounded_eq_ok h⟩

theorem guarded_eq_ok {α : Type} {x : Except Fault α} {a : α} (h : guarded x = .ok a) :
    x = .ok a := by
  cases x with
  | ok b => exact congrArg Except.ok (Except.ok.inj h)
  | error f => cases h

/-! ## Powers -/

theorem integerPower_eq (base : Rat) (p : Int) : integerPower base p = base ^ p := by
  unfold integerPower
  split
  · rename_i h
    rw [h, one_zpow]
  · split
    · rename_i h
      rw [h]
      split
      · rename_i hp
        exact (Even.neg_one_zpow (Int.even_iff.mpr hp)).symm
      · rename_i hp
        exact (Odd.neg_one_zpow (Int.odd_iff.mpr (by omega))).symm
    · rfl

theorem powerBase_eq_ok {base p r : Rat} (h : powerBase base p = .ok r) : IsRoot p.den base r := by
  unfold powerBase at h
  split at h
  · rename_i hd
    cases h
    rw [hd]
    exact isRoot_one base
  split at h
  · cases h
  split at h
  · cases h
  rename_i hreal
  rw [abs_eq] at h
  obtain ⟨o, ho, h⟩ := bind_eq_ok.mp h
  cases o with
  | none => cases h
  | some root =>
    cases h
    obtain ⟨hroot, hpow⟩ :=
      (Root.exactRoot?_eq_some_iff p.den_pos (abs_nonneg base)).mp (guarded_eq_ok ho)
    refine isRoot_of_abs p.den_pos hroot hpow fun hneg => Nat.odd_iff.mpr ?_
    have : ¬ p.den % 2 = 0 := fun he => hreal ⟨hneg, he⟩
    omega

theorem pow_eq_ok {a e v : Number} (h : a.pow e = .ok v) :
    IsPower a.value e.value v.value ∧ v.inexact = (a.inexact || e.inexact) := by
  unfold pow at h
  dsimp only at h
  by_cases hz : a.isZero = true
  · rw [if_pos hz] at h
    have ha : a.value = 0 := by simpa [isZero] using hz
    split at h
    · cases h
    rename_i hneg
    rw [bounded_eq_ok h]
    refine ⟨⟨0, ⟨e.value.den_pos, ?_, fun _ => le_refl 0⟩, fun _ => not_lt.mp hneg, ?_⟩, rfl⟩
    · rw [ha, zero_pow e.value.den_ne_zero]
    · by_cases he : e.value = 0
      · rw [if_pos he, he, Rat.num_zero, zpow_zero]
      · rw [if_neg he, zero_zpow _ (Rat.num_ne_zero.mpr he)]
  · rw [if_neg hz] at h
    split at h
    · cases h
    obtain ⟨base, hbase, h⟩ := bind_eq_ok.mp h
    split at h
    · cases h
    have hroot := powerBase_eq_ok hbase
    rw [bounded_eq_ok h]
    refine ⟨⟨base, hroot, fun h0 => ?_, (integerPower_eq base _).symm⟩, rfl⟩
    refine absurd hroot.pow ?_
    rw [h0, zero_pow e.value.den_ne_zero]
    exact fun h0 => hz (by simp [isZero, ← h0])

/-! ## Roots -/

/-- A root of a magnitude: the rational one if there is one, else one cut off, which is flagged. -/
theorem magnitudeRoot_cases {q : Rat} {n : Nat} (hn : 0 < n) (hq : 0 ≤ q) :
    (∃ r, 0 ≤ r ∧ r ^ n = q ∧ magnitudeRoot q n = .ok (r, false)) ∨
    (∀ r : Rat, r ^ n ≠ q) ∧ magnitudeRoot q n =
      .ok (Nat.nthRoot n (q.num.natAbs * (10 ^ rootDigits) ^ n / q.den) / (10 ^ rootDigits : Nat),
        true) := by
  obtain ⟨r, hr, hpow, h⟩ | ⟨hnone, h⟩ := Root.exactRoot?_cases hn hq
  · exact Or.inl ⟨r, hr, hpow, bind_of_ok h rfl⟩
  · exact Or.inr ⟨hnone, bind_of_ok h (bind_of_ok (Root.truncatedRoot_eq hn hq rootDigits) rfl)⟩

/-- A root is refused for a cause of its own, or it is that of the magnitude, with the sign put
back. -/
theorem root_cases (a d : Number) :
    (∃ cause : EvalError, cause.name? = none ∧ a.root d = .error (.eval cause)) ∨
    ∃ (n : Nat) (m : Rat) (cut : Bool), 0 < n ∧ n ≤ maxRootDegree ∧ d.value = n ∧
      (a.value < 0 → Odd n) ∧ magnitudeRoot |a.value| n = .ok (m, cut) ∧
      a.root d = .ok ⟨if a.value < 0 then -m else m, cut || a.inexact || d.inexact⟩ := by
  unfold root
  by_cases hint : (!d.isInteger || decide (d.value < 1)) = true
  · exact Or.inl ⟨_, rfl, if_pos hint⟩
  rw [if_neg hint]
  by_cases hmax : d.value.num > maxRootDegree
  · exact Or.inl ⟨_, rfl, if_pos hmax⟩
  rw [if_neg hmax]
  by_cases hreal : a.value < 0 ∧ d.value.num % 2 = 0
  · exact Or.inl ⟨_, rfl, if_pos hreal⟩
  rw [if_neg hreal]
  simp only [isInteger, Bool.or_eq_true, Bool.not_eq_true', beq_eq_false_iff_ne, decide_eq_true_eq,
    not_or, not_not, not_lt] at hint
  obtain ⟨n, hn⟩ : ∃ n : Nat, d.value.num = n :=
    Int.eq_ofNat_of_zero_le (Rat.num_nonneg.mpr (le_trans zero_le_one hint.2))
  have hd : d.value = n := by
    rw [← Rat.num_div_den d.value, hint.1, hn]
    simp
  have hpos : 0 < n := by
    have := hint.2
    rw [hd] at this
    exact_mod_cast this
  rw [hn] at hmax hreal
  have hodd : a.value < 0 → Odd n := by
    intro hneg
    have : ¬ (n : Int) % 2 = 0 := fun he => hreal ⟨hneg, he⟩
    exact Nat.odd_iff.mpr (by omega)
  rw [hn, abs_eq]
  obtain ⟨r, -, -, hm⟩ | ⟨-, hm⟩ := magnitudeRoot_cases hpos (abs_nonneg a.value)
  · exact Or.inr ⟨n, _, _, hpos, by omega, hd, hodd, hm, by rw [hm]; rfl⟩
  · exact Or.inr ⟨n, _, _, hpos, by omega, hd, hodd, hm, by rw [hm]; rfl⟩

/-- Either there is a rational root, and it is given, or there is none, and the result is flagged. -/
theorem root_eq_ok {a d v : Number} (h : a.root d = .ok v) :
    ∃ n : Nat, d.value = n ∧
      (IsRoot n a.value v.value ∧ (∃ r : Rat, r ^ n = |a.value|) ∧
          v.inexact = (a.inexact || d.inexact) ∨
        (∀ r : Rat, r ^ n ≠ |a.value|) ∧ v.inexact = true) := by
  obtain ⟨cause, -, hcause⟩ | ⟨n, m, cut, hpos, -, hd, hodd, hm, hroot⟩ := root_cases a d
  · rw [hcause] at h
    cases h
  rw [hroot] at h
  cases h
  refine ⟨n, hd, ?_⟩
  obtain ⟨r, hr, hpow, hexact⟩ | ⟨hnone, hcut⟩ := magnitudeRoot_cases hpos (abs_nonneg a.value)
  · cases hm.symm.trans hexact
    exact Or.inl ⟨isRoot_of_abs hpos hr hpow hodd, ⟨_, hpow⟩, by rw [Bool.false_or]⟩
  · cases hm.symm.trans hcut
    exact Or.inr ⟨hnone, by rw [Bool.true_or, Bool.true_or]⟩

end Number

end ExactCalc
