/-
  ExactCalc.Proofs.Number.Descent — the guesses on the way to an integer root
  (`integer_root`; see `ExactCalc.Number.Root`).

  Newton's iteration starts at a power of two above the root. Whatever guess one starts
  from, the next one lies above the root again, so none of them is zero and none is
  smaller than the integer part of the root (`nthRoot_le_guessAfter`). They cannot fall
  for ever; where they stop, they have reached that integer part
  (`integerRoot_by_descent`).
-/

import ExactCalc.Proofs.Number.Division

namespace ExactCalc.Root

/-- The guess after so many steps, whether they fall or not. -/
def guessAfter (value degree : Nat) : Nat → Nat
  | 0 => firstGuess value degree
  | steps + 1 => newtonStep value degree (guessAfter value degree steps)

/-- From `start` to `stop` every guess is followed by a smaller one; the one at `stop` is not. -/
structure FallsTo (value degree start stop : Nat) : Prop where
  le : start ≤ stop
  falls : ∀ i, start ≤ i → i < stop → guessAfter value degree (i + 1) < guessAfter value degree i
  stops : guessAfter value degree stop ≤ guessAfter value degree (stop + 1)

variable {value degree : Nat}

/-! ## Guesses -/

theorem guessAfter_ne_zero (hv : 0 < value) (hd : 0 < degree) (i : Nat) :
    guessAfter value degree i ≠ 0 := by
  induction i with
  | zero => exact firstGuess_ne_zero value degree
  | succ i ih => exact newtonStep_ne_zero hv hd ih

theorem lt_pow_guessAfter (hv : 0 < value) (hd : 0 < degree) (i : Nat) :
    value < (guessAfter value degree i + 1) ^ degree := by
  cases i with
  | zero => exact lt_pow_firstGuess value hd
  | succ i => exact lt_pow_newtonStep value hd (guessAfter_ne_zero hv hd i)

/-- No guess is smaller than the integer part of the root. -/
theorem nthRoot_le_guessAfter (hv : 0 < value) (hd : 0 < degree) (i : Nat) :
    Nat.nthRoot degree value ≤ guessAfter value degree i := by
  have hpow : Nat.nthRoot degree value ^ degree < (guessAfter value degree i + 1) ^ degree :=
    Nat.lt_of_le_of_lt (Nat.pow_nthRoot_le (by omega)) (lt_pow_guessAfter hv hd i)
  have hlt := lt_of_pow_lt_pow_left₀ degree (Nat.zero_le _) hpow
  omega

/-! ## The end of the descent -/

/-- From any guess on they fall for some time, and what they fall to is the result. -/
theorem exists_fallsTo (value degree start : Nat) : ∃ stop, FallsTo value degree start stop ∧
    descend value degree (guessAfter value degree start) = guessAfter value degree stop := by
  generalize hg : guessAfter value degree start = g
  induction g using descend.induct value degree generalizing start with
  | case1 g hlt ih =>
    have hnext : guessAfter value degree (start + 1) = newtonStep value degree g := by
      rw [guessAfter, hg]
    obtain ⟨stop, hfalls, hresult⟩ := ih (start + 1) hnext
    have hle := hfalls.le
    refine ⟨stop, ⟨by omega, fun i hstart hstop => ?_, hfalls.stops⟩, ?_⟩
    · by_cases hi : i = start
      · rw [hi, hnext, hg]
        exact hlt
      · exact hfalls.falls i (by omega) hstop
    · rw [descend, if_pos hlt, hresult]
  | case2 g hge =>
    refine ⟨start, ⟨Nat.le_refl start, fun i hstart hstop => ?_, ?_⟩, ?_⟩
    · omega
    · rw [guessAfter, hg]
      exact Nat.le_of_not_lt hge
    · rw [descend, if_neg hge, hg]

/-- As every step takes away one at least, there are no more steps than the first guess is too
large. -/
theorem FallsTo.add_le {stop : Nat} (h : FallsTo value degree 0 stop) :
    guessAfter value degree stop + stop ≤ firstGuess value degree := by
  have hbelow : ∀ i ≤ stop, guessAfter value degree i + i ≤ firstGuess value degree := by
    intro i
    induction i with
    | zero => exact fun _ => Nat.le_refl _
    | succ i ih =>
      intro hi
      have hfall := h.falls i (Nat.zero_le i) (by omega)
      have hrest := ih (by omega)
      omega
  exact hbelow stop (Nat.le_refl stop)

/-- A value that is not returned at once leads to a descent. -/
theorem floorRoot_of_lt (hv : 2 ≤ value) (hd : degree ≠ 1) :
    floorRoot value degree = descend value degree (firstGuess value degree) := by
  unfold floorRoot
  apply if_neg
  rw [Bool.or_eq_true, decide_eq_true_eq, decide_eq_true_eq]
  omega

/-- The integer root is the integer part of the root. Unless it goes without saying, it is the guess at
which the descent stops, after no more steps than the first guess is too large. No guess, up to there
or beyond, is smaller than it, and none makes the divisor of the next one zero. -/
theorem integerRoot_by_descent {value degree : Int} (hv : 0 ≤ value) (hd : 1 ≤ degree) :
    let v := value.toNat
    let d := degree.toNat
    ∃ r : Nat, integerRoot value degree = .ok r ∧ (r : Int) ^ d ≤ value ∧ value < (r + 1) ^ d ∧
      (2 ≤ value → degree ≠ 1 →
        ∃ steps, FallsTo v d 0 steps ∧ r = guessAfter v d steps ∧ r + steps ≤ firstGuess v d) ∧
      (0 < value → ∀ i, r ≤ guessAfter v d i ∧ guessAfter v d i ^ (d - 1) ≠ 0) := by
  intro v d
  have hcast : (v : Int) = value := Int.toNat_of_nonneg hv
  have hdcast : (d : Int) = degree := Int.toNat_of_nonneg (by omega)
  have hpos : 0 < d := by omega
  have hroot : integerRoot value degree = .ok (Nat.nthRoot d v) := by
    rw [← hcast, ← hdcast]
    exact integerRoot_of_nat v hpos
  refine ⟨Nat.nthRoot d v, hroot, ?_, ?_, fun htwo hone => ?_, fun hvpos i => ?_⟩
  · rw [← hcast]
    exact_mod_cast Nat.pow_nthRoot_le (a := v) (n := d) (by omega)
  · rw [← hcast]
    exact_mod_cast Nat.lt_pow_nthRoot_add_one (n := d) (by omega) v
  · obtain ⟨steps, hfalls, hresult⟩ := exists_fallsTo v d 0
    have hfloor : Nat.nthRoot d v = guessAfter v d steps := by
      rw [← floorRoot_eq v hpos, floorRoot_of_lt (by omega) (by omega)]
      exact hresult
    refine ⟨steps, hfalls, hfloor, ?_⟩
    rw [hfloor]
    exact hfalls.add_le
  · refine ⟨nthRoot_le_guessAfter (by omega) hpos i, ?_⟩
    exact pow_ne_zero _ (guessAfter_ne_zero (by omega) hpos i)

/-- The cube root of 2000, from 16 in two steps by way of 13. -/
theorem integerRoot_by_descent_of_cube : ∃ steps, integerRoot 2000 3 = .ok 12 ∧
    FallsTo 2000 3 0 steps ∧ guessAfter 2000 3 steps = 12 ∧ 12 + steps ≤ 16 ∧
    ∀ i, 12 ≤ guessAfter 2000 3 i ∧ guessAfter 2000 3 i ^ 2 ≠ 0 := by
  have hcube : integerRoot 2000 3 = .ok 12 := by decide +kernel
  obtain ⟨r, hr, -, -, hsteps, hguesses⟩ :=
    integerRoot_by_descent (show (0 : Int) ≤ 2000 by decide) (show (1 : Int) ≤ 3 by decide)
  obtain ⟨steps, hfalls, hstop, hfew⟩ := hsteps (by decide) (by decide)
  cases hr.symm.trans hcube
  exact ⟨steps, hcube, hfalls, hstop.symm, hfew, hguesses (by decide)⟩

end ExactCalc.Root
