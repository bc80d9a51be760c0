/-
  ExactCalc.Proofs.Number.Division — nothing is divided by zero (see
  `ExactCalc.Number.Power`).

  `Checked` holds the operations on numbers once more, with every quotient behind a test
  of its divisor that ends in a fault. No test fails: each operation is the one without
  tests (`Checked.div_eq`, `Checked.pow_eq`, `Checked.root_eq`). The divisors of the
  root iteration are positive because it starts above the root and stays there
  (`newtonStep_ne_zero`); those of powers are, because zero has been dealt with before.
-/

import ExactCalc.Proofs.Number.Arithmetic

namespace ExactCalc

namespace Root

/-- Above the root of a positive value lies nothing but positive guesses. -/
theorem newtonStep_ne_zero {v d guess : Nat} (hv : 0 < v) (hd : 0 < d) (hg : guess ≠ 0) :
    newtonStep v d guess ≠ 0 := by
  intro h
  have hlt := lt_pow_newtonStep v hd hg
  rw [h, Nat.zero_add, Nat.one_pow] at hlt
  omega

theorem firstGuess_ne_zero (v d : Nat) : firstGuess v d ≠ 0 :=
  (Nat.pow_pos (by decide) : 0 < 2 ^ ((bitLength v + d - 1) / d)).ne'

end Root

namespace Checked

/-- A quotient, by anything but zero. -/
def quotient {α : Type} [DecidableEq α] [Zero α] [Div α] (a b : α) : Except Fault α :=
  if b = 0 then .error .zeroDenominator else .ok (a / b)

theorem quotient_of_ne {α : Type} [DecidableEq α] [Zero α] [Div α] {a b : α} (h : b ≠ 0) :
    quotient a b = .ok (a / b) := if_neg h

/-! ## Roots -/

def newtonStep (value degree guess : Nat) : Except Fault Nat := do
  let share ← quotient value (Nat.pow guess (degree - 1))
  quotient ((degree - 1) * guess + share) degree

def descend (value degree guess : Nat) : Except Fault Nat :=
  match newtonStep value degree guess with
  | .error f => .error f
  | .ok next => if next < guess then descend value degree next else .ok guess
termination_by guess

def firstGuess (value degree : Nat) : Except Fault Nat := do
  return Nat.pow 2 (← quotient (bitLength value + degree - 1) degree)

def floorRoot (value degree : Nat) : Except Fault Nat :=
  if value < 2 || degree = 1 then .ok value
  else do descend value degree (← firstGuess value degree)

def integerRoot (value degree : Int) : Except Fault Nat :=
  if value < 0 then .error (.negativeRadicand value)
  else if degree < 1 then .error (.degreeNotPositive degree)
  else floorRoot value.toNat degree.toNat

def perfectRoot? (value degree : Int) : Except Fault (Option Nat) := do
  let root ← integerRoot value degree
  return if (Nat.pow root degree.toNat : Nat) = value then some root else none

def exactRoot? (value : Rat) (degree : Int) : Except Fault (Option Rat) := do
  match ← perfectRoot? value.num degree with
  | none => return none
  | some num =>
    match ← perfectRoot? value.den degree with
    | none => return none
    | some den => return some (← Root.ratio num den)

def truncatedRoot (value : Rat) (degree : Int) (digits : Nat) : Except Fault Rat := do
  let scale := Nat.pow 10 digits
  let scaled ← quotient (value.num * (Nat.pow scale degree.toNat : Nat)) value.den
  let root ← integerRoot scaled degree
  Root.ratio root scale

def magnitudeRoot (q : Rat) (degree : Int) : Except Fault (Rat × Bool) := do
  match ← exactRoot? q degree with
  | some root => return (root, false)
  | none => return (← truncatedRoot q degree rootDigits, true)

theorem newtonStep_eq (value : Nat) {degree guess : Nat} (hd : 0 < degree) (hg : guess ≠ 0) :
    newtonStep value degree guess = .ok (Root.newtonStep value degree guess) :=
  bind_of_ok (quotient_of_ne (Nat.pow_pos (Nat.pos_of_ne_zero hg)).ne') (quotient_of_ne hd.ne')

theorem descend_eq {value degree : Nat} (hv : 0 < value) (hd : 0 < degree) (guess : Nat)
    (hg : guess ≠ 0) : descend value degree guess = .ok (Root.descend value degree guess) := by
  induction guess using Root.descend.induct value degree with
  | case1 guess hlt ih =>
    rw [descend, newtonStep_eq value hd hg, Root.descend, if_pos hlt]
    dsimp only
    rw [if_pos hlt]
    exact ih (Root.newtonStep_ne_zero hv hd hg)
  | case2 guess hge =>
    rw [descend, newtonStep_eq value hd hg, Root.descend, if_neg hge]
    dsimp only
    rw [if_neg hge]

theorem firstGuess_eq (value : Nat) {degree : Nat} (hd : 0 < degree) :
    firstGuess value degree = .ok (Root.firstGuess value degree) :=
  bind_of_ok (quotient_of_ne hd.ne') rfl

theorem floorRoot_eq (value : Nat) {degree : Nat} (hd : 0 < degree) :
    floorRoot value degree = .ok (Root.floorRoot value degree) := by
  unfold floorRoot Root.floorRoot
  split
  · rfl
  · rename_i h
    rw [Bool.or_eq_true, decide_eq_true_eq, not_or, not_lt] at h
    exact bind_of_ok (firstGuess_eq value hd)
      (descend_eq (by omega) hd _ (Root.firstGuess_ne_zero value degree))

theorem integerRoot_eq (value degree : Int) :
    integerRoot value degree = Root.integerRoot value degree := by
  unfold integerRoot Root.integerRoot
  split
  · rfl
  split
  · rfl
  · exact floorRoot_eq _ (by omega)

theorem perfectRoot?_eq (value degree : Int) :
    perfectRoot? value degree = Root.perfectRoot? value degree := by
  unfold perfectRoot? Root.perfectRoot?
  rw [integerRoot_eq]

theorem exactRoot?_eq (value : Rat) (degree : Int) :
    exactRoot? value degree = Root.exactRoot? value degree := by
  unfold exactRoot? Root.exactRoot?
  rewrite [perfectRoot?_eq, perfectRoot?_eq]
  rfl

theorem truncatedRoot_eq (value : Rat) (degree : Int) (digits : Nat) :
    truncatedRoot value degree digits = Root.truncatedRoot value degree digits := by
  unfold truncatedRoot Root.truncatedRoot
  refine bind_of_ok (quotient_of_ne (Int.natCast_ne_zero.mpr value.den_ne_zero)) ?_
  rw [integerRoot_eq]

theorem magnitudeRoot_eq (q : Rat) (degree : Int) :
    magnitudeRoot q degree = Number.magnitudeRoot q degree := by
  unfold magnitudeRoot Number.magnitudeRoot
  rewrite [exactRoot?_eq, truncatedRoot_eq]
  rfl

/-! ## Operations -/

def div (a b : Number) : Except Failure Number :=
  if b.isZero then .error (.eval .divisionByZero)
  else do Number.bounded (← Number.guarded (quotient a.value b.value)) (a.inexact || b.inexact)

/-- A negative power divides by the base. -/
def integerPower (base : Rat) (p : Int) : Except Fault Rat :=
  if p < 0 ∧ base = 0 then .error .zeroDenominator else .ok (Number.integerPower base p)

def powerBase (base p : Rat) : Except Failure Rat :=
  if p.den = 1 then .ok base
  else if p.den > maxRootDegree then .error (.eval (.exponentDegreeTooLarge p))
  else if base < 0 ∧ p.den % 2 = 0 then .error (.eval (.powerNotReal base p))
  else do
    match ← Number.guarded (exactRoot? base.abs p.den) with
    | none => .error (.eval (.powerNotRational base p))
    | some root => return if base < 0 then -root else root

def pow (a e : Number) : Except Failure Number :=
  let p := e.value
  let inexact := a.inexact || e.inexact
  if a.isZero then
    if p < 0 then .error (.eval .zeroToNegativePower)
    else Number.bounded (if p = 0 then 1 else 0) inexact
  else if p.num.natAbs > maxExponent ∧ a.value.abs ≠ 1 then .error (.eval (.exponentTooLarge p))
  else do
    let base ← powerBase a.value p
    if (bitSize base - 1) * p.num.natAbs > maxResultBits then .error (.eval (.powerTooLarge p))
    else Number.bounded (← Number.guarded (integerPower base p.num)) inexact

def root (a d : Number) : Except Failure Number :=
  if !d.isInteger || d.value < 1 then .error (.eval (.rootDegreeInvalid d.value))
  else if d.value.num > maxRootDegree then .error (.eval (.rootDegreeTooLarge d.value))
  else if a.value < 0 ∧ d.value.num % 2 = 0 then .error (.eval (.evenRootOfNegative a.value))
  else do
    let (magnitude, cut) ← Number.guarded (magnitudeRoot a.value.abs d.value.num)
    return ⟨if a.value < 0 then -magnitude else magnitude, cut || a.inexact || d.inexact⟩

theorem div_eq (a b : Number) : div a b = a.div b := by
  unfold div Number.div
  split
  · rfl
  · rename_i hz
    rw [quotient_of_ne (by simpa [Number.isZero] using hz)]
    rfl

theorem powerBase_eq (base p : Rat) : powerBase base p = Number.powerBase base p := by
  unfold powerBase Number.powerBase
  rewrite [exactRoot?_eq]
  rfl

/-- The root that a power starts from is zero only if the base is. -/
theorem powerBase_ne_zero {base p r : Rat} (hb : base ≠ 0) (h : Number.powerBase base p = .ok r) :
    r ≠ 0 := by
  rintro rfl
  have hroot := (Number.powerBase_eq_ok h).pow
  rw [zero_pow p.den_ne_zero] at hroot
  exact hb hroot.symm

theorem pow_eq (a e : Number) : pow a e = a.pow e := by
  unfold pow Number.pow
  dsimp only
  split
  · rfl
  rename_i hz
  split
  · rfl
  rw [powerBase_eq]
  have ha : a.value ≠ 0 := by simpa [Number.isZero] using hz
  cases hbase : Number.powerBase a.value e.value with
  | error f => rfl
  | ok base =>
    have hpower : integerPower base e.value.num = .ok (Number.integerPower base e.value.num) :=
      if_neg fun h => powerBase_ne_zero ha hbase h.2
    show (if _ then _ else _) = (if _ then _ else _)
    rw [hpower]
    rfl

theorem root_eq (a d : Number) : root a d = a.root d := by
  unfold root Number.root
  rw [magnitudeRoot_eq]

end Checked

end ExactCalc
