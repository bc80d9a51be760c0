/-
  ExactCalc.Number.Power — powers and roots of numbers (`Number.__pow__`, `Number.root`;
  SPEC §4.3).

  - `Number.pow`: a power with a rational exponent, exactly or not at all. An exponent
    `p/q` needs a base whose `q`-th root is rational.
  - `Number.root`: a root of integer degree, exact where it is rational and otherwise
    cut off after `rootDigits` decimals and flagged.
-/

import ExactCalc.Number.Basic

namespace ExactCalc.Number

/-- Faults of the root functions as failures. -/
def guarded {α : Type} : Except Fault α → Except Failure α
  | .ok a => .ok a
  | .error f => .error (.fault f)

/-- A power with an integer exponent. Of one and minus one, only the exponent's parity counts. -/
def integerPower (base : Rat) (p : Int) : Rat :=
  if base = 1 then 1
  else if base = -1 then (if p % 2 = 0 then 1 else -1)
  else base ^ p

/-- The rational root of the base that the exponent's denominator asks for. -/
def powerBase (base p : Rat) : Except Failure Rat :=
  if p.den = 1 then .ok base
  else if p.den > maxRootDegree then .error (.eval (.exponentDegreeTooLarge p))
  else if base < 0 ∧ p.den % 2 = 0 then .error (.eval (.powerNotReal base p))
  else do
    match ← guarded (Root.exactRoot? base.abs p.den) with
    | none => .error (.eval (.powerNotRational base p))
    | some root => return if base < 0 then -root else root

/-- `Number.__pow__`: `a` to the power `e`. -/
def pow (a e : Number) : Except Failure Number :=
  let p := e.value
  let inexact := a.inexact || e.inexact
  if a.isZero then
    if p < 0 then .error (.eval .zeroToNegativePower)
    else bounded (if p = 0 then 1 else 0) inexact
  else if p.num.natAbs > maxExponent ∧ a.value.abs ≠ 1 then .error (.eval (.exponentTooLarge p))
  else do
    let base ← powerBase a.value p
    if (bitSize base - 1) * p.num.natAbs > maxResultBits then .error (.eval (.powerTooLarge p))
    else bounded (integerPower base p.num) inexact

/-- The exact root if there is one, else the truncated one; the flag says which. -/
def magnitudeRoot (q : Rat) (degree : Int) : Except Fault (Rat × Bool) := do
  match ← Root.exactRoot? q degree with
  | some root => return (root, false)
  | none => return (← Root.truncatedRoot q degree rootDigits, true)

/-- `Number.root`: the root of `a` whose degree is `d`. -/
def root (a d : Number) : Except Failure Number :=
  if !d.isInteger || d.value < 1 then .error (.eval (.rootDegreeInvalid d.value))
  else if d.value.num > maxRootDegree then .error (.eval (.rootDegreeTooLarge d.value))
  else if a.value < 0 ∧ d.value.num % 2 = 0 then .error (.eval (.evenRootOfNegative a.value))
  else do
    let (magnitude, cut) ← guarded (magnitudeRoot a.value.abs d.value.num)
    return ⟨if a.value < 0 then -magnitude else magnitude, cut || a.inexact || d.inexact⟩

end ExactCalc.Number
