/-
  ExactCalc.Proofs.Expr.Spelling — trees as their text spells them (see
  `ExactCalc.Expr.Basic`).

  A text has no literals but decimal numerals, so in the tree that it stands for a
  fraction is a quotient and a negative integer a negation (`spelled`). Where all
  numerals are as short as literals have to be, that makes no difference to the value
  (`value_spelled`): what is taken apart fits, so it can be put together again.
-/

import ExactCalc.Proofs.Expr.Size
import ExactCalc.Proofs.Expr.Lexemes

namespace ExactCalc

/-- Numerator and denominator have numerals that a literal may have. -/
structure Number.Short (v : Number) : Prop where
  num : (Digits.ofNat v.value.num.natAbs).length ≤ maxLiteralDigits
  den : (Digits.ofNat v.value.den).length ≤ maxLiteralDigits

namespace Expr

open Token (IsWord)

/-! ## Trees that can be written -/

/-- Built from exact literals, names that are one identifier and no root word, signs and operators
that have a meaning, and roots. -/
inductive Writable : Expr → Prop
  | literal {v : Number} : v.inexact = false → Writable (.literal v)
  | var {name : String} : IsWord name.toList → name ≠ "sqrt" → name ≠ "root" → Writable (.var name)
  | signed {s : Sign} {e : Expr} : (∀ symbol, s ≠ .other symbol) → Writable e → Writable (.signed s e)
  | binary {op : Operator} {l r : Expr} : (∀ symbol, op ≠ .other symbol) → Writable l → Writable r →
    Writable (.binary op l r)
  | root {d r : Expr} : Writable d → Writable r → Writable (.root d r)

/-- Such a tree, or the assignment of one to an identifier. -/
inductive WritableInput : Expr → Prop
  | value {e : Expr} : Writable e → WritableInput e
  | assign {name : String} {e : Expr} : IsWord name.toList → Writable e →
    WritableInput (.assign name e)

/-- Every literal is short. -/
def Short : Expr → Prop
  | literal v => v.Short
  | var _ => True
  | signed _ e => e.Short
  | binary _ l r => l.Short ∧ r.Short
  | root d r => d.Short ∧ r.Short
  | assign _ e => e.Short

/-- An integer without negative literals. -/
def integral (i : Int) : Expr :=
  if i < 0 then .signed .minus (.literal (.exact (i.natAbs : Nat)))
  else .literal (.exact (i.natAbs : Nat))

/-- The tree with quotients in place of fractions and negations in place of negative literals. -/
def spelled : Expr → Expr
  | literal v =>
    if v.isInteger then integral v.value.num
    else .binary .div (integral v.value.num) (.literal (.exact (v.value.den : Nat)))
  | var name => .var name
  | signed s e => .signed s e.spelled
  | binary op l r => .binary op l.spelled r.spelled
  | root d r => .root d.spelled r.spelled
  | assign name e => .assign name e.spelled

theorem isInteger_exact (i : Int) : (Number.exact i).isInteger = true := beq_iff_eq.mpr rfl

theorem integral_natCast (n : Nat) : integral n = literal (.exact (n : Nat)) := by
  unfold integral
  rw [if_neg (by omega), Int.natAbs_natCast]

theorem spelled_integer (i : Int) : (literal (.exact i)).spelled = integral i := by
  unfold spelled
  rw [if_pos (isInteger_exact i)]
  rfl

theorem exact_of_isInteger {v : Number} (hv : v.inexact = false) (hint : v.isInteger = true) :
    v = .exact v.value.num := by
  obtain ⟨q, inexact⟩ := v
  obtain rfl : inexact = false := hv
  exact congrArg Number.exact (Rat.coe_int_num_of_den_eq_one (beq_iff_eq.mp hint)).symm

theorem depth_integral_le (i : Int) : (integral i).depth ≤ 2 := by
  unfold integral
  split
  · exact Nat.le_refl 2
  · exact Nat.le_succ 1

theorem depth_spelled_le (e : Expr) : e.spelled.depth ≤ e.depth + 2 := by
  induction e with
  | literal v =>
    have := depth_integral_le v.value.num
    unfold spelled
    split
    · exact Nat.le_succ_of_le this
    · simp only [depth]
      omega
  | var name => exact Nat.le_add_right 1 2
  | signed s e ih => simp only [spelled, depth]; omega
  | binary op l r ihl ihr => simp only [spelled, depth]; omega
  | root d r ihd ihr => simp only [spelled, depth]; omega
  | assign name e ih => exact ih

/-! ## Values -/

theorem lt_of_short {n : Nat} (h : (Digits.ofNat n).length ≤ maxLiteralDigits) :
    n < 2 ^ maxResultBits := by
  have hdigits : ∀ c ∈ Digits.ofNat n, c.isDigit = true := fun _ => Digits.isDigit_of_mem_ofNat
  have hlt := Number.ofDigitChars_lt hdigits 0
  rw [Digits.ofDigitChars_ofNat, Nat.zero_add, Nat.mul_one] at hlt
  exact hlt.trans (Number.ten_pow_lt h)

theorem short_one : (Digits.ofNat 1).length ≤ maxLiteralDigits := by decide +kernel

theorem bounded_of_short {v : Number} (h : v.Short) (inexact : Bool) :
    Number.bounded v.value inexact = .ok ⟨v.value, inexact⟩ :=
  if_neg (Nat.not_lt.mpr (bitSize_le_iff.mpr ⟨lt_of_short h.num, lt_of_short h.den⟩))

theorem value_integral {i : Int} (h : (Digits.ofNat i.natAbs).length ≤ maxLiteralDigits)
    (vars : Variables) : (integral i).value vars = .ok (.exact i) := by
  unfold integral
  split
  · rename_i hneg
    have hi : -((i.natAbs : Nat) : Rat) = i := by
      have : (i : Rat) = ((-(i.natAbs : Int) : Int) : Rat) := congrArg _ (by omega)
      rw [this, Int.cast_neg, Int.cast_natCast]
    show Number.bounded (-((i.natAbs : Nat) : Rat)) false = _
    rw [hi]
    exact bounded_of_short (v := .exact i) ⟨h, short_one⟩ false
  · rename_i hneg
    have hi : ((i.natAbs : Nat) : Rat) = i := by
      have : (i : Rat) = ((i.natAbs : Int) : Rat) := congrArg _ (by omega)
      rw [this, Int.cast_natCast]
    rw [hi]
    rfl

theorem value_spelled_literal {v : Number} (hv : v.inexact = false) (hs : v.Short)
    (vars : Variables) : (literal v).spelled.value vars = .ok v := by
  obtain ⟨q, inexact⟩ := v
  obtain rfl : inexact = false := hv
  have hnum := value_integral hs.num vars
  unfold spelled
  split
  · rename_i hint
    have hq : (q.num : Rat) = q := Rat.coe_int_num_of_den_eq_one (beq_iff_eq.mp hint)
    rw [hnum]
    exact congrArg (fun q => Except.ok (Number.exact q)) hq
  · refine bind_of_ok hnum (bind_of_ok rfl ?_)
    have hzero : ¬ (Number.exact (q.den : Nat)).isZero = true := by
      simp [Number.isZero, Number.exact]
    show Number.div _ _ = _
    unfold Number.div
    rw [if_neg hzero]
    show Number.bounded ((q.num : Rat) / (q.den : Nat)) false = _
    rw [Rat.num_div_den]
    exact bounded_of_short hs false

/-- A tree has the same value as it is spelled. -/
theorem value_spelled {e : Expr} (he : Writable e) (hs : e.Short) (vars : Variables) :
    e.spelled.value vars = e.value vars := by
  induction he with
  | literal hexact => exact value_spelled_literal hexact hs vars
  | var => rfl
  | signed _ _ ih =>
    unfold spelled value
    rw [ih hs]
  | binary _ _ _ ihl ihr =>
    unfold spelled value
    rw [ihl hs.1, ihr hs.2]
  | root _ _ ihd ihr =>
    unfold spelled value
    rw [ihd hs.1, ihr hs.2]

theorem not_isAssignment_of_writable {e : Expr} (he : Writable e) : ¬ e.IsAssignment := by
  cases he <;> exact id

theorem not_isAssignment_integral (i : Int) : ¬ (integral i).IsAssignment := by
  unfold integral
  split
  · exact id
  · exact id

theorem not_isAssignment_spelled {e : Expr} (he : Writable e) : ¬ e.spelled.IsAssignment := by
  cases he with
  | literal =>
    unfold spelled
    split
    · exact not_isAssignment_integral _
    · exact id
  | _ => exact id

/-- An input comes to the same as it is spelled. -/
theorem evaluate_spelled {e : Expr} (he : WritableInput e) (hs : e.Short) (vars : Variables) :
    evaluate vars e.spelled = evaluate vars e := by
  cases he with
  | value he =>
    rw [evaluate_eq_of_not_isAssignment (not_isAssignment_spelled he),
      evaluate_eq_of_not_isAssignment (not_isAssignment_of_writable he), value_spelled he hs]
  | @assign name right _ he =>
    show (right.spelled.value vars >>= _) = (right.value vars >>= _)
    rw [value_spelled he hs]

end Expr

end ExactCalc
