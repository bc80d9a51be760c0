/-
  ExactCalc.Expr.Evaluation — the value of an expression over a table of variables
  (`Evaluator`; SPEC §4.3).

  Only an assignment that is the whole input changes the table, and only after its
  right-hand side has a value.
-/

import ExactCalc.Expr.Basic
import ExactCalc.Number.Power
import ExactCalc.Variables

namespace ExactCalc.Expr

def applySign (s : Sign) (a : Number) : Except Failure Number :=
  if s = .minus then a.neg else .ok a

def applyOperator : Operator → Number → Number → Except Failure Number
  | .add, a, b => a.add b
  | .sub, a, b => a.sub b
  | .mul, a, b => a.mul b
  | .div, a, b => a.div b
  | .pow, a, b => a.pow b
  | .other symbol, _, _ => .error (.fault (.unknownOperator symbol))

/-- `Evaluator._evaluate`: the value of a part of an input. -/
def value (vars : Variables) : Expr → Except Failure Number
  | literal v => .ok v
  | var name =>
    match vars.get? name with
    | some v => .ok v
    | none => .error (.eval (.undefinedVariable name))
  | signed s e => do applySign s (← e.value vars)
  | binary op l r => do
    let a ← l.value vars
    let b ← r.value vars
    applyOperator op a b
  | root d r => do
    let degree ← d.value vars
    let radicand ← r.value vars
    radicand.root degree
  | assign _ _ => .error (.fault .nestedAssignment)

/-- `Evaluator.evaluate`: the value of a whole input, and the table after it. -/
def evaluate (vars : Variables) : Expr → Except Failure (Number × Variables)
  | assign name e => do
    let v ← e.value vars
    match Variables.set vars name v with
    | .ok vars' => return (v, vars')
    | .error cause => .error (.eval cause)
  | e => do return (← e.value vars, vars)

end ExactCalc.Expr
