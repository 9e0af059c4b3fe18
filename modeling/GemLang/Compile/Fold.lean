import GemLang.Number.Parts
import GemLang.Syntax

/-!
# Constant expressions

Arithmetic over number literals can be carried out when a program is compiled. What would fail, or
would not give a finite number, is left to the machine.
-/

namespace GemLang

/-- Carries out an arithmetic operator, unless it divides by zero or the result is not finite. -/
def BinaryOp.compute? (op : BinaryOp) (a b : Float) : Option Float :=
  let result :=
    match op with
    | .add => some (a + b)
    | .sub => some (a - b)
    | .mul => some (a * b)
    | .div => if b == 0 then none else some (a / b)
    | .mod => if b == 0 then none else some (Number.remainder a b)
    | .pow => some (a ^ b)
    | _ => none
  result.filter Float.isFinite

/-- The value of an expression made of number literals, signs and arithmetic operators. -/
def Expr.constant? : Expr → Option Float
  | .number value => some value
  | .unary .negate operand => operand.constant?.map (0 - ·)
  | .binary op left right =>
    match left.constant?, right.constant? with
    | some a, some b => op.compute? a b
    | _, _ => none
  | _ => none

end GemLang
