import Middleweight.Engine.Value
import Middleweight.Syntax.Operator

/-!
# Operators on values

Integers are 64 bits wide and wrap around; division and remainder round to the floor; shifts use the
low six bits of their right operand. Strings are ordered by code points. Operands are never converted,
and `&&` and `||` take two values that are already there.
-/

namespace Middleweight

/-- Why an operator has no result. -/
inductive OperatorError (F : Type) where
  | divisionByZero
  | binary (op : BinaryOp) (lhs rhs : Value F)
  | unary (op : UnaryOp) (operand : Value F)
  | step (operand : Value F)

def OperatorError.message {F : Type} : OperatorError F → String
  | divisionByZero => "Integer division by zero"
  | binary op lhs rhs =>
    "Operator '" ++ op.symbol ++ "' can't be applied to " ++ lhs.shown ++ " and " ++ rhs.shown
  | unary op operand => "Operator '" ++ op.symbol ++ "' can't be applied to " ++ operand.shown
  | step operand => "Can't increment or decrement " ++ operand.shown

/-! ## Integers and floats -/

/-- The quotient rounded to the floor, for a divisor other than zero. -/
def floorDiv (a b : Int64) : Int64 :=
  let q := a / b
  if a % b ≠ 0 ∧ (decide (a < 0) ≠ decide (b < 0)) then q - 1 else q

/-- The remainder that goes with `floorDiv`: zero or of the sign of the divisor. -/
def floorRem (a b : Int64) : Int64 :=
  let r := a % b
  if r ≠ 0 ∧ (decide (r < 0) ≠ decide (b < 0)) then r + b else r

/-- The remainder of floats that goes with the quotient rounded to the floor. -/
def floatRem (a b : Float) : Float := a - b * (a / b).floor

/-- Shift to the right that fills with zeros. -/
def logicalShiftRight (a b : Int64) : Int64 := (a.toUInt64 >>> (b.toUInt64 &&& 63)).toInt64

namespace BinaryOp

variable {F : Type}

/-- An operator on two integers. -/
def onInts : BinaryOp → Int64 → Int64 → Option (Except (OperatorError F) (Value F))
  | add, a, b => some (.ok (.int (a + b)))
  | sub, a, b => some (.ok (.int (a - b)))
  | mul, a, b => some (.ok (.int (a * b)))
  | div, a, b => some (if b = 0 then .error .divisionByZero else .ok (.int (floorDiv a b)))
  | rem, a, b => some (if b = 0 then .error .divisionByZero else .ok (.int (floorRem a b)))
  | lt, a, b => some (.ok (.bool (a < b)))
  | gt, a, b => some (.ok (.bool (b < a)))
  | le, a, b => some (.ok (.bool (a ≤ b)))
  | ge, a, b => some (.ok (.bool (b ≤ a)))
  | bitAnd, a, b => some (.ok (.int (a &&& b)))
  | bitOr, a, b => some (.ok (.int (a ||| b)))
  | bitXor, a, b => some (.ok (.int (a ^^^ b)))
  | shl, a, b => some (.ok (.int (a <<< (b &&& 63))))
  | shr, a, b => some (.ok (.int (a >>> (b &&& 63))))
  | ushr, a, b => some (.ok (.int (logicalShiftRight a b)))
  | _, _, _ => none

/-- An operator on two floats. -/
def onFloats : BinaryOp → Float → Float → Option (Value F)
  | add, a, b => some (.float (a + b))
  | sub, a, b => some (.float (a - b))
  | mul, a, b => some (.float (a * b))
  | div, a, b => some (.float (a / b))
  | rem, a, b => some (.float (floatRem a b))
  | lt, a, b => some (.bool (a < b))
  | gt, a, b => some (.bool (b < a))
  | le, a, b => some (.bool (a ≤ b))
  | ge, a, b => some (.bool (b ≤ a))
  | _, _, _ => none

/-- An operator on two strings. -/
def onStrings : BinaryOp → String → String → Option (Value F)
  | add, a, b => some (.str (a ++ b))
  | lt, a, b => some (.bool (a < b))
  | gt, a, b => some (.bool (b < a))
  | le, a, b => some (.bool (¬ b < a))
  | ge, a, b => some (.bool (¬ a < b))
  | _, _, _ => none

/-- An operator on two truth values. -/
def onBools : BinaryOp → Bool → Bool → Option (Value F)
  | and, a, b => some (.bool (a && b))
  | or, a, b => some (.bool (a || b))
  | _, _, _ => none

/-- An operator other than `==` and `!=` on values of one kind. -/
def onValues (op : BinaryOp) : Value F → Value F → Option (Except (OperatorError F) (Value F))
  | .int a, .int b => op.onInts a b
  | .float a, .float b => (op.onFloats a b).map .ok
  | .str a, .str b => (op.onStrings a b).map .ok
  | .bool a, .bool b => (op.onBools a b).map .ok
  | _, _ => none

/-- The result of a binary operator. -/
def apply (op : BinaryOp) (lhs rhs : Value F) : Except (OperatorError F) (Value F) :=
  match op with
  | eq => .ok (.bool (lhs.equals rhs))
  | ne => .ok (.bool (!lhs.equals rhs))
  | op => (op.onValues lhs rhs).getD (.error (.binary op lhs rhs))

end BinaryOp

/-- The result of a unary operator. -/
def UnaryOp.apply {F : Type} (op : UnaryOp) (operand : Value F) :
    Except (OperatorError F) (Value F) :=
  match op, operand with
  | .plus, .int a => .ok (.int a)
  | .plus, .float a => .ok (.float a)
  | .minus, .int a => .ok (.int (-a))
  | .minus, .float a => .ok (.float (-a))
  | .not, .bool a => .ok (.bool (!a))
  | .bitNot, .int a => .ok (.int (~~~a))
  | op, operand => .error (.unary op operand)

/-- The result of stepping a value up or down. -/
def StepOp.apply {F : Type} (op : StepOp) (value : Value F) : Except (OperatorError F) (Value F) :=
  match op, value with
  | .increment, .int a => .ok (.int (a + 1))
  | .decrement, .int a => .ok (.int (a - 1))
  | .increment, .float a => .ok (.float (a + 1.0))
  | .decrement, .float a => .ok (.float (a + -1.0))
  | _, value => .error (.step value)

end Middleweight
