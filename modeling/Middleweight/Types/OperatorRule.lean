import Middleweight.Types.Ty
import Middleweight.Syntax.Basic

/-!
# Types of literals, and rules of operators

The type of each literal; which operand types an operator accepts, and the type of its result. Both
operands of a binary operator must be acceptable as the same entry of its rule.
-/

namespace Middleweight

/-- The type of a literal by itself; `null` is an object. -/
def Literal.ty : Literal → Ty
  | .int _ => .int
  | .float _ => .float
  | .bool _ => .boolean
  | .string _ => .string
  | .null => .object

/-! ## Operators -/

/-- The accepted operand types, and the type of the result if it is not the operand type. -/
structure OperatorRule where
  operands : List String
  result : Option String := none
deriving DecidableEq, Inhabited

namespace OperatorRule

/-- The type of the result when the operands were accepted as a given entry. -/
def resultType (r : OperatorRule) (operand : String) : Ty := .named (r.result.getD operand)

/-- The accepted operand types as text. -/
def describe (r : OperatorRule) : String := String.intercalate ", " r.operands

def numeric : List String := [Ty.intName, Ty.floatName]

/-- The rule of `++` and `--`. -/
def step : OperatorRule := { operands := numeric }

/-- The rule of `instanceof`. -/
def instanceOf : OperatorRule := { operands := [Ty.objectName], result := some Ty.booleanName }

end OperatorRule

def BinaryOp.rule : BinaryOp → OperatorRule
  | .add => { operands := [Ty.intName, Ty.floatName, Ty.stringName] }
  | .sub | .mul | .div | .rem => { operands := OperatorRule.numeric }
  | .lt | .gt | .le | .ge | .eq | .ne =>
    { operands := [Ty.objectName], result := some Ty.booleanName }
  | .bitAnd | .bitOr | .bitXor | .shl | .shr | .ushr => { operands := [Ty.intName] }
  | .and | .or => { operands := [Ty.booleanName] }

def UnaryOp.rule : UnaryOp → OperatorRule
  | .plus | .minus => { operands := OperatorRule.numeric }
  | .not => { operands := [Ty.booleanName] }
  | .bitNot => { operands := [Ty.intName] }

end Middleweight
