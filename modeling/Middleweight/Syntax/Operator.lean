/-!
# Operators

Binary, unary, step (`++`, `--`) and assignment operators with their symbols. A binary operator has a
precedence; a higher one binds tighter, and all levels group to the left.
-/

namespace Middleweight

/-- The binary operators. -/
inductive BinaryOp where
  | mul | div | rem | add | sub | shl | shr | ushr | lt | gt | le | ge | eq | ne
  | bitAnd | bitXor | bitOr | and | or
deriving DecidableEq, Inhabited

namespace BinaryOp

def all : List BinaryOp :=
  [mul, div, rem, add, sub, shl, shr, ushr, lt, gt, le, ge, eq, ne, bitAnd, bitXor, bitOr, and, or]

/-- How tight an operator binds. -/
def precedence : BinaryOp → Nat
  | mul | div | rem => 10
  | add | sub => 9
  | shl | shr | ushr => 8
  | lt | gt | le | ge => 7
  | eq | ne => 6
  | bitAnd => 5
  | bitXor => 4
  | bitOr => 3
  | and => 2
  | or => 1

def symbol : BinaryOp → String
  | mul => "*"
  | div => "/"
  | rem => "%"
  | add => "+"
  | sub => "-"
  | shl => "<<"
  | shr => ">>"
  | ushr => ">>>"
  | lt => "<"
  | gt => ">"
  | le => "<="
  | ge => ">="
  | eq => "=="
  | ne => "!="
  | bitAnd => "&"
  | bitXor => "^"
  | bitOr => "|"
  | and => "&&"
  | or => "||"

/-- The operator with a given symbol. -/
def ofSymbol? (s : String) : Option BinaryOp := all.find? fun op => op.symbol = s

theorem ofSymbol?_symbol (op : BinaryOp) : ofSymbol? op.symbol = some op := by
  cases op <;> rfl

end BinaryOp

/-- The operators in front of one operand. -/
inductive UnaryOp where
  | plus | minus | not | bitNot
deriving DecidableEq, Inhabited

namespace UnaryOp

def all : List UnaryOp := [plus, minus, not, bitNot]

def symbol : UnaryOp → String
  | plus => "+"
  | minus => "-"
  | not => "!"
  | bitNot => "~"

/-- The operator with a given symbol. -/
def ofSymbol? (s : String) : Option UnaryOp := all.find? fun op => op.symbol = s

theorem ofSymbol?_symbol (op : UnaryOp) : ofSymbol? op.symbol = some op := by
  cases op <;> rfl

end UnaryOp

/-- The operators that step a variable up or down. -/
inductive StepOp where
  | increment | decrement
deriving DecidableEq, Inhabited

namespace StepOp

def all : List StepOp := [increment, decrement]

def symbol : StepOp → String
  | increment => "++"
  | decrement => "--"

/-- The operator with a given symbol. -/
def ofSymbol? (s : String) : Option StepOp := all.find? fun op => op.symbol = s

theorem ofSymbol?_symbol (op : StepOp) : ofSymbol? op.symbol = some op := by
  cases op <;> rfl

end StepOp

/-- Plain assignment, and assignment of the result of a binary operator. -/
inductive AssignOp where
  | set | add | sub | mul | div | rem | bitAnd | bitOr | bitXor | shl | shr | ushr
deriving DecidableEq, Inhabited

namespace AssignOp

def all : List AssignOp :=
  [set, add, sub, mul, div, rem, bitAnd, bitOr, bitXor, shl, shr, ushr]

/-- The binary operator that a compound assignment applies. -/
def binary? : AssignOp → Option BinaryOp
  | set => none
  | add => some .add
  | sub => some .sub
  | mul => some .mul
  | div => some .div
  | rem => some .rem
  | bitAnd => some .bitAnd
  | bitOr => some .bitOr
  | bitXor => some .bitXor
  | shl => some .shl
  | shr => some .shr
  | ushr => some .ushr

def symbol : AssignOp → String
  | set => "="
  | add => "+="
  | sub => "-="
  | mul => "*="
  | div => "/="
  | rem => "%="
  | bitAnd => "&="
  | bitOr => "|="
  | bitXor => "^="
  | shl => "<<="
  | shr => ">>="
  | ushr => ">>>="

/-- The operator with a given symbol. -/
def ofSymbol? (s : String) : Option AssignOp := all.find? fun op => op.symbol = s

theorem ofSymbol?_symbol (op : AssignOp) : ofSymbol? op.symbol = some op := by
  cases op <;> rfl

end AssignOp

end Middleweight
