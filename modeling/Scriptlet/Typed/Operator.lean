import Scriptlet.Token.Kind
import Scriptlet.Value

/-!
# Operators

An operator sign stands for an operation only together with the types of its operands. The rows
below are all there is: nothing is converted.
-/

namespace Scriptlet.Typed

open Token (Kind)

inductive UnaryOp
  | identity
  | negation
  | logicalNegation
  deriving DecidableEq, Repr

def UnaryOp.name : UnaryOp → String
  | identity => "Identity"
  | negation => "Negation"
  | logicalNegation => "LogicalNegation"

inductive BinaryOp
  | addition
  | subtraction
  | multiplication
  | division
  | logicalAnd
  | logicalOr
  | bitwiseAnd
  | bitwiseOr
  | bitwiseXor
  | equals
  | notEquals
  | less
  | lessOrEquals
  | greater
  | greaterOrEquals
  deriving DecidableEq, Repr

def BinaryOp.name : BinaryOp → String
  | addition => "Addition"
  | subtraction => "Subtraction"
  | multiplication => "Multiplication"
  | division => "Division"
  | logicalAnd => "LogicalAnd"
  | logicalOr => "LogicalOr"
  | bitwiseAnd => "BitwiseAnd"
  | bitwiseOr => "BitwiseOr"
  | bitwiseXor => "BitwiseXor"
  | equals => "Equals"
  | notEquals => "NotEquals"
  | less => "Less"
  | lessOrEquals => "LessOrEquals"
  | greater => "Greater"
  | greaterOrEquals => "GreaterOrEquals"

structure UnaryRow where
  sign : Kind
  op : UnaryOp
  operand : Ty
  type : Ty
  deriving DecidableEq, Repr

structure BinaryRow where
  sign : Kind
  op : BinaryOp
  lhs : Ty
  rhs : Ty
  type : Ty
  deriving DecidableEq, Repr

namespace UnaryRow

def all : List UnaryRow :=
  [⟨.plus, .identity, .int, .int⟩,
    ⟨.minus, .negation, .int, .int⟩,
    ⟨.bang, .logicalNegation, .bool, .bool⟩]

def find? (sign : Kind) (operand : Ty) : Option UnaryRow :=
  all.find? fun row => row.sign = sign ∧ row.operand = operand

end UnaryRow

namespace BinaryRow

def all : List BinaryRow :=
  [⟨.plus, .addition, .int, .int, .int⟩,
    ⟨.minus, .subtraction, .int, .int, .int⟩,
    ⟨.star, .multiplication, .int, .int, .int⟩,
    ⟨.slash, .division, .int, .int, .int⟩,
    ⟨.eqEq, .equals, .int, .int, .bool⟩,
    ⟨.bangEq, .notEquals, .int, .int, .bool⟩,
    ⟨.amp, .bitwiseAnd, .int, .int, .int⟩,
    ⟨.pipe, .bitwiseOr, .int, .int, .int⟩,
    ⟨.hat, .bitwiseXor, .int, .int, .int⟩,
    ⟨.less, .less, .int, .int, .bool⟩,
    ⟨.lessEq, .lessOrEquals, .int, .int, .bool⟩,
    ⟨.greater, .greater, .int, .int, .bool⟩,
    ⟨.greaterEq, .greaterOrEquals, .int, .int, .bool⟩,
    ⟨.amp, .bitwiseAnd, .bool, .bool, .bool⟩,
    ⟨.ampAmp, .logicalAnd, .bool, .bool, .bool⟩,
    ⟨.pipe, .bitwiseOr, .bool, .bool, .bool⟩,
    ⟨.pipePipe, .logicalOr, .bool, .bool, .bool⟩,
    ⟨.hat, .bitwiseXor, .bool, .bool, .bool⟩,
    ⟨.eqEq, .equals, .bool, .bool, .bool⟩,
    ⟨.bangEq, .notEquals, .bool, .bool, .bool⟩]

def find? (sign : Kind) (lhs rhs : Ty) : Option BinaryRow :=
  all.find? fun row => row.sign = sign ∧ row.lhs = lhs ∧ row.rhs = rhs

end BinaryRow

end Scriptlet.Typed
