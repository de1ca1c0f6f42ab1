import Scriptlet.Typed.Operator
import Scriptlet.Typed.Variable

/-!
# What operators compute

Arithmetic wraps, division rounds toward zero, and dividing by zero ends the run. Operators meet
only values of their operand types in a tree without faults; elsewhere they can get stuck.
-/

namespace Scriptlet.Run

open Typed (Variable UnaryOp BinaryOp)

inductive Stuck
  | unassigned (v : Variable)
  | notInt (value : Value)
  | notBool (value : Value)
  | mixed (op : BinaryOp) (lhs rhs : Value)
  deriving DecidableEq, Repr

def Stuck.message : Stuck → String
  | unassigned v => s!"read of unassigned variable '{v.signature}'"
  | notInt value => s!"expected Int value, found {value.text}"
  | notBool value => s!"expected Bool value, found {value.text}"
  | mixed op lhs rhs => s!"{op.name} on {lhs.text} and {rhs.text}"

inductive Halt
  | divisionByZero (dividend : Int32)
  | stuck (cause : Stuck)
  /-- A loop was stopped at the limit of its rounds. -/
  | cutOff
  deriving DecidableEq, Repr

def divisionMessage (dividend : Int32) : String :=
  s!"attempt to divide {dividend.toInt} by zero"

def asInt : Value → Except Halt Int32
  | .int n => .ok n
  | v => .error (.stuck (.notInt v))

def asBool : Value → Except Halt Bool
  | .bool b => .ok b
  | v => .error (.stuck (.notBool v))

def applyUnary (op : UnaryOp) (v : Value) : Except Halt Value :=
  match op with
  | .identity => return .int (← asInt v)
  | .negation => return .int (-(← asInt v))
  | .logicalNegation => return .bool (!(← asBool v))

/-- An operation on integers; the left operand is looked at first. -/
def onInts (f : Int32 → Int32 → Value) (lhs rhs : Value) : Except Halt Value := do
  let a ← asInt lhs
  let b ← asInt rhs
  return f a b

def divide (lhs rhs : Value) : Except Halt Value := do
  let a ← asInt lhs
  let b ← asInt rhs
  if b = 0 then throw (.divisionByZero a) else return .int (a / b)

/-- A bitwise operation takes its meaning from the values, which have to be of one type. -/
def bitwise (op : BinaryOp) (ints : Int32 → Int32 → Int32) (bools : Bool → Bool → Bool) :
    Value → Value → Except Halt Value
  | .int a, .int b => .ok (.int (ints a b))
  | .bool a, .bool b => .ok (.bool (bools a b))
  | lhs, rhs => .error (.stuck (.mixed op lhs rhs))

/-- Both operands have been evaluated, but the right one of `&&` and `||` is looked at only where
the left one does not decide. -/
def applyBinary (op : BinaryOp) (lhs rhs : Value) : Except Halt Value :=
  match op with
  | .addition => onInts (fun a b => .int (a + b)) lhs rhs
  | .subtraction => onInts (fun a b => .int (a - b)) lhs rhs
  | .multiplication => onInts (fun a b => .int (a * b)) lhs rhs
  | .division => divide lhs rhs
  | .logicalAnd => do if ← asBool lhs then return .bool (← asBool rhs) else return .bool false
  | .logicalOr => do if ← asBool lhs then return .bool true else return .bool (← asBool rhs)
  | .bitwiseAnd => bitwise op (· &&& ·) (· && ·) lhs rhs
  | .bitwiseOr => bitwise op (· ||| ·) (· || ·) lhs rhs
  | .bitwiseXor => bitwise op (· ^^^ ·) (· ^^ ·) lhs rhs
  | .equals => return .bool (lhs = rhs)
  | .notEquals => return .bool (lhs ≠ rhs)
  | .less => onInts (fun a b => .bool (a < b)) lhs rhs
  | .lessOrEquals => onInts (fun a b => .bool (a ≤ b)) lhs rhs
  | .greater => onInts (fun a b => .bool (b < a)) lhs rhs
  | .greaterOrEquals => onInts (fun a b => .bool (b ≤ a)) lhs rhs

end Scriptlet.Run
