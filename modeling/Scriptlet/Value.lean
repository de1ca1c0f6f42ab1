/-!
# Types and values

There are two types. Integers are 32-bit words in two's complement; arithmetic on them wraps.
-/

namespace Scriptlet

inductive Ty
  | int
  | bool
  deriving DecidableEq, Repr, Inhabited

def Ty.name : Ty → String
  | .int => "Int"
  | .bool => "Bool"

inductive Value
  | int (n : Int32)
  | bool (b : Bool)
  deriving DecidableEq, Repr, Inhabited

namespace Value

def type : Value → Ty
  | .int _ => .int
  | .bool _ => .bool

def text : Value → String
  | .int n => toString n.toInt
  | .bool true => "true"
  | .bool false => "false"

end Value

end Scriptlet
