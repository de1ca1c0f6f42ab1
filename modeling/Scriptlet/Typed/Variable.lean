import Scriptlet.Value

/-!
# Variables
-/

namespace Scriptlet.Typed

structure Variable where
  name : String
  readOnly : Bool
  type : Ty
  deriving DecidableEq, Repr, Inhabited

/-- Where a variable keeps its value. Variables of one name and type share a slot. -/
structure Slot where
  name : String
  type : Ty
  deriving DecidableEq, Repr, Inhabited

namespace Variable

def slot (v : Variable) : Slot := ⟨v.name, v.type⟩

def signature (v : Variable) : String := s!"{v.name}: {v.type.name}"

end Variable

end Scriptlet.Typed
