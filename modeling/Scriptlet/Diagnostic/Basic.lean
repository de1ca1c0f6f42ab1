import Scriptlet.Text.Span

/-!
# Diagnostics

What can be wrong with a source text, where, and how it is said.
-/

namespace Scriptlet

/-- The faults a text can have. Token kinds and types are given by the names users see. -/
inductive Fault
  | badCharacter (ch : Char)
  | invalidNumber (text type : String)
  | unexpectedToken (actual expected : String)
  | undefinedName (name : String)
  | alreadyDeclared (name : String)
  | cannotConvert (source target : String)
  | cannotAssign (name : String)
  | undefinedUnary (op operand : String)
  | undefinedBinary (op lhs rhs : String)
  deriving DecidableEq, Repr

def Fault.message : Fault → String
  | .badCharacter ch => s!"bad character input: '{ch}'"
  | .invalidNumber text type => s!"invalid integral constant '{text}' for type {type}"
  | .unexpectedToken actual expected => s!"unexpected token <{actual}>, expected <{expected}>"
  | .undefinedName name => s!"undefined name '{name}'"
  | .alreadyDeclared name => s!"variable '{name}' is already declared"
  | .cannotConvert source target => s!"cannot convert type '{source}' to '{target}'"
  | .cannotAssign name => s!"variable '{name}' is read-only and cannot be assigned to"
  | .undefinedUnary op operand => s!"unary operator '{op}' is not defined for type '{operand}'"
  | .undefinedBinary op lhs rhs =>
    s!"binary operator '{op}' is not defined for types '{lhs}' and '{rhs}'"

structure Diagnostic where
  span : Span
  fault : Fault
  deriving DecidableEq, Repr

namespace Diagnostic

def message (d : Diagnostic) : String := d.fault.message

def summary (d : Diagnostic) : String := s!"{d.message} (at {d.span.pos} to {d.span.stop})"

def badCharacter (pos : Nat) (ch : Char) : Diagnostic := ⟨⟨pos, ch.utf8Size⟩, .badCharacter ch⟩

end Diagnostic

end Scriptlet
