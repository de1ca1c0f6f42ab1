import Scriptlet.Typed.Variable

/-!
# Scopes

A scope holds the variables declared directly in it, in the order of their declarations, and no
two of one name. Names are looked up from the innermost scope outwards.
-/

namespace Scriptlet

open Typed (Variable)

structure Scope where
  declared : List Variable := []
  deriving DecidableEq, Repr, Inhabited

namespace Scope

def find? (s : Scope) (name : String) : Option Variable :=
  s.declared.find? fun v => v.name = name

def declare? (s : Scope) (v : Variable) : Option Scope :=
  match s.find? v.name with
  | some _ => none
  | none => some ⟨s.declared ++ [v]⟩

end Scope

/-- Nested scopes, innermost first. -/
abbrev ScopeStack := List Scope

namespace ScopeStack

def find? (stack : ScopeStack) (name : String) : Option Variable :=
  stack.findSome? fun s => s.find? name

def enter (stack : ScopeStack) : ScopeStack := {} :: stack

def exit? : ScopeStack → Option (Scope × ScopeStack)
  | [] => none
  | s :: stack => some (s, stack)

inductive Declaration
  | added (stack : ScopeStack)
  | duplicate
  | outside
  deriving DecidableEq, Repr

def declare (stack : ScopeStack) (v : Variable) : Declaration :=
  match stack with
  | [] => .outside
  | s :: outer =>
    match s.declare? v with
    | some s => .added (s :: outer)
    | none => .duplicate

def outsideMessage (v : Variable) : String := s!"declaration of '{v.name}' outside of any scope"

end ScopeStack

end Scriptlet
