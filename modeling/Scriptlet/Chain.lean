import Scriptlet.Binding.Layer
import Scriptlet.Run.Exec
import Scriptlet.Syntax.Fragment

/-!
# Chains of fragments

A fragment may go on where others left off. It runs only if its own text and the binding of the
whole chain are without fault.
-/

namespace Scriptlet

open Binding (Layer)
open Run (Halt Store)
open Syntax (Fragment)

structure Link where
  fragment : Fragment
  layer : Layer
  deriving Repr

/-- Fragments that go on from one another, newest first. -/
abbrev Chain := List Link

structure Evaluation where
  diagnostics : List Diagnostic
  value : Option Value
  deriving DecidableEq, Repr

namespace Link

def after (chain : Chain) (fragment : Fragment) : Link :=
  ⟨fragment, Layer.bind (chain.map (·.layer)) fragment.unit⟩

def diagnostics (l : Link) : List Diagnostic := l.fragment.diagnostics ++ l.layer.diagnostics

/-- Runs a fragment without looking at its diagnostics. -/
def run (limit : Nat) (l : Link) (store : Store) : EStateM.Result Halt Store (Option Value) :=
  Run.run limit l.layer.stmt store

def evaluate (limit : Nat) (l : Link) (store : Store) : EStateM.Result Halt Store Evaluation :=
  if l.diagnostics.isEmpty then
    match l.run limit store with
    | .ok value store => .ok ⟨[], value⟩ store
    | .error halt store => .error halt store
  else .ok ⟨l.diagnostics, none⟩ store

end Link

end Scriptlet
