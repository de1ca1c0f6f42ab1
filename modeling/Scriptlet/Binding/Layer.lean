import Scriptlet.Binding.Basic

/-!
# Layers

What binding a fragment leaves for the next ones: the variables it declares at its top level. Each
fragment is bound in a fresh scope inside those of the fragments before it.
-/

namespace Scriptlet.Binding

open Typed (Variable)

/-- The outcome of binding one fragment; the diagnostics of all earlier ones come first. -/
structure Layer where
  declared : List Variable
  stmt : Typed.Stmt
  diagnostics : List Diagnostic
  deriving Repr

namespace Layer

/-- The scopes that earlier layers, newest first, open for a new fragment. -/
def scopes (history : List Layer) : ScopeStack := history.map fun l => ⟨l.declared⟩

def diagnosticsOf (history : List Layer) : List Diagnostic :=
  history.head?.elim [] (·.diagnostics)

def bind (history : List Layer) (unit : Syntax.SourceUnit) : Layer :=
  let b := bindStmt (scopes history) {} unit.stmt
  ⟨b.scope.declared, b.tree, diagnosticsOf history ++ b.reports⟩

end Layer

end Scriptlet.Binding
