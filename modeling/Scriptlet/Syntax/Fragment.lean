import Scriptlet.Syntax.Rules
import Scriptlet.Token.Lexer

/-!
# Fragments

A source text with the tree it reads as. Every text has one; lexical faults are reported before
those of the grammar.
-/

namespace Scriptlet.Syntax

open Token (significantTokens stopOf lexicalReports)

structure Fragment where
  text : String
  unit : SourceUnit
  diagnostics : List Diagnostic
  deriving Repr

def Fragment.parse (text : String) : Fragment :=
  let parsed := parseUnit (stopOf text) (significantTokens text)
  ⟨text, parsed.value, lexicalReports text ++ parsed.reports⟩

def Fragment.isClean (f : Fragment) : Bool := f.diagnostics.isEmpty

end Scriptlet.Syntax
