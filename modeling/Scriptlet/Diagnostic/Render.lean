import Scriptlet.Diagnostic.Basic
import Scriptlet.Text.Lines

/-!
# Rendered diagnostics

Each diagnostic takes three lines: its position and message, the line of source on which it starts,
and a marker below the covered part. A span that does not fit the text cannot be shown.
-/

namespace Scriptlet

open Text (LineMap)

namespace Diagnostic

def margin : String := "    "

/-- The marker for `n` covered characters after `k` others; an empty span still gets one mark. -/
def marker (k n : Nat) : String :=
  String.ofList (List.replicate k ' ' ++ List.replicate (max n 1) '^')

def render? (m : LineMap) (d : Diagnostic) : Option String := do
  let (line, column) ← m.position? d.span.pos
  let cut ← m.cut? d.span
  let source := String.ofList (cut.before ++ cut.covered ++ cut.after)
  let marks := marker cut.before.length cut.covered.length
  return s!"({line}, {column}): {d.message}\n{margin}{source}\n{margin}{marks}\n"

def renderAll? (text : String) (ds : List Diagnostic) : Option String := do
  let parts ← ds.mapM (render? (LineMap.ofText text))
  return String.join parts

end Diagnostic

end Scriptlet
