/-!
# Outlines

A labelled tree and its drawing with box characters, one line for each node.
-/

namespace Scriptlet

inductive Outline
  | node (label : String) (children : List Outline)
  deriving Repr

namespace Outline

def mark (last : Bool) : String := if last then "└──" else "├──"

def inset (last : Bool) : String := if last then "    " else "│   "

mutual

def lines (indent : String) (last : Bool) : Outline → List String
  | node label children =>
    (indent ++ mark last ++ label) :: linesAll (indent ++ inset last) children

def linesAll (indent : String) : List Outline → List String
  | [] => []
  | o :: os => lines indent os.isEmpty o ++ linesAll indent os

end

def draw (o : Outline) : String := String.join ((lines "" true o).map (· ++ "\n"))

end Outline

end Scriptlet
