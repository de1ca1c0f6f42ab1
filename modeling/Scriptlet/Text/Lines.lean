import Scriptlet.Text.Span

/-!
# Line map

Turns byte offsets of a text into lines and columns. Offsets count bytes, columns count characters,
and a line is shown without its line break and without the carriage returns before it.
-/

namespace Scriptlet.Text

/-- Where `n` stands among increasing numbers (`ok`), or where it would have to be put (`error`). -/
def search (n : Nat) : List Nat → Except Nat Nat
  | [] => .error 0
  | m :: ms =>
    if n < m then .error 0
    else if n = m then .ok 0
    else match search n ms with
      | .ok i => .ok (i + 1)
      | .error i => .error (i + 1)

structure LineMap where
  chars : List Char
  starts : List Nat
  deriving Repr

namespace LineMap

def startsAfter (pos : Nat) : List Char → List Nat
  | [] => []
  | c :: cs =>
    let next := pos + c.utf8Size
    if c = '\n' then next :: startsAfter next cs else startsAfter next cs

def ofChars (cs : List Char) : LineMap := ⟨cs, 0 :: startsAfter 0 cs⟩

def ofText (text : String) : LineMap := ofChars text.toList

def lineCount (m : LineMap) : Nat := m.starts.length

/-- The line that holds offset `pos`, counted from zero; offsets past the end are on the last. -/
def lineIndex (m : LineMap) (pos : Nat) : Nat :=
  match search pos m.starts with
  | .ok line => line
  | .error next => next - 1

def dropTrailingReturns (cs : List Char) : List Char :=
  (cs.reverse.dropWhile (· == '\r')).reverse

def line? (m : LineMap) (i : Nat) : Option (List Char) := do
  let start ← m.starts[i]?
  let stop := (m.starts[i + 1]?).elim (byteLength m.chars) (· - 1)
  let cs ← slice? start stop m.chars
  return dropTrailingReturns cs

def position? (m : LineMap) (pos : Nat) : Option (Nat × Nat) := do
  let i := m.lineIndex pos
  let start ← m.starts[i]?
  let before ← slice? start pos m.chars
  return (i + 1, before.length + 1)

structure Cut where
  before : List Char
  covered : List Char
  after : List Char
  deriving DecidableEq, Repr

/-- Cuts the line on which a span starts at the span's ends, both clipped to the line. -/
def cut? (m : LineMap) (s : Span) : Option Cut := do
  let i := m.lineIndex s.pos
  let start ← m.starts[i]?
  let cs ← m.line? i
  let lo := min (s.pos - start) (byteLength cs)
  let hi := min (max (s.stop - start) lo) (byteLength cs)
  let (before, rest) ← splitAt? lo cs
  let (covered, after) ← splitAt? (hi - lo) rest
  return ⟨before, covered, after⟩

end LineMap

end Scriptlet.Text
