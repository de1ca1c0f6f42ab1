import Scriptlet.Text.Alphabetic
import Scriptlet.Text.Span
import Scriptlet.Text.Whitespace

/-!
# Runs of characters

The coarsest cut of a text: white space, digits and letters form runs as long as possible, every
other character stands alone. Runs know nothing of keywords, values or two-character operators.
-/

namespace Scriptlet.Token

open Text (isWhitespace isAlphabetic byteLength)

inductive CharClass
  | whitespace
  | letter
  | digit
  | plus
  | minus
  | star
  | slash
  | openParen
  | closeParen
  | openBrace
  | closeBrace
  | and
  | or
  | caret
  | eq
  | bang
  | lt
  | gt
  | unknown
  deriving DecidableEq, Repr

namespace CharClass

/-- White space is tried first, then the ASCII digits, then letters, then punctuation. -/
def ofChar (c : Char) : CharClass :=
  if isWhitespace c then .whitespace
  else if c.isDigit then .digit
  else if isAlphabetic c then .letter
  else match c with
    | '+' => .plus
    | '-' => .minus
    | '*' => .star
    | '/' => .slash
    | '(' => .openParen
    | ')' => .closeParen
    | '\x7b' => .openBrace
    | '\x7d' => .closeBrace
    | '&' => .and
    | '|' => .or
    | '^' => .caret
    | '=' => .eq
    | '!' => .bang
    | '<' => .lt
    | '>' => .gt
    | _ => .unknown

def continues : CharClass → Char → Bool
  | .whitespace, c => isWhitespace c
  | .digit, c => c.isDigit
  | .letter, c => isAlphabetic c
  | _, _ => false

end CharClass

structure Run where
  cls : CharClass
  chars : List Char
  deriving DecidableEq, Repr

namespace Run

/-- Length in bytes, which wraps like the length of a span. -/
def len (r : Run) : Nat := byteLength r.chars % Span.lengthBound

def read (c : Char) (cs : List Char) : Run × List Char :=
  let cls := CharClass.ofChar c
  (⟨cls, c :: cs.takeWhile cls.continues⟩, cs.dropWhile cls.continues)

/-- A run and what follows it make up the text. -/
theorem chars_append_read (c : Char) (cs : List Char) :
    (read c cs).1.chars ++ (read c cs).2 = c :: cs := by
  simp [read]

theorem length_read_le (c : Char) (cs : List Char) : (read c cs).2.length ≤ cs.length :=
  (List.dropWhile_suffix _).length_le

def next? : List Char → Option (Run × List Char)
  | [] => none
  | c :: cs => some (read c cs)

def all : List Char → List Run
  | [] => []
  | c :: cs => (read c cs).1 :: all (read c cs).2
termination_by cs => cs.length
decreasing_by exact Nat.lt_succ_of_le (length_read_le c cs)

end Run

end Scriptlet.Token
