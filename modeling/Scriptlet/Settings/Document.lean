/-!
# Settings documents

The part of TOML that settings are written in: top-level keys with strings and truth values, in any
of the four kinds of strings, and comments. Every other document is refused, since nothing in
settings is a number, a date, a list or a table.
-/

namespace Scriptlet.Settings

inductive Scalar
  | string (s : String)
  | boolean (b : Bool)
  deriving DecidableEq, Repr

namespace Document

/-- A carriage return counts only as a part of a line break. -/
def joinLineBreaks : List Char → List Char
  | '\r' :: '\n' :: cs => '\n' :: joinLineBreaks cs
  | c :: cs => c :: joinLineBreaks cs
  | [] => []

def isSpace (c : Char) : Bool := c == ' ' || c == '\t'

def isBareKey (c : Char) : Bool := c.isAlphanum || c == '_' || c == '-'

/-- What may stand in a comment or for itself in a string: all but control characters; a tab may. -/
def isText (c : Char) : Bool := c == '\t' || (' ' ≤ c && c != '\x7f')

/-! ## Strings

Each reader starts after the opening delimiter and gives the contents and what follows the closing
one. -/

def hexDigit? (c : Char) : Option Nat :=
  if c.isDigit then some (c.toNat - '0'.toNat)
  else if 'a' ≤ c ∧ c ≤ 'f' then some (c.toNat - 'a'.toNat + 10)
  else if 'A' ≤ c ∧ c ≤ 'F' then some (c.toNat - 'A'.toNat + 10)
  else none

def codePoint? (digits : List Char) : Option Char := do
  let n ← digits.foldlM (fun n d => return 16 * n + (← hexDigit? d)) 0
  if h : n.isValidChar then return Char.ofNatAux n h else none

def escaped? : Char → Option Char
  | 'b' => some '\x08'
  | 't' => some '\t'
  | 'n' => some '\n'
  | 'f' => some '\x0c'
  | 'r' => some '\r'
  | '\x22' => some '\x22'
  | '\x5c' => some '\x5c'
  | _ => none

abbrev Contents := Option (List Char × List Char)

def Contents.push (c : Char) : Contents → Contents := Option.map fun (cs, rest) => (c :: cs, rest)

def basic : List Char → Contents
  | '\x22' :: cs => some ([], cs)
  | '\x5c' :: 'u' :: a :: b :: c :: d :: cs => do (basic cs).push (← codePoint? [a, b, c, d])
  | '\x5c' :: 'U' :: a :: b :: c :: d :: e :: f :: g :: h :: cs => do
    (basic cs).push (← codePoint? [a, b, c, d, e, f, g, h])
  | '\x5c' :: c :: cs => do (basic cs).push (← escaped? c)
  | c :: cs => if isText c && c != '\x5c' then (basic cs).push c else none
  | [] => none

def literal : List Char → Contents
  | '\x27' :: cs => some ([], cs)
  | c :: cs => if isText c then (literal cs).push c else none
  | [] => none

def lineEnds (cs : List Char) : Bool := (cs.dropWhile isSpace).head? == some '\n'

/-- Three quotes end the string; one or two more before them belong to it. A backslash at the end
of a line joins it to the next text: all spaces and line breaks up to it are skipped. -/
def multiBasic (skipping : Bool) : List Char → Contents
  | [] => none
  | c :: cs =>
    if skipping && (isSpace c || c == '\n') then multiBasic true cs
    else match c, cs with
      | '\x22', '\x22' :: '\x22' :: '\x22' :: '\x22' :: cs => some (['\x22', '\x22'], cs)
      | '\x22', '\x22' :: '\x22' :: '\x22' :: cs => some (['\x22'], cs)
      | '\x22', '\x22' :: '\x22' :: cs => some ([], cs)
      | '\x5c', 'u' :: a :: b :: c :: d :: cs => do
        (multiBasic false cs).push (← codePoint? [a, b, c, d])
      | '\x5c', 'U' :: a :: b :: c :: d :: e :: f :: g :: h :: cs => do
        (multiBasic false cs).push (← codePoint? [a, b, c, d, e, f, g, h])
      | '\x5c', c :: cs =>
        if lineEnds (c :: cs) then multiBasic true (c :: cs)
        else do (multiBasic false cs).push (← escaped? c)
      | c, cs =>
        if c == '\n' || (isText c && c != '\x5c') then (multiBasic false cs).push c else none

def multiLiteral : List Char → Contents
  | '\x27' :: '\x27' :: '\x27' :: '\x27' :: '\x27' :: cs => some (['\x27', '\x27'], cs)
  | '\x27' :: '\x27' :: '\x27' :: '\x27' :: cs => some (['\x27'], cs)
  | '\x27' :: '\x27' :: '\x27' :: cs => some ([], cs)
  | c :: cs => if c == '\n' || isText c then (multiLiteral cs).push c else none
  | [] => none

/-! ## Keys and values -/

/-- A line break right after the opening delimiter is not part of the string. -/
def dropFirstBreak : List Char → List Char
  | '\n' :: cs => cs
  | cs => cs

def key? : List Char → Option (String × List Char)
  | '\x22' :: cs => do let (k, rest) ← basic cs; return (String.ofList k, rest)
  | '\x27' :: cs => do let (k, rest) ← literal cs; return (String.ofList k, rest)
  | cs =>
    let k := cs.takeWhile isBareKey
    if k.isEmpty then none else some (String.ofList k, cs.dropWhile isBareKey)

def asString : Contents → Option (Scalar × List Char) :=
  Option.map fun (cs, rest) => (.string (String.ofList cs), rest)

def value? : List Char → Option (Scalar × List Char)
  | '\x22' :: '\x22' :: '\x22' :: cs => asString (multiBasic false (dropFirstBreak cs))
  | '\x22' :: cs => asString (basic cs)
  | '\x27' :: '\x27' :: '\x27' :: cs => asString (multiLiteral (dropFirstBreak cs))
  | '\x27' :: cs => asString (literal cs)
  | 't' :: 'r' :: 'u' :: 'e' :: cs => some (.boolean true, cs)
  | 'f' :: 'a' :: 'l' :: 's' :: 'e' :: cs => some (.boolean false, cs)
  | _ => none

def endLine? (cs : List Char) : Option (List Char) :=
  let rest := match cs.dropWhile isSpace with
    | '#' :: cs => cs.dropWhile isText
    | cs => cs
  match rest with
  | '\n' :: cs => some cs
  | [] => some []
  | _ => none

def entry? (cs : List Char) : Option ((String × Scalar) × List Char) := do
  let (k, cs) ← key? cs
  match cs.dropWhile isSpace with
  | '=' :: cs =>
    let (v, cs) ← value? (cs.dropWhile isSpace)
    return ((k, v), ← endLine? cs)
  | _ => none

def entries : Nat → List Char → Option (List (String × Scalar))
  | _, [] => some []
  | 0, _ => none
  | n + 1, cs =>
    match endLine? cs with
    | some rest => entries n rest
    | none => do
      let (e, rest) ← entry? (cs.dropWhile isSpace)
      return e :: (← entries n rest)

/-- The entries of a document in order. A byte order mark may come first. -/
def parse? (text : String) : Option (List (String × Scalar)) :=
  let cs := joinLineBreaks text.toList
  let cs := if cs.head? == some '\ufeff' then cs.tail else cs
  entries cs.length cs

end Document

end Scriptlet.Settings
