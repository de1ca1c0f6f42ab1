import Scriptlet.Diagnostic.Basic
import Scriptlet.Token.Basic
import Scriptlet.Token.Run

/-!
# The lexer

Cuts a text into tokens. Every character belongs to exactly one token, at each place the longest
token wins, and after the last token the end token is read again and again.
-/

namespace Scriptlet.Token

open Text (drop? splitAt?)

structure Lexeme where
  token : Token
  report : Option Diagnostic
  deriving DecidableEq, Repr

def Kind.ofPair? : CharClass → CharClass → Option Kind
  | .and, .and => some .ampAmp
  | .or, .or => some .pipePipe
  | .eq, .eq => some .eqEq
  | .bang, .eq => some .bangEq
  | .lt, .eq => some .lessEq
  | .gt, .eq => some .greaterEq
  | _, _ => none

def CharClass.kind (cls : CharClass) (word : String) : Kind :=
  match cls with
  | .whitespace => .whitespace
  | .letter => .ofWord word
  | .digit => .number
  | .plus => .plus
  | .minus => .minus
  | .star => .star
  | .slash => .slash
  | .openParen => .openParen
  | .closeParen => .closeParen
  | .openBrace => .openBrace
  | .closeBrace => .closeBrace
  | .and => .amp
  | .or => .pipe
  | .caret => .hat
  | .eq => .eq
  | .bang => .bang
  | .lt => .less
  | .gt => .greater
  | .unknown => .bad

/-! ## Numbers -/

def decimal (digits : List Char) : Nat :=
  digits.foldl (fun n d => 10 * n + (d.toNat - '0'.toNat)) 0

def signed? : List Char → Option Int
  | '-' :: digits => (unsigned? digits).map (- ·)
  | '+' :: digits => unsigned? digits
  | digits => unsigned? digits
where unsigned? (digits : List Char) : Option Int :=
  if !digits.isEmpty && digits.all (·.isDigit) then some (decimal digits) else none

def number? (text : List Char) : Option Int32 :=
  match signed? text with
  | some n => if -2147483648 ≤ n ∧ n ≤ 2147483647 then some (.ofInt n) else none
  | none => none

/-! ## Places -/

/-- A place in a source, with what the source holds from there on. Lengths wrap, so a lexer can fall
behind the characters it has seen, even into the middle of one: from there nothing can be read. -/
structure Place where
  source : List Char
  pos : Nat
  ahead : Option (List Char)
  deriving Repr

namespace Place

def start (source : List Char) : Place := ⟨source, 0, some source⟩

/-- The next `len` bytes, if they are whole characters. A program that asks for others ends there;
here they are taken for an empty text. -/
def take (p : Place) (len : Nat) : List Char :=
  (p.ahead.bind fun cs => (splitAt? len cs).map (·.1)).getD []

def move (p : Place) (len : Nat) : Place where
  source := p.source
  pos := p.pos + len
  ahead := match p.ahead with
    | some cs => drop? len cs
    | none => drop? (p.pos + len) p.source

end Place

/-! ## Lexemes -/

namespace Lexeme

def tokenAt (p : Place) (kind : Kind) (len : Nat) : Token :=
  ⟨kind, ⟨p.pos, len⟩, kind.spelling?.getD (String.ofList (p.take len)), none⟩

/-- The lexeme of one run. It is what the source holds at the place, for the length of the run. -/
def ofRun (p : Place) (run : Run) : Lexeme :=
  let chars := p.take run.len
  let token := tokenAt p (run.cls.kind (String.ofList chars)) run.len
  match run.cls with
  | .digit =>
    match number? chars with
    | some n => ⟨{ token with value := some (.int n) }, none⟩
    | none => ⟨token, some ⟨token.span, .invalidNumber token.text Ty.int.name⟩⟩
  | .unknown => ⟨token, (p.ahead.bind (·.head?)).map (Diagnostic.badCharacter p.pos)⟩
  | _ => ⟨token, none⟩

def ofPair? (p : Place) (run : Run) (d : Char) : Option Lexeme :=
  (Kind.ofPair? run.cls (.ofChar d)).map fun kind =>
    ⟨tokenAt p kind (run.len + d.utf8Size), none⟩

def read (p : Place) (c : Char) (cs : List Char) : Lexeme × List Char :=
  let (run, rest) := Run.read c cs
  match rest with
  | [] => (ofRun p run, [])
  | d :: rest' =>
    match ofPair? p run d with
    | some lexeme => (lexeme, rest')
    | none => (ofRun p run, rest)

theorem length_read_le (p : Place) (c : Char) (cs : List Char) :
    (read p c cs).2.length ≤ cs.length := by
  have h := Run.length_read_le c cs
  unfold read
  generalize Run.read c cs = r at h
  obtain ⟨run, rest⟩ := r
  cases rest with
  | nil => simp
  | cons d rest' =>
    simp only [List.length_cons] at h ⊢
    split
    · simp only; omega
    · simpa using h

def all (p : Place) : List Char → List Lexeme
  | [] => []
  | c :: cs =>
    let step := read p c cs
    step.1 :: all (p.move step.1.token.span.len) step.2
termination_by cs => cs.length
decreasing_by exact Nat.lt_succ_of_le (length_read_le p c cs)

end Lexeme

/-! ## Whole texts -/

def lexemes (text : String) : List Lexeme := Lexeme.all (.start text.toList) text.toList

def tokens (text : String) : List Token := (lexemes text).map (·.token)

def isSignificant (t : Token) : Bool := t.kind != .whitespace && t.kind != .bad

def significantTokens (text : String) : List Token := (tokens text).filter isSignificant

def stopOf (text : String) : Nat := (lexemes text).getLast?.elim 0 (·.token.span.stop)

def lexicalReports (text : String) : List Diagnostic := (lexemes text).filterMap (·.report)

/-! ## One token at a time -/

structure Lexer where
  place : Place
  rest : List Char
  diagnostics : List Diagnostic
  deriving Repr

namespace Lexer

def ofText (text : String) : Lexer := ⟨.start text.toList, text.toList, []⟩

def pos (l : Lexer) : Nat := l.place.pos

/-- Reads one token; at the end of the text that is the end token, and nothing changes. -/
def next (l : Lexer) : Token × Lexer :=
  match l.rest with
  | [] => (eofAt l.pos, l)
  | c :: cs =>
    let (lexeme, rest) := Lexeme.read l.place c cs
    (lexeme.token,
      ⟨l.place.move lexeme.token.span.len, rest, l.diagnostics ++ lexeme.report.toList⟩)

end Lexer

end Scriptlet.Token
