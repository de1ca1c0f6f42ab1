/-!
# Token kinds

The kinds of tokens, how they are called and spelled, and how tightly operators bind.
-/

namespace Scriptlet.Token

inductive Kind
  | bad
  | eof
  | whitespace
  | number
  | identifier
  | plus
  | minus
  | star
  | slash
  | bang
  | amp
  | ampAmp
  | pipe
  | pipePipe
  | hat
  | eq
  | eqEq
  | bangEq
  | less
  | lessEq
  | greater
  | greaterEq
  | openParen
  | closeParen
  | openBrace
  | closeBrace
  | trueKeyword
  | falseKeyword
  | letKeyword
  | varKeyword
  | ifKeyword
  | elseKeyword
  | whileKeyword
  | forKeyword
  | toKeyword
  deriving DecidableEq, Repr, Inhabited

namespace Kind

def all : List Kind :=
  [.bad, .eof, .whitespace, .number, .identifier, .plus, .minus, .star, .slash, .bang, .amp,
    .ampAmp, .pipe, .pipePipe, .hat, .eq, .eqEq, .bangEq, .less, .lessEq, .greater, .greaterEq,
    .openParen, .closeParen, .openBrace, .closeBrace, .trueKeyword, .falseKeyword, .letKeyword,
    .varKeyword, .ifKeyword, .elseKeyword, .whileKeyword, .forKeyword, .toKeyword]

def name : Kind → String
  | bad => "Bad"
  | eof => "End"
  | whitespace => "Whitespace"
  | number => "Number"
  | identifier => "Identifier"
  | plus => "Plus"
  | minus => "Minus"
  | star => "Star"
  | slash => "Slash"
  | bang => "Bang"
  | amp => "Amp"
  | ampAmp => "AmpAmp"
  | pipe => "Pipe"
  | pipePipe => "PipePipe"
  | hat => "Hat"
  | eq => "Eq"
  | eqEq => "EqEq"
  | bangEq => "BangEq"
  | less => "Less"
  | lessEq => "LessEq"
  | greater => "Greater"
  | greaterEq => "GreaterEq"
  | openParen => "OpenParen"
  | closeParen => "CloseParen"
  | openBrace => "OpenBrace"
  | closeBrace => "CloseBrace"
  | trueKeyword => "TrueKeyword"
  | falseKeyword => "FalseKeyword"
  | letKeyword => "LetKeyword"
  | varKeyword => "VarKeyword"
  | ifKeyword => "IfKeyword"
  | elseKeyword => "ElseKeyword"
  | whileKeyword => "WhileKeyword"
  | forKeyword => "ForKeyword"
  | toKeyword => "ToKeyword"

def ofName? (s : String) : Option Kind := all.find? (·.name == s)

def spelling? : Kind → Option String
  | bad | eof | whitespace | number | identifier => none
  | plus => some "+"
  | minus => some "-"
  | star => some "*"
  | slash => some "/"
  | bang => some "!"
  | amp => some "&"
  | ampAmp => some "&&"
  | pipe => some "|"
  | pipePipe => some "||"
  | hat => some "^"
  | eq => some "="
  | eqEq => some "=="
  | bangEq => some "!="
  | less => some "<"
  | lessEq => some "<="
  | greater => some ">"
  | greaterEq => some ">="
  | openParen => some "("
  | closeParen => some ")"
  | openBrace => some "\x7b"
  | closeBrace => some "\x7d"
  | trueKeyword => some "true"
  | falseKeyword => some "false"
  | letKeyword => some "let"
  | varKeyword => some "var"
  | ifKeyword => some "if"
  | elseKeyword => some "else"
  | whileKeyword => some "while"
  | forKeyword => some "for"
  | toKeyword => some "to"

/-- How tightly a prefix operator binds; zero if the kind is none. -/
def unaryPrecedence : Kind → Nat
  | plus | minus | bang => 6
  | _ => 0

def binaryPrecedence : Kind → Nat
  | star | slash => 5
  | plus | minus => 4
  | eqEq | bangEq | less | lessEq | greater | greaterEq => 3
  | amp | ampAmp => 2
  | pipe | pipePipe | hat => 1
  | _ => 0

def ofWord : String → Kind
  | "true" => trueKeyword
  | "false" => falseKeyword
  | "let" => letKeyword
  | "var" => varKeyword
  | "if" => ifKeyword
  | "else" => elseKeyword
  | "while" => whileKeyword
  | "for" => forKeyword
  | "to" => toKeyword
  | _ => identifier

end Kind

end Scriptlet.Token
