import Scriptlet.Syntax.Rules
import Scriptlet.Token.Lexer

/-!
# Step-by-step parsing

A parser that reads one phrase after the other from the same text.
-/

namespace Scriptlet.Syntax

open Token (Kind significantTokens stopOf lexicalReports)

/-- A text read up to some token. Taking the end token counts in `position` like any other. -/
structure Parser where
  pending : List Token
  stop : Nat
  position : Nat
  diagnostics : List Diagnostic
  deriving Repr

namespace Parser

def ofText (text : String) : Parser :=
  ⟨significantTokens text, stopOf text, 0, lexicalReports text⟩

def peek (p : Parser) (n : Nat) : Token := p.pending.getD n (Token.eofAt p.stop)

def next (p : Parser) : Token × Parser :=
  (p.peek 0, { p with pending := p.pending.tail, position := p.position + 1 })

def expect (p : Parser) (kind : Kind) : Token × Parser :=
  let t := p.peek 0
  if t.kind = kind then p.next
  else (.missing kind t.span.pos, { p with diagnostics := p.diagnostics ++ [unexpected t kind] })

def accept {α : Type} (p : Parser) (r : Parsed α) : α × Parser :=
  (r.value,
    { p with
      pending := r.rest
      position := p.position + (p.pending.length - r.rest.length)
      diagnostics := p.diagnostics ++ r.reports })

def expr (p : Parser) : Expr × Parser := p.accept (parseExpr p.stop p.pending)

def binary (p : Parser) (parent : Nat) : Expr × Parser :=
  p.accept (parseBinary p.stop parent p.pending)

def stmt (p : Parser) : Stmt × Parser := p.accept (parseStmt p.stop p.pending)

def block (p : Parser) : Stmt × Parser := p.accept (parseBlock p.stop p.pending)

def unit (p : Parser) : SourceUnit × Parser :=
  let (s, p) := p.stmt
  let (eof, p) := p.expect .eof
  (⟨s, eof⟩, p)

end Parser

end Scriptlet.Syntax
