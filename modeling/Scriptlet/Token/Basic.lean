import Scriptlet.Text.Span
import Scriptlet.Token.Kind
import Scriptlet.Value

/-!
# Tokens
-/

namespace Scriptlet

/-- A token with its place and its text. Only a number that fits its type has a value. -/
structure Token where
  kind : Token.Kind
  span : Span
  text : String
  value : Option Value
  deriving DecidableEq, Repr, Inhabited

namespace Token

def missing (kind : Kind) (pos : Nat) : Token := ⟨kind, .empty pos, "", none⟩

def eofAt (pos : Nat) : Token := ⟨.eof, .empty pos, "", none⟩

/-- Whether the token is a placeholder: it covers nothing and does not stand for the end. -/
def isMissing (t : Token) : Bool := t.span.isEmpty && t.kind != .eof

end Token

end Scriptlet
