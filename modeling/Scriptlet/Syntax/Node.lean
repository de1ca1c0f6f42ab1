import Scriptlet.Outline
import Scriptlet.Syntax.Basic

/-!
# Nodes

The uniform view of a syntax tree: a token, or a phrase with one part or more. Spans, walks and
drawings need no more than this.
-/

namespace Scriptlet.Syntax

inductive Phrase
  | literal
  | unary
  | binary
  | paren
  | name
  | assign
  | block
  | expr
  | decl
  | if
  | while
  | for
  | elseClause
  | unit
  deriving DecidableEq, Repr

def Phrase.label : Phrase → String
  | literal => "LiteralExpression"
  | unary => "UnaryExpression"
  | binary => "BinaryExpression"
  | paren => "ParenthesizedExpression"
  | name => "NameExpression"
  | assign => "AssignmentExpression"
  | block => "BlockStatement"
  | expr => "ExpressionStatement"
  | decl => "VariableDeclaration"
  | «if» => "IfStatement"
  | «while» => "WhileStatement"
  | «for» => "ForStatement"
  | elseClause => "ElseClause"
  | unit => "CompilationUnit"

inductive Node
  | token (t : Token)
  | phrase (p : Phrase) (first : Node) (rest : List Node)
  deriving Repr

namespace Node

def name : Node → String
  | token t => t.kind.name
  | phrase p _ _ => p.label

mutual

/-- A phrase reaches from its first part to its last. -/
def span : Node → Span
  | token t => t.span
  | phrase _ first rest => first.span.cover (lastSpan first.span rest)

def lastSpan (s : Span) : List Node → Span
  | [] => s
  | n :: ns => lastSpan n.span ns

end

mutual

def tokens : Node → List Token
  | token t => [t]
  | phrase _ first rest => first.tokens ++ tokensAll rest

def tokensAll : List Node → List Token
  | [] => []
  | n :: ns => n.tokens ++ tokensAll ns

end

mutual

def walk (depth : Nat) : Node → List (Nat × Node)
  | token t => [(depth, token t)]
  | phrase p first rest =>
    (depth, phrase p first rest) :: (first.walk (depth + 1) ++ walkAll (depth + 1) rest)

def walkAll (depth : Nat) : List Node → List (Nat × Node)
  | [] => []
  | n :: ns => n.walk depth ++ walkAll depth ns

end

def tokenLabel (t : Token) : String :=
  let text := if t.text.isEmpty then "" else " " ++ t.text
  let value := t.value.elim "" fun v => s!" ({v.text})"
  t.kind.name ++ text ++ value

mutual

def outline : Node → Outline
  | token t => .node (tokenLabel t) []
  | phrase p first rest => .node p.label (first.outline :: outlineAll rest)

def outlineAll : List Node → List Outline
  | [] => []
  | n :: ns => n.outline :: outlineAll ns

end

end Node

def Expr.node : Expr → Node
  | literal t _ => .phrase .literal (.token t) []
  | unary op e => .phrase .unary (.token op) [e.node]
  | binary l op r => .phrase .binary l.node [.token op, r.node]
  | paren o e c => .phrase .paren (.token o) [e.node, .token c]
  | name t => .phrase .name (.token t) []
  | assign t eq e => .phrase .assign (.token t) [.token eq, e.node]

mutual

def Stmt.node : Stmt → Node
  | .block o body c => .phrase .block (.token o) (Stmt.nodes body ++ [.token c])
  | .expr e => .phrase .expr e.node []
  | .decl k t eq e => .phrase .decl (.token k) [.token t, .token eq, e.node]
  | .ifThen k e s => .phrase .if (.token k) [e.node, s.node]
  | .ifElse k e s k' s' =>
    .phrase .if (.token k) [e.node, s.node, .phrase .elseClause (.token k') [s'.node]]
  | .while k e s => .phrase .while (.token k) [e.node, s.node]
  | .for k t eq lo sep hi s =>
    .phrase .for (.token k) [.token t, .token eq, lo.node, .token sep, hi.node, s.node]

def Stmt.nodes : List Stmt → List Node
  | [] => []
  | s :: ss => s.node :: Stmt.nodes ss

end

def SourceUnit.node (u : SourceUnit) : Node := .phrase .unit u.stmt.node [.token u.eof]

def Expr.span (e : Expr) : Span := e.node.span

def Stmt.span (s : Stmt) : Span := s.node.span

/-! ## Leaves -/

def Expr.tokens (e : Expr) : List Token := e.node.tokens

def Stmt.tokens (s : Stmt) : List Token := s.node.tokens

def SourceUnit.tokens (u : SourceUnit) : List Token := u.node.tokens

theorem Node.tokensAll_append : ∀ ns ms : List Node,
    tokensAll (ns ++ ms) = tokensAll ns ++ tokensAll ms
  | [], _ => rfl
  | n :: ns, ms =>
    (congrArg (n.tokens ++ ·) (tokensAll_append ns ms)).trans (List.append_assoc _ _ _).symm

theorem Stmt.tokensAll_nodes : ∀ ss : List Stmt,
    Node.tokensAll (Stmt.nodes ss) = ss.flatMap Stmt.tokens
  | [] => rfl
  | s :: ss => congrArg (s.tokens ++ ·) (tokensAll_nodes ss)

namespace Expr

@[simp] theorem tokens_literal (t : Token) (v : Option Value) : (literal t v).tokens = [t] := rfl

@[simp] theorem tokens_unary (op : Token) (e : Expr) : (unary op e).tokens = op :: e.tokens :=
  congrArg (op :: ·) (List.append_nil e.tokens)

@[simp] theorem tokens_binary (l : Expr) (op : Token) (r : Expr) :
    (binary l op r).tokens = l.tokens ++ op :: r.tokens :=
  congrArg (l.tokens ++ op :: ·) (List.append_nil r.tokens)

@[simp] theorem tokens_paren (o : Token) (e : Expr) (c : Token) :
    (paren o e c).tokens = o :: (e.tokens ++ [c]) := rfl

@[simp] theorem tokens_name (t : Token) : (name t).tokens = [t] := rfl

@[simp] theorem tokens_assign (t eq : Token) (e : Expr) :
    (assign t eq e).tokens = t :: eq :: e.tokens :=
  congrArg (t :: eq :: ·) (List.append_nil e.tokens)

end Expr

namespace Stmt

@[simp] theorem tokens_block (o : Token) (body : List Stmt) (c : Token) :
    (block o body c).tokens = o :: (body.flatMap tokens ++ [c]) :=
  congrArg (o :: ·) ((Node.tokensAll_append (nodes body) [.token c]).trans
    (congrArg (· ++ [c]) (tokensAll_nodes body)))

@[simp] theorem tokens_expr (e : Expr) : (expr e).tokens = e.tokens := List.append_nil e.tokens

@[simp] theorem tokens_decl (k t eq : Token) (e : Expr) :
    (decl k t eq e).tokens = k :: t :: eq :: e.tokens :=
  congrArg (k :: t :: eq :: ·) (List.append_nil e.tokens)

@[simp] theorem tokens_ifThen (k : Token) (e : Expr) (s : Stmt) :
    (ifThen k e s).tokens = k :: (e.tokens ++ s.tokens) :=
  congrArg (k :: e.tokens ++ ·) (List.append_nil s.tokens)

@[simp] theorem tokens_while (k : Token) (e : Expr) (s : Stmt) :
    (Stmt.while k e s).tokens = k :: (e.tokens ++ s.tokens) :=
  congrArg (k :: e.tokens ++ ·) (List.append_nil s.tokens)

@[simp] theorem tokens_for (k t eq : Token) (lo : Expr) (sep : Token) (hi : Expr) (s : Stmt) :
    (Stmt.for k t eq lo sep hi s).tokens =
      k :: t :: eq :: (lo.tokens ++ sep :: (hi.tokens ++ s.tokens)) :=
  congrArg (fun ts => k :: t :: eq :: (lo.tokens ++ sep :: (hi.tokens ++ ts)))
    (List.append_nil s.tokens)

@[simp] theorem tokens_ifElse (k : Token) (e : Expr) (s : Stmt) (k' : Token) (s' : Stmt) :
    (ifElse k e s k' s').tokens = k :: (e.tokens ++ (s.tokens ++ k' :: s'.tokens)) :=
  have helse : k' :: (s'.tokens ++ []) ++ [] = k' :: s'.tokens := by
    rw [List.append_nil, List.append_nil]
  congrArg (fun ts => k :: (e.tokens ++ (s.tokens ++ ts))) helse

end Stmt

@[simp] theorem SourceUnit.tokens_mk (s : Stmt) (eof : Token) :
    (SourceUnit.mk s eof).tokens = s.tokens ++ [eof] := rfl

end Scriptlet.Syntax
