import Scriptlet.Outline
import Scriptlet.Typed.Operator
import Scriptlet.Typed.Variable

/-!
# Typed trees

Programs after binding: names have become variables and signs operator rows. The type of an
expression can be read off it.
-/

namespace Scriptlet.Typed

inductive Expr
  | literal (value : Value)
  | unary (row : UnaryRow) (operand : Expr)
  | binary (lhs : Expr) (row : BinaryRow) (rhs : Expr)
  | read (v : Variable)
  | assign (v : Variable) (rhs : Expr)
  | paren (inner : Expr)
  deriving DecidableEq, Repr

inductive Stmt
  | block (body : List Stmt)
  | expr (e : Expr)
  | decl (v : Variable) (init : Expr)
  | ifThen (cond : Expr) (yes : Stmt)
  | ifElse (cond : Expr) (yes no : Stmt)
  | while (cond : Expr) (body : Stmt)
  | for (v : Variable) (lower upper : Expr) (body : Stmt)
  deriving Repr

def Expr.type : Expr → Ty
  | literal value => value.type
  | unary row _ => row.type
  | binary _ row _ => row.type
  | read v => v.type
  | assign _ rhs => rhs.type
  | paren inner => inner.type

/-! ## Outlines -/

namespace Expr

def label (e : Expr) : String :=
  let head := match e with
    | literal value => s!"LiteralExpression {value.text}"
    | unary row _ => s!"UnaryExpression {row.op.name}"
    | binary _ row _ => s!"BinaryExpression {row.op.name}"
    | read v => s!"VariableExpression {v.name}"
    | assign v _ => s!"AssignmentExpression {v.name}"
    | paren _ => "ParenthesizedExpression"
  s!"{head} -> {e.type.name}"

def outline (e : Expr) : Outline :=
  match e with
  | literal _ => .node e.label []
  | unary _ operand => .node e.label [operand.outline]
  | binary lhs _ rhs => .node e.label [lhs.outline, rhs.outline]
  | read _ => .node e.label []
  | assign _ rhs => .node e.label [rhs.outline]
  | paren inner => .node e.label [inner.outline]

end Expr

namespace Stmt

mutual

def outline : Stmt → Outline
  | .block body => .node "BlockStatement" (outlines body)
  | .expr e => .node "ExpressionStatement" [e.outline]
  | .decl v init => .node s!"VariableDeclaration {v.signature}" [init.outline]
  | .ifThen cond yes => .node "IfStatement" [cond.outline, yes.outline]
  | .ifElse cond yes no => .node "IfStatement" [cond.outline, yes.outline, no.outline]
  | .while cond body => .node "WhileStatement" [cond.outline, body.outline]
  | .for v lower upper body =>
    .node s!"ForStatement {v.signature}" [lower.outline, upper.outline, body.outline]

def outlines : List Stmt → List Outline
  | [] => []
  | s :: ss => s.outline :: outlines ss

end

end Stmt

end Scriptlet.Typed
