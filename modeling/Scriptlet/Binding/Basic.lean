import Scriptlet.Scope
import Scriptlet.Syntax.Node
import Scriptlet.Typed.Basic
import Scriptlet.Diagnostic.Basic

/-!
# Binding

Resolves the names and the signs of a syntax tree and gives the typed tree. Faults are collected
and never end the work: a name without meaning stands for zero, a sign without meaning for its
first operand, and an assignment that cannot be made for its right side.
-/

namespace Scriptlet.Binding

open Typed (Variable UnaryRow BinaryRow)

structure Bound (α : Type) where
  tree : α
  reports : List Diagnostic
  deriving Repr

/-- What an expression without meaning stands for. -/
def zero : Typed.Expr := .literal (.int 0)

/-! ## Expressions -/

def bindUnary (op : Token) (operand : Bound Typed.Expr) : Bound Typed.Expr :=
  let type := operand.tree.type
  match UnaryRow.find? op.kind type with
  | some row => ⟨.unary row operand.tree, operand.reports⟩
  | none => ⟨operand.tree, operand.reports ++ [⟨op.span, .undefinedUnary op.text type.name⟩]⟩

def bindBinary (lhs : Bound Typed.Expr) (op : Token) (rhs : Bound Typed.Expr) : Bound Typed.Expr :=
  let reports := lhs.reports ++ rhs.reports
  match BinaryRow.find? op.kind lhs.tree.type rhs.tree.type with
  | some row => ⟨.binary lhs.tree row rhs.tree, reports⟩
  | none =>
    ⟨lhs.tree, reports ++
      [⟨op.span, .undefinedBinary op.text lhs.tree.type.name rhs.tree.type.name⟩]⟩

/-- A placeholder has been reported already and stands for zero. -/
def bindName (scopes : ScopeStack) (ident : Token) : Bound Typed.Expr :=
  if ident.isMissing then ⟨zero, []⟩
  else
    match scopes.find? ident.text with
    | some v => ⟨.read v, []⟩
    | none => ⟨zero, [⟨ident.span, .undefinedName ident.text⟩]⟩

def bindAssign (scopes : ScopeStack) (ident eq : Token) (span : Span) (rhs : Bound Typed.Expr) :
    Bound Typed.Expr :=
  match scopes.find? ident.text with
  | none => ⟨rhs.tree, rhs.reports ++ [⟨ident.span, .undefinedName ident.text⟩]⟩
  | some v =>
    let reports :=
      rhs.reports ++ if v.readOnly then [⟨eq.span, .cannotAssign ident.text⟩] else []
    if rhs.tree.type = v.type then ⟨.assign v rhs.tree, reports⟩
    else ⟨rhs.tree, reports ++ [⟨span, .cannotConvert rhs.tree.type.name v.type.name⟩]⟩

def bindExpr (scopes : ScopeStack) : Syntax.Expr → Bound Typed.Expr
  | .literal _ value => ⟨.literal (value.getD (.int 0)), []⟩
  | .unary op operand => bindUnary op (bindExpr scopes operand)
  | .binary lhs op rhs => bindBinary (bindExpr scopes lhs) op (bindExpr scopes rhs)
  | .paren _ inner _ =>
    let b := bindExpr scopes inner
    ⟨.paren b.tree, b.reports⟩
  | .name ident => bindName scopes ident
  | .assign ident eq rhs => bindAssign scopes ident eq rhs.span (bindExpr scopes rhs)

def bindExprAs (scopes : ScopeStack) (target : Ty) (e : Syntax.Expr) : Bound Typed.Expr :=
  let b := bindExpr scopes e
  if b.tree.type = target then b
  else ⟨b.tree, b.reports ++ [⟨e.span, .cannotConvert b.tree.type.name target.name⟩]⟩

/-! ## Statements -/

/-- A typed tree, the innermost scope after it, and the faults found while making it. -/
structure Scoped (α : Type) where
  tree : α
  scope : Scope
  reports : List Diagnostic
  deriving Repr

def declareIn (scope : Scope) (ident : Token) (v : Variable) : Scope × List Diagnostic :=
  if ident.isMissing then (scope, [])
  else
    match scope.declare? v with
    | some scope => (scope, [])
    | none => (scope, [⟨ident.span, .alreadyDeclared ident.text⟩])

mutual

/-- Binds a statement whose innermost scope is `scope`. Blocks, branches and loop bodies have scopes
of their own; a `for` shares its body's scope with the loop variable. -/
def bindStmt (outer : ScopeStack) (scope : Scope) : Syntax.Stmt → Scoped Typed.Stmt
  | .block _ body _ =>
    let b := bindBody (scope :: outer) {} body
    ⟨.block b.tree, scope, b.reports⟩
  | .expr e =>
    let b := bindExpr (scope :: outer) e
    ⟨.expr b.tree, scope, b.reports⟩
  | .decl keyword ident _ init =>
    let b := bindExpr (scope :: outer) init
    let v : Variable := ⟨ident.text, keyword.kind = .letKeyword, b.tree.type⟩
    let (scope, reports) := declareIn scope ident v
    ⟨.decl v b.tree, scope, b.reports ++ reports⟩
  | .ifThen _ cond yes =>
    let c := bindExprAs (scope :: outer) .bool cond
    let y := bindStmt (scope :: outer) {} yes
    ⟨.ifThen c.tree y.tree, scope, c.reports ++ y.reports⟩
  | .ifElse _ cond yes _ no =>
    let c := bindExprAs (scope :: outer) .bool cond
    let y := bindStmt (scope :: outer) {} yes
    let n := bindStmt (scope :: outer) {} no
    ⟨.ifElse c.tree y.tree n.tree, scope, c.reports ++ y.reports ++ n.reports⟩
  | .while _ cond body =>
    let c := bindExprAs (scope :: outer) .bool cond
    let b := bindStmt (scope :: outer) {} body
    ⟨.while c.tree b.tree, scope, c.reports ++ b.reports⟩
  | .for _ ident _ lower _ upper body =>
    let lo := bindExprAs (scope :: outer) .int lower
    let hi := bindExprAs (scope :: outer) .int upper
    let v : Variable := ⟨ident.text, false, .int⟩
    let (inner, reports) := declareIn {} ident v
    let b := bindStmt (scope :: outer) inner body
    ⟨.for v lo.tree hi.tree b.tree, scope, lo.reports ++ hi.reports ++ reports ++ b.reports⟩

def bindBody (outer : ScopeStack) (scope : Scope) : List Syntax.Stmt → Scoped (List Typed.Stmt)
  | [] => ⟨[], scope, []⟩
  | s :: ss =>
    let b := bindStmt outer scope s
    let bs := bindBody outer b.scope ss
    ⟨b.tree :: bs.tree, bs.scope, b.reports ++ bs.reports⟩

end

end Scriptlet.Binding
