import Scriptlet.Token.Basic

/-!
# Syntax trees

Trees keep every token they were read from, placeholders for missing ones included.
-/

namespace Scriptlet.Syntax

inductive Expr
  /-- A number or a truth value; a number that does not fit its type has no value. -/
  | literal (token : Token) (value : Option Value)
  | unary (op : Token) (operand : Expr)
  | binary (lhs : Expr) (op : Token) (rhs : Expr)
  | paren (opening : Token) (inner : Expr) (closing : Token)
  | name (ident : Token)
  | assign (ident eq : Token) (rhs : Expr)
  deriving DecidableEq, Repr

inductive Stmt
  | block (opening : Token) (body : List Stmt) (closing : Token)
  | expr (e : Expr)
  | decl (keyword ident eq : Token) (init : Expr)
  | ifThen (keyword : Token) (cond : Expr) (yes : Stmt)
  | ifElse (keyword : Token) (cond : Expr) (yes : Stmt) (elseKeyword : Token) (no : Stmt)
  | while (keyword : Token) (cond : Expr) (body : Stmt)
  | for (keyword ident eq : Token) (lower : Expr) (sep : Token) (upper : Expr) (body : Stmt)
  deriving Repr

structure SourceUnit where
  stmt : Stmt
  eof : Token
  deriving Repr

end Scriptlet.Syntax
