import Scriptlet.Syntax.Grammar

/-!
# The rules of the grammar

What reading gives, without the proof that it leaves an end piece of the tokens, and the rules of
the grammar as equations between such results.
-/

namespace Scriptlet.Syntax

def parseExpr (stop : Nat) (ts : List Token) : Parsed Expr := (readExpr stop ts).val

def parseBinary (stop parent : Nat) (ts : List Token) : Parsed Expr :=
  (readBinary stop parent ts).val

def parseInfix (stop parent : Nat) (lhs : Expr) (ts : List Token) : Parsed Expr :=
  (readInfix stop parent lhs ts).val

def parsePrimary (stop : Nat) (ts : List Token) : Parsed Expr := (readPrimary stop ts).val

def parseStmt (stop : Nat) (ts : List Token) : Parsed Stmt := (readStmt stop ts).val

def parseElse (stop : Nat) (keyword : Token) (cond : Expr) (yes : Stmt) (ts : List Token) :
    Parsed Stmt :=
  (readElse stop keyword cond yes ts).val

def parseBody (stop : Nat) (ts : List Token) : Parsed (List Stmt) := (readBody stop ts).val

def parseBlock (stop : Nat) (ts : List Token) : Parsed Stmt :=
  (expect stop .openBrace ts).bind fun opening ts =>
    (parseBody stop ts).bind fun body ts =>
      (expect stop .closeBrace ts).bind fun closing ts => .pure (.block opening body closing) ts

def parseUnit (stop : Nat) (ts : List Token) : Parsed SourceUnit :=
  (parseStmt stop ts).bind fun stmt ts =>
    (expect stop .eof ts).bind fun eof ts => .pure ⟨stmt, eof⟩ ts

section
variable (stop : Nat)

/-! ## Expressions -/

theorem parseExpr_cons_cons (ident eq : Token) (ts : List Token) :
    parseExpr stop (ident :: eq :: ts) =
      if ident.kind = .identifier ∧ eq.kind = .eq then
        (parseExpr stop ts).bind fun rhs ts => .pure (.assign ident eq rhs) ts
      else parseBinary stop 0 (ident :: eq :: ts) := by
  rw [parseExpr, readExpr]
  split <;> rfl

theorem parseExpr_singleton (t : Token) : parseExpr stop [t] = parseBinary stop 0 [t] := by
  rw [parseExpr, readExpr]
  · rfl
  · intro _ _ _ h; cases h

theorem parseExpr_nil : parseExpr stop [] = parseBinary stop 0 [] := by
  rw [parseExpr, readExpr]
  · rfl
  · intro _ _ _ h; cases h

theorem parseBinary_cons (parent : Nat) (op : Token) (ts : List Token) :
    parseBinary stop parent (op :: ts) =
      if op.kind.unaryPrecedence ≠ 0 ∧ parent ≤ op.kind.unaryPrecedence then
        (parseBinary stop op.kind.unaryPrecedence ts).bind fun operand ts =>
          parseInfix stop parent (.unary op operand) ts
      else (parsePrimary stop (op :: ts)).bind fun lhs ts => parseInfix stop parent lhs ts := by
  rw [parseBinary, readBinary]
  split <;> rfl

theorem parseBinary_nil (parent : Nat) :
    parseBinary stop parent [] =
      (parsePrimary stop []).bind fun lhs ts => parseInfix stop parent lhs ts := by
  rw [parseBinary, readBinary]
  rfl

theorem parseInfix_cons (parent : Nat) (lhs : Expr) (op : Token) (ts : List Token) :
    parseInfix stop parent lhs (op :: ts) =
      if parent < op.kind.binaryPrecedence then
        (parseBinary stop op.kind.binaryPrecedence ts).bind fun rhs ts =>
          parseInfix stop parent (.binary lhs op rhs) ts
      else .pure lhs (op :: ts) := by
  rw [parseInfix, readInfix]
  split <;> rfl

theorem parseInfix_nil (parent : Nat) (lhs : Expr) :
    parseInfix stop parent lhs [] = .pure lhs [] := by
  rw [parseInfix, readInfix]
  rfl

theorem parsePrimary_cons (t : Token) (ts : List Token) :
    parsePrimary stop (t :: ts) =
      match t.kind with
      | .openParen =>
        (parseExpr stop ts).bind fun inner ts =>
          (expect stop .closeParen ts).bind fun closing ts => .pure (.paren t inner closing) ts
      | .trueKeyword => .pure (.literal t (some (.bool true))) ts
      | .falseKeyword => .pure (.literal t (some (.bool false))) ts
      | .number => .pure (.literal t t.value) ts
      | _ => (expect stop .identifier (t :: ts)).bind fun ident ts => .pure (.name ident) ts := by
  rw [parsePrimary, readPrimary]
  cases t.kind <;> rfl

theorem parsePrimary_nil :
    parsePrimary stop [] =
      (expect stop .identifier []).bind fun ident ts => .pure (.name ident) ts := by
  rw [parsePrimary, readPrimary]
  rfl

/-! ## Statements -/

theorem parseStmt_cons (t : Token) (ts : List Token) :
    parseStmt stop (t :: ts) =
      match t.kind with
      | .openBrace =>
        (parseBody stop ts).bind fun body ts =>
          (expect stop .closeBrace ts).bind fun closing ts => .pure (.block t body closing) ts
      | .letKeyword | .varKeyword =>
        (expect stop .identifier ts).bind fun ident ts =>
          (expect stop .eq ts).bind fun eq ts =>
            (parseExpr stop ts).bind fun init ts => .pure (.decl t ident eq init) ts
      | .ifKeyword =>
        (parseExpr stop ts).bind fun cond ts =>
          (parseStmt stop ts).bind fun yes ts => parseElse stop t cond yes ts
      | .whileKeyword =>
        (parseExpr stop ts).bind fun cond ts =>
          (parseStmt stop ts).bind fun body ts => .pure (.while t cond body) ts
      | .forKeyword =>
        (expect stop .identifier ts).bind fun ident ts =>
          (expect stop .eq ts).bind fun eq ts =>
            (parseExpr stop ts).bind fun lower ts =>
              (expect stop .toKeyword ts).bind fun sep ts =>
                (parseExpr stop ts).bind fun upper ts =>
                  (parseStmt stop ts).bind fun body ts =>
                    .pure (.for t ident eq lower sep upper body) ts
      | _ => (parseExpr stop (t :: ts)).bind fun e ts => .pure (.expr e) ts := by
  rw [parseStmt, readStmt]
  cases t.kind <;> rfl

theorem parseStmt_nil :
    parseStmt stop [] = (parseExpr stop []).bind fun e ts => .pure (.expr e) ts := by
  rw [parseStmt, readStmt]
  rfl

theorem parseElse_cons (keyword : Token) (cond : Expr) (yes : Stmt) (t : Token) (ts : List Token) :
    parseElse stop keyword cond yes (t :: ts) =
      if t.kind = .elseKeyword then
        (parseStmt stop ts).bind fun no ts => .pure (.ifElse keyword cond yes t no) ts
      else .pure (.ifThen keyword cond yes) (t :: ts) := by
  rw [parseElse, readElse]
  split <;> rfl

theorem parseElse_nil (keyword : Token) (cond : Expr) (yes : Stmt) :
    parseElse stop keyword cond yes [] = .pure (.ifThen keyword cond yes) [] := by
  rw [parseElse, readElse]
  rfl

theorem parseBody_cons (t : Token) (ts : List Token) :
    parseBody stop (t :: ts) =
      if t.kind = .closeBrace then .pure [] (t :: ts)
      else
        (parseStmt stop (t :: ts)).bind fun s rest =>
          (parseBody stop (skipStuck t ts rest)).map (s :: ·) := by
  rw [parseBody, readBody]
  split <;> rfl

theorem parseBody_nil : parseBody stop [] = .pure [] [] := by
  rw [parseBody, readBody]
  rfl

/-! ## End pieces -/

theorem parseExpr_suffix (ts : List Token) : (parseExpr stop ts).rest <:+ ts :=
  (readExpr stop ts).property

theorem parseBinary_suffix (parent : Nat) (ts : List Token) :
    (parseBinary stop parent ts).rest <:+ ts :=
  (readBinary stop parent ts).property

theorem parseInfix_suffix (parent : Nat) (lhs : Expr) (ts : List Token) :
    (parseInfix stop parent lhs ts).rest <:+ ts :=
  (readInfix stop parent lhs ts).property

theorem parsePrimary_suffix (ts : List Token) : (parsePrimary stop ts).rest <:+ ts :=
  (readPrimary stop ts).property

theorem parseStmt_suffix (ts : List Token) : (parseStmt stop ts).rest <:+ ts :=
  (readStmt stop ts).property

theorem parseElse_suffix (keyword : Token) (cond : Expr) (yes : Stmt) (ts : List Token) :
    (parseElse stop keyword cond yes ts).rest <:+ ts :=
  (readElse stop keyword cond yes ts).property

theorem parseBody_suffix (ts : List Token) : (parseBody stop ts).rest <:+ ts :=
  (readBody stop ts).property

end

end Scriptlet.Syntax
