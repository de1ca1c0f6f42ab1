import Scriptlet.Syntax.Parsed

/-!
# The grammar

Assignments nest to the right, infix operators climb by precedence and associate to the left, and
prefix operators bind tightest. A block goes on to its closing brace or the end of the text, and
skips a token where no statement can start.
-/

namespace Scriptlet.Syntax

/-! ## Expressions -/

mutual

/-- `IDENT = expr`, or an expression of infix operators. -/
def readExpr (stop : Nat) (ts : List Token) : Reading Expr ts :=
  match ts with
  | ident :: eq :: ts =>
    if ident.kind = .identifier ∧ eq.kind = .eq then
      ((readExpr stop ts).bind fun rhs _ => .pure (.assign ident eq rhs.value) rhs.rest).within
        ((List.suffix_cons _ _).trans (List.suffix_cons _ _))
    else readBinary stop 0 (ident :: eq :: ts)
  | ts => readBinary stop 0 ts
termination_by 4 * ts.length + 3

/-- An expression whose infix operators all bind tighter than `parent`. -/
def readBinary (stop parent : Nat) (ts : List Token) : Reading Expr ts :=
  match ts with
  | op :: ts =>
    if op.kind.unaryPrecedence ≠ 0 ∧ parent ≤ op.kind.unaryPrecedence then
      ((readBinary stop op.kind.unaryPrecedence ts).bind fun operand _ =>
        readInfix stop parent (.unary op operand.value) operand.rest).within (List.suffix_cons _ _)
    else
      (readPrimary stop (op :: ts)).bind fun lhs _ => readInfix stop parent lhs.value lhs.rest
  | [] => (readPrimary stop []).bind fun lhs _ => readInfix stop parent lhs.value lhs.rest
termination_by 4 * ts.length + 2
decreasing_by all_goals grind

def readInfix (stop parent : Nat) (lhs : Expr) (ts : List Token) : Reading Expr ts :=
  match ts with
  | op :: ts =>
    if parent < op.kind.binaryPrecedence then
      ((readBinary stop op.kind.binaryPrecedence ts).bind fun rhs _ =>
        readInfix stop parent (.binary lhs op rhs.value) rhs.rest).within (List.suffix_cons _ _)
    else .pure lhs (op :: ts)
  | [] => .pure lhs []
termination_by 4 * ts.length

/-- A parenthesis, a literal or a name; where none stands, the name is a placeholder. -/
def readPrimary (stop : Nat) (ts : List Token) : Reading Expr ts :=
  match ts with
  | t :: ts =>
    match t.kind with
    | .openParen =>
      ((readExpr stop ts).bind fun inner _ =>
        (Reading.expect stop .closeParen inner.rest).bind fun closing _ =>
          .pure (.paren t inner.value closing.value) closing.rest).within (List.suffix_cons _ _)
    | .trueKeyword =>
      (Reading.pure (.literal t (some (.bool true))) ts).within (List.suffix_cons _ _)
    | .falseKeyword =>
      (Reading.pure (.literal t (some (.bool false))) ts).within (List.suffix_cons _ _)
    | .number => (Reading.pure (.literal t t.value) ts).within (List.suffix_cons _ _)
    | _ =>
      (Reading.expect stop .identifier (t :: ts)).bind fun ident _ =>
        .pure (.name ident.value) ident.rest
  | [] =>
    (Reading.expect stop .identifier []).bind fun ident _ => .pure (.name ident.value) ident.rest
termination_by 4 * ts.length + 1

end

/-! ## Statements -/

/-- Where a block goes on after a statement of `t :: ts` that left `rest`: one token later if the
statement took none. -/
def skipStuck (t : Token) (ts rest : List Token) : List Token :=
  if rest == t :: ts then ts else rest

theorem skipStuck_suffix {t : Token} {ts rest : List Token} (h : rest <:+ t :: ts) :
    skipStuck t ts rest <:+ t :: ts := by
  unfold skipStuck
  split
  · exact List.suffix_cons t ts
  · exact h

theorem length_skipStuck_lt {t : Token} {ts rest : List Token} (h : rest <:+ t :: ts) :
    (skipStuck t ts rest).length < (t :: ts).length := by
  unfold skipStuck
  split
  · simp
  · rename_i hne
    refine Nat.lt_of_le_of_ne h.length_le fun hlen => hne ?_
    exact beq_iff_eq.mpr (h.eq_of_length hlen)

mutual

def readStmt (stop : Nat) (ts : List Token) : Reading Stmt ts :=
  match ts with
  | t :: ts =>
    match t.kind with
    | .openBrace =>
      ((readBody stop ts).bind fun body _ =>
        (Reading.expect stop .closeBrace body.rest).bind fun closing _ =>
          .pure (.block t body.value closing.value) closing.rest).within (List.suffix_cons _ _)
    | .letKeyword | .varKeyword =>
      ((Reading.expect stop .identifier ts).bind fun ident _ =>
        (Reading.expect stop .eq ident.rest).bind fun eq _ =>
          (readExpr stop eq.rest).bind fun init _ =>
            .pure (.decl t ident.value eq.value init.value) init.rest).within (List.suffix_cons _ _)
    | .ifKeyword =>
      ((readExpr stop ts).bind fun cond _ =>
        (readStmt stop cond.rest).bind fun yes _ =>
          readElse stop t cond.value yes.value yes.rest).within (List.suffix_cons _ _)
    | .whileKeyword =>
      ((readExpr stop ts).bind fun cond _ =>
        (readStmt stop cond.rest).bind fun body _ =>
          .pure (.while t cond.value body.value) body.rest).within (List.suffix_cons _ _)
    | .forKeyword =>
      ((Reading.expect stop .identifier ts).bind fun ident _ =>
        (Reading.expect stop .eq ident.rest).bind fun eq _ =>
          (readExpr stop eq.rest).bind fun lower _ =>
            (Reading.expect stop .toKeyword lower.rest).bind fun sep _ =>
              (readExpr stop sep.rest).bind fun upper _ =>
                (readStmt stop upper.rest).bind fun body _ =>
                  .pure (.for t ident.value eq.value lower.value sep.value upper.value body.value)
                    body.rest).within (List.suffix_cons _ _)
    | _ => (readExpr stop (t :: ts)).bind fun e _ => .pure (.expr e.value) e.rest
  | [] => (readExpr stop []).bind fun e _ => .pure (.expr e.value) e.rest
termination_by 2 * ts.length

def readElse (stop : Nat) (keyword : Token) (cond : Expr) (yes : Stmt) (ts : List Token) :
    Reading Stmt ts :=
  match ts with
  | t :: ts =>
    if t.kind = .elseKeyword then
      ((readStmt stop ts).bind fun no _ =>
        .pure (.ifElse keyword cond yes t no.value) no.rest).within (List.suffix_cons _ _)
    else .pure (.ifThen keyword cond yes) (t :: ts)
  | [] => .pure (.ifThen keyword cond yes) []
termination_by 2 * ts.length

/-- The statements of a block, up to its closing brace or the end of the text. A token at which no
statement can start is skipped, after the statement of placeholders read there. -/
def readBody (stop : Nat) (ts : List Token) : Reading (List Stmt) ts :=
  match ts with
  | t :: ts =>
    if t.kind = .closeBrace then .pure [] (t :: ts)
    else
      match readStmt stop (t :: ts) with
      | ⟨s, h⟩ =>
        let body := (readBody stop (skipStuck t ts s.rest)).within (skipStuck_suffix h)
        ⟨s.bind fun s _ => body.val.map (s :: ·), body.property⟩
  | [] => .pure [] []
termination_by 2 * ts.length + 1
decreasing_by
  · omega
  · have := length_skipStuck_lt h
    omega

end

end Scriptlet.Syntax
