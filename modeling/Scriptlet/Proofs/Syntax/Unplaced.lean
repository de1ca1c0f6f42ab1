import Scriptlet.Syntax.Rules

/-!
# Trees without places

What is read does not depend on where the tokens stand: to forget the places of tokens before
reading them, or in the tree afterwards, is the same.
-/

namespace Scriptlet

namespace Token

/-- The token with its place forgotten, but not its length, so that what was made up can still be
told from what was read. -/
def unplaced (t : Token) : Token := { t with span := ⟨0, t.span.len⟩ }

@[simp] theorem unplaced_kind (t : Token) : t.unplaced.kind = t.kind := rfl

@[simp] theorem unplaced_text (t : Token) : t.unplaced.text = t.text := rfl

@[simp] theorem unplaced_value (t : Token) : t.unplaced.value = t.value := rfl

@[simp] theorem unplaced_isMissing (t : Token) : t.unplaced.isMissing = t.isMissing := rfl

@[simp] theorem unplaced_missing (kind : Kind) (pos : Nat) :
    (missing kind pos).unplaced = missing kind 0 := rfl

@[simp] theorem unplaced_eofAt (pos : Nat) : (eofAt pos).unplaced = eofAt 0 := rfl

end Token

namespace Syntax

open Token (Kind)

def Expr.unplaced : Expr → Expr
  | literal t value => literal t.unplaced value
  | unary op operand => unary op.unplaced operand.unplaced
  | binary lhs op rhs => binary lhs.unplaced op.unplaced rhs.unplaced
  | paren o inner c => paren o.unplaced inner.unplaced c.unplaced
  | name ident => name ident.unplaced
  | assign ident eq rhs => assign ident.unplaced eq.unplaced rhs.unplaced

namespace Stmt

mutual

def unplaced : Stmt → Stmt
  | .block o body c => .block o.unplaced (unplacedAll body) c.unplaced
  | .expr e => .expr e.unplaced
  | .decl k ident eq init => .decl k.unplaced ident.unplaced eq.unplaced init.unplaced
  | .ifThen k cond yes => .ifThen k.unplaced cond.unplaced yes.unplaced
  | .ifElse k cond yes k' no =>
    .ifElse k.unplaced cond.unplaced yes.unplaced k'.unplaced no.unplaced
  | .while k cond body => .while k.unplaced cond.unplaced body.unplaced
  | .for k ident eq lower sep upper body =>
    .for k.unplaced ident.unplaced eq.unplaced lower.unplaced sep.unplaced upper.unplaced
      body.unplaced

def unplacedAll : List Stmt → List Stmt
  | [] => []
  | s :: ss => s.unplaced :: unplacedAll ss

end

end Stmt

def SourceUnit.unplaced (u : SourceUnit) : SourceUnit := ⟨u.stmt.unplaced, u.eof.unplaced⟩

/-! ## Readings without places -/

/-- `r'` is `r` without places: its value comes from that of `r` by `f`, and its reports name the
same faults. -/
structure Forgets {α : Type} (f : α → α) (r r' : Parsed α) : Prop where
  value : r'.value = f r.value
  rest : r'.rest = r.rest.map Token.unplaced
  faults : r'.reports.map (·.fault) = r.reports.map (·.fault)

namespace Forgets

variable {α β : Type} {f : α → α} {g : β → β}

theorem pure (a : α) (ts : List Token) :
    Forgets f (.pure a ts) (.pure (f a) (ts.map Token.unplaced)) := ⟨rfl, rfl, rfl⟩

theorem bind {r r' : Parsed α} (h : Forgets f r r') {k k' : α → List Token → Parsed β}
    (hk : Forgets g (k r.value r.rest) (k' (f r.value) (r.rest.map Token.unplaced))) :
    Forgets g (r.bind k) (r'.bind k') := by
  obtain ⟨hvalue, hrest, hfaults⟩ := h
  rw [← hvalue, ← hrest] at hk
  refine ⟨hk.value, hk.rest, ?_⟩
  simp only [Parsed.bind_reports, List.map_append, hfaults, hk.faults]

theorem map {r r' : Parsed α} (h : Forgets f r r') {c c' : α → β}
    (hc : ∀ a, c' (f a) = g (c a)) : Forgets g (r.map c) (r'.map c') := by
  refine ⟨?_, h.rest, h.faults⟩
  rw [Parsed.map_value, Parsed.map_value, h.value, hc]

theorem ite {p : Prop} [Decidable p] {r₁ r₁' r₂ r₂' : Parsed α} (h₁ : Forgets f r₁ r₁')
    (h₂ : Forgets f r₂ r₂') : Forgets f (if p then r₁ else r₂) (if p then r₁' else r₂') := by
  by_cases h : p
  · rw [if_pos h, if_pos h]
    exact h₁
  · rw [if_neg h, if_neg h]
    exact h₂

theorem expect (stop : Nat) (kind : Kind) (ts : List Token) :
    Forgets Token.unplaced (expect stop kind ts) (expect 0 kind (ts.map Token.unplaced)) := by
  have hcurrent : current 0 (ts.map Token.unplaced) = (current stop ts).unplaced := by
    cases ts <;> rfl
  unfold Syntax.expect
  simp only [hcurrent, ← List.map_tail, Token.unplaced_kind]
  apply ite
  · exact ⟨rfl, rfl, rfl⟩
  · exact ⟨rfl, rfl, rfl⟩

end Forgets

/-! ## Expressions -/

section
variable (stop : Nat)

mutual

theorem parseExpr_forgets (ts : List Token) :
    Forgets Expr.unplaced (parseExpr stop ts) (parseExpr 0 (ts.map Token.unplaced)) := by
  match ts with
  | [] =>
    rw [List.map_nil, parseExpr_nil, parseExpr_nil]
    exact parseBinary_forgets 0 []
  | [t] =>
    rw [List.map_cons, List.map_nil, parseExpr_singleton, parseExpr_singleton]
    exact parseBinary_forgets 0 [t]
  | ident :: eq :: ts =>
    rw [List.map_cons, List.map_cons, parseExpr_cons_cons, parseExpr_cons_cons]
    apply Forgets.ite
    · refine (parseExpr_forgets ts).bind ?_
      exact .pure (Expr.assign ident eq _) _
    · exact parseBinary_forgets 0 (ident :: eq :: ts)
termination_by 4 * ts.length + 3

theorem parseBinary_forgets (parent : Nat) (ts : List Token) :
    Forgets Expr.unplaced (parseBinary stop parent ts)
      (parseBinary 0 parent (ts.map Token.unplaced)) := by
  match ts with
  | [] =>
    have hlen : (parsePrimary stop []).rest.length ≤ 0 := (parsePrimary_suffix stop []).length_le
    rw [List.map_nil, parseBinary_nil, parseBinary_nil]
    exact (parsePrimary_forgets []).bind (parseInfix_forgets parent _ _)
  | op :: ts =>
    have hlen : (parsePrimary stop (op :: ts)).rest.length ≤ ts.length + 1 :=
      (parsePrimary_suffix stop (op :: ts)).length_le
    have hlenOperand := (parseBinary_suffix stop op.kind.unaryPrecedence ts).length_le
    rw [List.map_cons, parseBinary_cons, parseBinary_cons]
    apply Forgets.ite
    · refine (parseBinary_forgets _ ts).bind ?_
      exact parseInfix_forgets parent (Expr.unary op _) _
    · refine (parsePrimary_forgets (op :: ts)).bind ?_
      exact parseInfix_forgets parent _ _
termination_by 4 * ts.length + 2

theorem parseInfix_forgets (parent : Nat) (lhs : Expr) (ts : List Token) :
    Forgets Expr.unplaced (parseInfix stop parent lhs ts)
      (parseInfix 0 parent lhs.unplaced (ts.map Token.unplaced)) := by
  match ts with
  | [] =>
    rw [List.map_nil, parseInfix_nil, parseInfix_nil]
    exact .pure lhs []
  | op :: ts =>
    have hlen := (parseBinary_suffix stop op.kind.binaryPrecedence ts).length_le
    rw [List.map_cons, parseInfix_cons, parseInfix_cons]
    apply Forgets.ite
    · refine (parseBinary_forgets _ ts).bind ?_
      exact parseInfix_forgets parent (Expr.binary lhs op _) _
    · exact .pure lhs (op :: ts)
termination_by 4 * ts.length

theorem parsePrimary_forgets (ts : List Token) :
    Forgets Expr.unplaced (parsePrimary stop ts) (parsePrimary 0 (ts.map Token.unplaced)) := by
  match ts with
  | [] =>
    rw [List.map_nil, parsePrimary_nil, parsePrimary_nil]
    refine (Forgets.expect stop .identifier []).bind ?_
    exact .pure (Expr.name _) _
  | t :: ts =>
    rw [List.map_cons, parsePrimary_cons, parsePrimary_cons, Token.unplaced_kind]
    cases hkind : t.kind with
    | openParen =>
      refine (parseExpr_forgets ts).bind ?_
      refine (Forgets.expect stop .closeParen _).bind ?_
      exact .pure (Expr.paren t _ _) _
    | trueKeyword => exact .pure (Expr.literal t (some (.bool true))) ts
    | falseKeyword => exact .pure (Expr.literal t (some (.bool false))) ts
    | number => exact .pure (Expr.literal t t.value) ts
    | _ =>
      refine (Forgets.expect stop .identifier (t :: ts)).bind ?_
      exact .pure (Expr.name _) _
termination_by 4 * ts.length + 1

end

/-! ## Statements -/

theorem skipStuck_unplaced {t : Token} {ts rest : List Token} (h : rest <:+ t :: ts) :
    skipStuck t.unplaced (ts.map Token.unplaced) (rest.map Token.unplaced) =
      (skipStuck t ts rest).map Token.unplaced := by
  unfold skipStuck
  by_cases hstuck : rest = t :: ts
  · simp [hstuck]
  · have hmap : rest.map Token.unplaced ≠ t.unplaced :: ts.map Token.unplaced := by
      intro heq
      have hlen := congrArg List.length heq
      simp only [List.length_map, List.length_cons] at hlen
      exact hstuck (h.eq_of_length hlen)
    simp [hstuck, hmap]

mutual

theorem parseStmt_forgets (ts : List Token) :
    Forgets Stmt.unplaced (parseStmt stop ts) (parseStmt 0 (ts.map Token.unplaced)) := by
  match ts with
  | [] =>
    rw [List.map_nil, parseStmt_nil, parseStmt_nil]
    refine (parseExpr_forgets stop []).bind ?_
    exact .pure (Stmt.expr _) _
  | t :: ts =>
    have hcondLen := (parseExpr_suffix stop ts).length_le
    rw [List.map_cons, parseStmt_cons, parseStmt_cons, Token.unplaced_kind]
    cases hkind : t.kind with
    | openBrace =>
      refine (parseBody_forgets ts).bind ?_
      refine (Forgets.expect stop .closeBrace _).bind ?_
      exact .pure (Stmt.block t _ _) _
    | letKeyword | varKeyword =>
      refine (Forgets.expect stop .identifier ts).bind ?_
      refine (Forgets.expect stop .eq _).bind ?_
      refine (parseExpr_forgets stop _).bind ?_
      exact .pure (Stmt.decl t _ _ _) _
    | ifKeyword =>
      have hyesLen := (parseStmt_suffix stop (parseExpr stop ts).rest).length_le
      refine (parseExpr_forgets stop ts).bind ?_
      refine (parseStmt_forgets _).bind ?_
      exact parseElse_forgets t _ _ _
    | whileKeyword =>
      refine (parseExpr_forgets stop ts).bind ?_
      refine (parseStmt_forgets _).bind ?_
      exact .pure (Stmt.while t _ _) _
    | forKeyword =>
      have hupper := (parseExpr_suffix stop _).trans ((expect_suffix stop .toKeyword _).trans
        ((parseExpr_suffix stop _).trans ((expect_suffix stop .eq _).trans
          (expect_suffix stop .identifier ts))))
      have hlen := hupper.length_le
      refine (Forgets.expect stop .identifier ts).bind ?_
      refine (Forgets.expect stop .eq _).bind ?_
      refine (parseExpr_forgets stop _).bind ?_
      refine (Forgets.expect stop .toKeyword _).bind ?_
      refine (parseExpr_forgets stop _).bind ?_
      refine (parseStmt_forgets _).bind ?_
      exact .pure (Stmt.for t _ _ _ _ _ _) _
    | _ =>
      refine (parseExpr_forgets stop (t :: ts)).bind ?_
      exact .pure (Stmt.expr _) _
termination_by 2 * ts.length

theorem parseElse_forgets (keyword : Token) (cond : Expr) (yes : Stmt) (ts : List Token) :
    Forgets Stmt.unplaced (parseElse stop keyword cond yes ts)
      (parseElse 0 keyword.unplaced cond.unplaced yes.unplaced (ts.map Token.unplaced)) := by
  match ts with
  | [] =>
    rw [List.map_nil, parseElse_nil, parseElse_nil]
    exact .pure (Stmt.ifThen keyword cond yes) []
  | t :: ts =>
    rw [List.map_cons, parseElse_cons, parseElse_cons]
    apply Forgets.ite
    · refine (parseStmt_forgets ts).bind ?_
      exact .pure (Stmt.ifElse keyword cond yes t _) _
    · exact .pure (Stmt.ifThen keyword cond yes) (t :: ts)
termination_by 2 * ts.length

theorem parseBody_forgets (ts : List Token) :
    Forgets Stmt.unplacedAll (parseBody stop ts) (parseBody 0 (ts.map Token.unplaced)) := by
  match ts with
  | [] =>
    rw [List.map_nil, parseBody_nil, parseBody_nil]
    exact .pure [] []
  | t :: ts =>
    have hsuffix := parseStmt_suffix stop (t :: ts)
    have hlen : (skipStuck t ts (parseStmt stop (t :: ts)).rest).length < ts.length + 1 :=
      length_skipStuck_lt hsuffix
    rw [List.map_cons, parseBody_cons, parseBody_cons]
    apply Forgets.ite
    · exact .pure [] (t :: ts)
    · refine (parseStmt_forgets (t :: ts)).bind ?_
      rw [skipStuck_unplaced hsuffix]
      exact (parseBody_forgets _).map fun _ => rfl
termination_by 2 * ts.length + 1

end

theorem parseUnit_forgets (ts : List Token) :
    Forgets SourceUnit.unplaced (parseUnit stop ts) (parseUnit 0 (ts.map Token.unplaced)) := by
  unfold parseUnit
  refine (parseStmt_forgets stop ts).bind ?_
  refine (Forgets.expect stop .eof _).bind ?_
  exact .pure (SourceUnit.mk _ _) _

end

end Syntax

end Scriptlet
