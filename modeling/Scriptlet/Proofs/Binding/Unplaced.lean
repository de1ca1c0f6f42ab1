import Scriptlet.Binding.Layer
import Scriptlet.Proofs.Syntax.Unplaced

/-!
# Binding without places

Binding looks at kinds, texts and values of tokens and at whether they were made up. Places only end
up in the reports.
-/

namespace Scriptlet.Binding

open Typed (Variable UnaryRow BinaryRow)

structure Bound.Alike {α : Type} (b b' : Bound α) : Prop where
  tree : b'.tree = b.tree
  faults : b'.reports.map (·.fault) = b.reports.map (·.fault)

/-! ## Expressions -/

theorem bindUnary_unplaced (op : Token) {operand operand' : Bound Typed.Expr}
    (h : operand.Alike operand') :
    (bindUnary op operand).Alike (bindUnary op.unplaced operand') := by
  unfold bindUnary
  simp only [Token.unplaced_kind, Token.unplaced_text, h.tree]
  cases UnaryRow.find? op.kind operand.tree.type with
  | some row => exact ⟨rfl, h.faults⟩
  | none =>
    refine ⟨rfl, ?_⟩
    simp only [List.map_append, h.faults, List.map_cons, List.map_nil]

theorem bindBinary_unplaced (op : Token) {lhs lhs' rhs rhs' : Bound Typed.Expr}
    (hl : lhs.Alike lhs') (hr : rhs.Alike rhs') :
    (bindBinary lhs op rhs).Alike (bindBinary lhs' op.unplaced rhs') := by
  unfold bindBinary
  simp only [Token.unplaced_kind, Token.unplaced_text, hl.tree, hr.tree]
  cases BinaryRow.find? op.kind lhs.tree.type rhs.tree.type with
  | some row =>
    refine ⟨rfl, ?_⟩
    simp only [List.map_append, hl.faults, hr.faults]
  | none =>
    refine ⟨rfl, ?_⟩
    simp only [List.map_append, hl.faults, hr.faults, List.map_cons, List.map_nil]

theorem bindName_unplaced (scopes : ScopeStack) (ident : Token) :
    (bindName scopes ident).Alike (bindName scopes ident.unplaced) := by
  unfold bindName
  simp only [Token.unplaced_isMissing, Token.unplaced_text]
  by_cases hmissing : ident.isMissing = true
  · simp only [hmissing, if_true]
    exact ⟨rfl, rfl⟩
  · simp only [hmissing]
    cases scopes.find? ident.text with
    | some v => exact ⟨rfl, rfl⟩
    | none => exact ⟨rfl, rfl⟩

theorem bindAssign_unplaced (scopes : ScopeStack) (ident eq : Token) (span span' : Span)
    {rhs rhs' : Bound Typed.Expr} (h : rhs.Alike rhs') :
    (bindAssign scopes ident eq span rhs).Alike
      (bindAssign scopes ident.unplaced eq.unplaced span' rhs') := by
  unfold bindAssign
  simp only [Token.unplaced_text, h.tree]
  cases scopes.find? ident.text with
  | none =>
    refine ⟨rfl, ?_⟩
    simp only [List.map_append, h.faults, List.map_cons, List.map_nil]
  | some v =>
    by_cases htype : rhs.tree.type = v.type
    · simp only [if_pos htype]
      refine ⟨rfl, ?_⟩
      cases v.readOnly <;> simp [h.faults]
    · simp only [if_neg htype]
      refine ⟨rfl, ?_⟩
      cases v.readOnly <;> simp [h.faults]

theorem bindExpr_unplaced (scopes : ScopeStack) (e : Syntax.Expr) :
    (bindExpr scopes e).Alike (bindExpr scopes e.unplaced) := by
  induction e with
  | literal t value => exact ⟨rfl, rfl⟩
  | unary op operand ih => exact bindUnary_unplaced op ih
  | binary lhs op rhs ihl ihr => exact bindBinary_unplaced op ihl ihr
  | paren o inner c ih => exact ⟨congrArg Typed.Expr.paren ih.tree, ih.faults⟩
  | name ident => exact bindName_unplaced scopes ident
  | assign ident eq rhs ih => exact bindAssign_unplaced scopes ident eq _ _ ih

theorem bindExprAs_unplaced (scopes : ScopeStack) (target : Ty) (e : Syntax.Expr) :
    (bindExprAs scopes target e).Alike (bindExprAs scopes target e.unplaced) := by
  have h := bindExpr_unplaced scopes e
  unfold bindExprAs
  simp only [h.tree]
  by_cases htype : (bindExpr scopes e).tree.type = target
  · simp only [if_pos htype]
    exact h
  · simp only [if_neg htype]
    refine ⟨rfl, ?_⟩
    simp only [List.map_append, h.faults, List.map_cons, List.map_nil]

/-! ## Statements -/

structure Scoped.Alike {α : Type} (b b' : Scoped α) : Prop where
  tree : b'.tree = b.tree
  scope : b'.scope = b.scope
  faults : b'.reports.map (·.fault) = b.reports.map (·.fault)

theorem declareIn_unplaced (scope : Scope) (ident : Token) (v : Variable) :
    (declareIn scope ident.unplaced v).1 = (declareIn scope ident v).1 ∧
      (declareIn scope ident.unplaced v).2.map (·.fault) =
        (declareIn scope ident v).2.map (·.fault) := by
  by_cases hmissing : ident.isMissing = true
  · simp [declareIn, hmissing]
  · cases hdeclare : scope.declare? v with
    | some scope => simp [declareIn, hmissing, hdeclare]
    | none => simp [declareIn, hmissing, hdeclare]

mutual

theorem bindStmt_unplaced (outer : ScopeStack) (scope : Scope) : ∀ s : Syntax.Stmt,
    (bindStmt outer scope s).Alike (bindStmt outer scope s.unplaced)
  | .block o body c => by
    have h := bindBody_unplaced (scope :: outer) {} body
    exact ⟨congrArg Typed.Stmt.block h.tree, rfl, h.faults⟩
  | .expr e => by
    have h := bindExpr_unplaced (scope :: outer) e
    exact ⟨congrArg Typed.Stmt.expr h.tree, rfl, h.faults⟩
  | .decl keyword ident eq init => by
    have h := bindExpr_unplaced (scope :: outer) init
    let v : Variable := ⟨ident.text, keyword.kind = .letKeyword,
      (bindExpr (scope :: outer) init).tree.type⟩
    obtain ⟨hscope, hfaults⟩ := declareIn_unplaced scope ident v
    simp only [Syntax.Stmt.unplaced, bindStmt, Token.unplaced_text, Token.unplaced_kind, h.tree]
    refine ⟨rfl, hscope, ?_⟩
    simp only [List.map_append, h.faults]
    exact congrArg _ hfaults
  | .ifThen k cond yes => by
    have hc := bindExprAs_unplaced (scope :: outer) .bool cond
    have hy := bindStmt_unplaced (scope :: outer) {} yes
    simp only [Syntax.Stmt.unplaced, bindStmt, hc.tree, hy.tree]
    refine ⟨rfl, rfl, ?_⟩
    simp only [List.map_append, hc.faults, hy.faults]
  | .ifElse k cond yes k' no => by
    have hc := bindExprAs_unplaced (scope :: outer) .bool cond
    have hy := bindStmt_unplaced (scope :: outer) {} yes
    have hn := bindStmt_unplaced (scope :: outer) {} no
    simp only [Syntax.Stmt.unplaced, bindStmt, hc.tree, hy.tree, hn.tree]
    refine ⟨rfl, rfl, ?_⟩
    simp only [List.map_append, hc.faults, hy.faults, hn.faults]
  | .while k cond body => by
    have hc := bindExprAs_unplaced (scope :: outer) .bool cond
    have hb := bindStmt_unplaced (scope :: outer) {} body
    simp only [Syntax.Stmt.unplaced, bindStmt, hc.tree, hb.tree]
    refine ⟨rfl, rfl, ?_⟩
    simp only [List.map_append, hc.faults, hb.faults]
  | .for k ident eq lower sep upper body => by
    have hlo := bindExprAs_unplaced (scope :: outer) .int lower
    have hhi := bindExprAs_unplaced (scope :: outer) .int upper
    obtain ⟨hscope, hfaults⟩ := declareIn_unplaced {} ident ⟨ident.text, false, .int⟩
    have hb := bindStmt_unplaced (scope :: outer)
      (declareIn {} ident ⟨ident.text, false, .int⟩).1 body
    simp only [Syntax.Stmt.unplaced, bindStmt, Token.unplaced_text, hlo.tree, hhi.tree, hscope,
      hb.tree]
    refine ⟨rfl, rfl, ?_⟩
    simp only [List.map_append, hlo.faults, hhi.faults, hfaults, hb.faults]

theorem bindBody_unplaced (outer : ScopeStack) (scope : Scope) : ∀ ss : List Syntax.Stmt,
    (bindBody outer scope ss).Alike (bindBody outer scope (Syntax.Stmt.unplacedAll ss))
  | [] => ⟨rfl, rfl, rfl⟩
  | s :: ss => by
    have h := bindStmt_unplaced outer scope s
    have hs := bindBody_unplaced outer (bindStmt outer scope s).scope ss
    simp only [Syntax.Stmt.unplacedAll, bindBody, h.tree, h.scope, hs.tree, hs.scope]
    refine ⟨rfl, rfl, ?_⟩
    simp only [List.map_append, h.faults, hs.faults]

end

end Scriptlet.Binding
