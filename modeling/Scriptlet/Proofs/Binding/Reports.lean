import Scriptlet.Proofs.Scope

/-!
# Binding without a report

What it says about the parts of a tree, and about the typed tree, that nothing was reported.
-/

namespace Scriptlet.Binding

open Typed (Variable UnaryRow BinaryRow)

/-! ## Expressions -/

theorem bindUnary_clean {op : Token} {operand : Bound Typed.Expr}
    (h : (bindUnary op operand).reports = []) :
    operand.reports = [] ∧ ∃ row, UnaryRow.find? op.kind operand.tree.type = some row ∧
      (bindUnary op operand).tree = .unary row operand.tree := by
  unfold bindUnary at h ⊢
  cases hrow : UnaryRow.find? op.kind operand.tree.type with
  | some row =>
    simp only [hrow] at h ⊢
    exact ⟨h, row, rfl, rfl⟩
  | none => simp [hrow] at h

theorem bindBinary_clean {lhs rhs : Bound Typed.Expr} {op : Token}
    (h : (bindBinary lhs op rhs).reports = []) :
    lhs.reports = [] ∧ rhs.reports = [] ∧
      ∃ row, BinaryRow.find? op.kind lhs.tree.type rhs.tree.type = some row ∧
        (bindBinary lhs op rhs).tree = .binary lhs.tree row rhs.tree := by
  unfold bindBinary at h ⊢
  cases hrow : BinaryRow.find? op.kind lhs.tree.type rhs.tree.type with
  | some row =>
    simp only [hrow] at h ⊢
    obtain ⟨hl, hr⟩ := List.append_eq_nil_iff.mp h
    exact ⟨hl, hr, row, rfl, rfl⟩
  | none => simp [hrow] at h

theorem bindName_clean {scopes : ScopeStack} {ident : Token} (hm : ident.isMissing = false)
    (h : (bindName scopes ident).reports = []) :
    ∃ v, scopes.find? ident.text = some v ∧ (bindName scopes ident).tree = .read v := by
  unfold bindName at h ⊢
  simp only [hm, Bool.false_eq_true, if_false] at h ⊢
  cases hv : scopes.find? ident.text with
  | some v => exact ⟨v, rfl, rfl⟩
  | none => simp [hv] at h

theorem bindAssign_clean {scopes : ScopeStack} {ident eq : Token} {span : Span}
    {rhs : Bound Typed.Expr} (h : (bindAssign scopes ident eq span rhs).reports = []) :
    rhs.reports = [] ∧ ∃ v, scopes.find? ident.text = some v ∧ v.readOnly = false ∧
      rhs.tree.type = v.type ∧ (bindAssign scopes ident eq span rhs).tree = .assign v rhs.tree := by
  unfold bindAssign at h ⊢
  cases hv : scopes.find? ident.text with
  | none => simp [hv] at h
  | some v =>
    simp only [hv] at h ⊢
    by_cases ht : rhs.tree.type = v.type
    · rw [if_pos ht] at h ⊢
      obtain ⟨hrhs, hro⟩ := List.append_eq_nil_iff.mp h
      cases hr : v.readOnly with
      | true => simp [hr] at hro
      | false => exact ⟨hrhs, v, rfl, hr, ht, rfl⟩
    · simp [ht] at h

theorem bindExprAs_tree (scopes : ScopeStack) (target : Ty) (e : Syntax.Expr) :
    (bindExprAs scopes target e).tree = (bindExpr scopes e).tree := by
  unfold bindExprAs
  simp only
  split <;> rfl

theorem bindExprAs_clean {scopes : ScopeStack} {target : Ty} {e : Syntax.Expr}
    (h : (bindExprAs scopes target e).reports = []) :
    (bindExpr scopes e).reports = [] ∧ (bindExpr scopes e).tree.type = target := by
  unfold bindExprAs at h
  by_cases ht : (bindExpr scopes e).tree.type = target
  · simp only [if_pos ht] at h
    exact ⟨h, ht⟩
  · simp [ht] at h

/-! ## Statements -/

theorem declareIn_clean {scope : Scope} {ident : Token} {v : Variable}
    (h : (declareIn scope ident v).2 = []) (hm : ident.isMissing = false) :
    scope.find? v.name = none ∧ (declareIn scope ident v).1 = ⟨scope.declared ++ [v]⟩ := by
  unfold declareIn at h ⊢
  simp only [hm, Bool.false_eq_true, if_false] at h ⊢
  cases hd : scope.declare? v with
  | some s => exact Scope.declare?_eq_some hd
  | none => simp [hd] at h

section
variable {outer : ScopeStack} {scope : Scope}

theorem bindDecl_clean {keyword ident eq : Token} {init : Syntax.Expr}
    (h : (bindStmt outer scope (.decl keyword ident eq init)).reports = []) :
    (bindExpr (scope :: outer) init).reports = [] ∧
      (declareIn scope ident ⟨ident.text, keyword.kind = .letKeyword,
        (bindExpr (scope :: outer) init).tree.type⟩).2 = [] :=
  List.append_eq_nil_iff.mp h

theorem bindIfThen_clean {keyword : Token} {cond : Syntax.Expr} {yes : Syntax.Stmt}
    (h : (bindStmt outer scope (.ifThen keyword cond yes)).reports = []) :
    (bindExprAs (scope :: outer) .bool cond).reports = [] ∧
      (bindStmt (scope :: outer) {} yes).reports = [] :=
  List.append_eq_nil_iff.mp h

theorem bindIfElse_clean {keyword elseKeyword : Token} {cond : Syntax.Expr} {yes no : Syntax.Stmt}
    (h : (bindStmt outer scope (.ifElse keyword cond yes elseKeyword no)).reports = []) :
    (bindExprAs (scope :: outer) .bool cond).reports = [] ∧
      (bindStmt (scope :: outer) {} yes).reports = [] ∧
      (bindStmt (scope :: outer) {} no).reports = [] := by
  obtain ⟨hcy, hn⟩ := List.append_eq_nil_iff.mp h
  obtain ⟨hc, hy⟩ := List.append_eq_nil_iff.mp hcy
  exact ⟨hc, hy, hn⟩

theorem bindWhile_clean {keyword : Token} {cond : Syntax.Expr} {body : Syntax.Stmt}
    (h : (bindStmt outer scope (.while keyword cond body)).reports = []) :
    (bindExprAs (scope :: outer) .bool cond).reports = [] ∧
      (bindStmt (scope :: outer) {} body).reports = [] :=
  List.append_eq_nil_iff.mp h

theorem bindFor_clean {keyword ident eq sep : Token} {lower upper : Syntax.Expr}
    {body : Syntax.Stmt}
    (h : (bindStmt outer scope (.for keyword ident eq lower sep upper body)).reports = []) :
    (bindExprAs (scope :: outer) .int lower).reports = [] ∧
      (bindExprAs (scope :: outer) .int upper).reports = [] ∧
      (declareIn {} ident ⟨ident.text, false, .int⟩).2 = [] ∧
      (bindStmt (scope :: outer) (declareIn {} ident ⟨ident.text, false, .int⟩).1 body).reports
        = [] := by
  obtain ⟨hbounds, hb⟩ := List.append_eq_nil_iff.mp h
  obtain ⟨hbounds, hv⟩ := List.append_eq_nil_iff.mp hbounds
  obtain ⟨hlo, hhi⟩ := List.append_eq_nil_iff.mp hbounds
  exact ⟨hlo, hhi, hv, hb⟩

theorem bindBody_clean {s : Syntax.Stmt} {ss : List Syntax.Stmt}
    (h : (bindBody outer scope (s :: ss)).reports = []) :
    (bindStmt outer scope s).reports = [] ∧
      (bindBody outer (bindStmt outer scope s).scope ss).reports = [] :=
  List.append_eq_nil_iff.mp h

end

end Scriptlet.Binding
