import Scriptlet.Proofs.Binding.Reports
import Scriptlet.Proofs.Typed.Safe

/-!
# Binding makes safe trees

Whatever a syntax tree looks like, the tree it binds to is safe for the slots of the variables that
can be found where it is bound. If nothing was reported, conditions and bounds have their types too.
-/

namespace Scriptlet.Binding

open Typed (Variable Slot UnaryRow BinaryRow)
open Run (Stuck)

def Knows (known : List Slot) (scopes : ScopeStack) : Prop :=
  ∀ name v, scopes.find? name = some v → v.slot ∈ known

theorem Knows.enter {known : List Slot} {scopes : ScopeStack} (h : Knows known scopes) :
    Knows known ({} :: scopes) := h

theorem Knows.snoc {known : List Slot} {scope : Scope} {outer : ScopeStack}
    (h : Knows known (scope :: outer)) (v : Variable) :
    Knows (v.slot :: known) (⟨scope.declared ++ [v]⟩ :: outer) := by
  intro name w hw
  rw [ScopeStack.find?_cons] at hw
  have hold := h name w
  rw [ScopeStack.find?_cons] at hold
  cases hs : Scope.find? ⟨scope.declared ++ [v]⟩ name with
  | some u =>
    rw [hs] at hw
    cases hw
    rcases Scope.find?_snoc hs with rfl | hu
    · exact List.mem_cons_self
    · rw [hu] at hold
      exact List.mem_cons_of_mem _ (hold rfl)
  | none =>
    rw [hs] at hw
    have hnone : scope.find? name = none := by
      rw [Scope.find?_append] at hs
      exact (Option.or_eq_none_iff.mp hs).1
    rw [hnone] at hold
    exact List.mem_cons_of_mem _ (hold hw)

theorem Knows.mono {known known' : List Slot} {scopes : ScopeStack} (h : Knows known scopes)
    (hsub : known ⊆ known') : Knows known' scopes := fun name v hv => hsub (h name v hv)

theorem Knows.declareIn {known : List Slot} {scope : Scope} {outer : ScopeStack}
    (h : Knows known (scope :: outer)) (ident : Token) (v : Variable) :
    Knows (v.slot :: known) ((declareIn scope ident v).1 :: outer) := by
  rcases declareIn_scope scope ident v with he | ⟨_, he⟩
  · rw [he]
    exact h.mono (List.subset_cons_self _ _)
  · rw [he]
    exact h.snoc v

/-! ## Expressions -/

theorem unaryRow_find? {sign : Token.Kind} {type : Ty} {row : UnaryRow}
    (h : UnaryRow.find? sign type = some row) :
    row ∈ UnaryRow.all ∧ row.sign = sign ∧ row.operand = type := by
  have hp := List.find?_some h
  simp only [decide_eq_true_eq] at hp
  exact ⟨List.mem_of_find?_eq_some h, hp⟩

theorem binaryRow_find? {sign : Token.Kind} {lhs rhs : Ty} {row : BinaryRow}
    (h : BinaryRow.find? sign lhs rhs = some row) :
    row ∈ BinaryRow.all ∧ row.sign = sign ∧ row.lhs = lhs ∧ row.rhs = rhs := by
  have hp := List.find?_some h
  simp only [decide_eq_true_eq] at hp
  exact ⟨List.mem_of_find?_eq_some h, hp⟩

theorem bindExpr_safe {known : List Slot} {scopes : ScopeStack} (h : Knows known scopes) :
    ∀ e : Syntax.Expr, (bindExpr scopes e).tree.Safe known
  | .literal _ _ => trivial
  | .unary op operand => by
    have ih := bindExpr_safe h operand
    unfold bindExpr bindUnary
    simp only
    cases hrow : UnaryRow.find? op.kind (bindExpr scopes operand).tree.type with
    | none => exact ih
    | some row =>
      obtain ⟨hmem, _, htype⟩ := unaryRow_find? hrow
      exact ⟨hmem, htype.symm, ih⟩
  | .binary lhs op rhs => by
    have ihl := bindExpr_safe h lhs
    have ihr := bindExpr_safe h rhs
    unfold bindExpr bindBinary
    simp only
    cases hrow : BinaryRow.find? op.kind (bindExpr scopes lhs).tree.type
        (bindExpr scopes rhs).tree.type with
    | none => exact ihl
    | some row =>
      obtain ⟨hmem, _, hl, hr⟩ := binaryRow_find? hrow
      exact ⟨hmem, hl.symm, hr.symm, ihl, ihr⟩
  | .paren _ inner _ => bindExpr_safe h inner
  | .name ident => by
    unfold bindExpr bindName
    split
    · trivial
    · cases hv : scopes.find? ident.text with
      | none => trivial
      | some v => exact h ident.text v hv
  | .assign ident eq rhs => by
    have ih := bindExpr_safe h rhs
    unfold bindExpr bindAssign
    cases hv : scopes.find? ident.text with
    | none => exact ih
    | some v =>
      simp only
      split
      · rename_i htype
        exact ⟨htype, ih⟩
      · exact ih

theorem bindExprAs_safe {known : List Slot} {scopes : ScopeStack} (h : Knows known scopes)
    (target : Ty) (e : Syntax.Expr) : (bindExprAs scopes target e).tree.Safe known := by
  rw [bindExprAs_tree]
  exact bindExpr_safe h e

theorem not_misfits_of_reports {scopes : ScopeStack} {target : Ty} {e : Syntax.Expr}
    (h : (bindExprAs scopes target e).reports = []) (cause : Stuck) :
    ¬ (bindExprAs scopes target e).tree.Misfits target cause := by
  intro hm
  rw [bindExprAs_tree] at hm
  exact hm.1 (bindExprAs_clean h).2

/-! ## Statements -/

mutual

theorem bindStmt_safe : ∀ {known : List Slot} {outer : ScopeStack} {scope : Scope},
    Knows known (scope :: outer) → ∀ s : Syntax.Stmt,
      (bindStmt outer scope s).tree.Safe known ∧
        Knows ((bindStmt outer scope s).tree.after known) ((bindStmt outer scope s).scope :: outer)
  | _, _, _, h, .block _ body _ => ⟨bindBody_safe h.enter body, h⟩
  | _, _, _, h, .expr e => ⟨bindExpr_safe h e, h⟩
  | _, _, _, h, .decl _ ident _ init => ⟨⟨rfl, bindExpr_safe h init⟩, h.declareIn ident _⟩
  | _, _, _, h, .ifThen _ cond yes =>
    ⟨⟨bindExprAs_safe h .bool cond, (bindStmt_safe h.enter yes).1⟩, h⟩
  | _, _, _, h, .ifElse _ cond yes _ no =>
    ⟨⟨bindExprAs_safe h .bool cond, (bindStmt_safe h.enter yes).1, (bindStmt_safe h.enter no).1⟩, h⟩
  | _, _, _, h, .while _ cond body =>
    ⟨⟨bindExprAs_safe h .bool cond, (bindStmt_safe h.enter body).1⟩, h⟩
  | _, _, _, h, .for _ ident _ lower _ upper body =>
    ⟨⟨rfl, bindExprAs_safe h .int lower, bindExprAs_safe h .int upper,
      (bindStmt_safe (h.enter.declareIn ident ⟨ident.text, false, .int⟩) body).1⟩, h⟩

theorem bindBody_safe : ∀ {known : List Slot} {outer : ScopeStack} {scope : Scope},
    Knows known (scope :: outer) → ∀ ss : List Syntax.Stmt,
      Typed.Stmt.AllSafe known (bindBody outer scope ss).tree
  | _, _, _, _, [] => trivial
  | _, _, _, h, s :: ss =>
    ⟨(bindStmt_safe h s).1, bindBody_safe (bindStmt_safe h s).2 ss⟩

end

mutual

theorem not_blames_of_reports (cause : Stuck) : ∀ {outer : ScopeStack} {scope : Scope}
    {s : Syntax.Stmt}, (bindStmt outer scope s).reports = [] →
      ¬ (bindStmt outer scope s).tree.Blames cause
  | _, _, .block _ body _, h => not_anyBlames_of_reports cause body h
  | _, _, .expr _, _ => id
  | _, _, .decl _ _ _ _, _ => id
  | _, _, .ifThen _ cond yes, h => by
    obtain ⟨hc, hy⟩ := bindIfThen_clean h
    rintro (hm | hb)
    · exact not_misfits_of_reports hc cause hm
    · exact not_blames_of_reports cause hy hb
  | _, _, .ifElse _ cond yes _ no, h => by
    obtain ⟨hc, hy, hn⟩ := bindIfElse_clean h
    rintro (hm | hb | hb)
    · exact not_misfits_of_reports hc cause hm
    · exact not_blames_of_reports cause hy hb
    · exact not_blames_of_reports cause hn hb
  | _, _, .while _ cond body, h => by
    obtain ⟨hc, hbody⟩ := bindWhile_clean h
    rintro (hm | hb)
    · exact not_misfits_of_reports hc cause hm
    · exact not_blames_of_reports cause hbody hb
  | _, _, .for _ ident _ lower _ upper body, h => by
    obtain ⟨hlo, hhi, _, hbody⟩ := bindFor_clean h
    rintro (hm | hm | hb)
    · exact not_misfits_of_reports hlo cause hm
    · exact not_misfits_of_reports hhi cause hm
    · exact not_blames_of_reports cause hbody hb

theorem not_anyBlames_of_reports (cause : Stuck) : ∀ {outer : ScopeStack} {scope : Scope}
    (ss : List Syntax.Stmt), (bindBody outer scope ss).reports = [] →
      ¬ Typed.Stmt.AnyBlames (bindBody outer scope ss).tree cause
  | _, _, [], _ => id
  | _, _, s :: ss, h => by
    obtain ⟨hs, hss⟩ := bindBody_clean h
    rintro (hb | hb)
    · exact not_blames_of_reports cause hs hb
    · exact not_anyBlames_of_reports cause ss hss hb

end

end Scriptlet.Binding
