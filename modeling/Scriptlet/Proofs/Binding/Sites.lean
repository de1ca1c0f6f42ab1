import Scriptlet.Proofs.Binding.Reports

/-!
# The sites of a program

Every statement, rest of a block and expression inside a program, with the scopes that are open
where it is bound. A site tells which declaration an assignment is resolved to, and which variable
is declared. What is bound without a report has no site with one.
-/

namespace Scriptlet.Binding

open Typed (Variable)

inductive Part
  | stmt (s : Syntax.Stmt)
  | body (ss : List Syntax.Stmt)
  | expr (e : Syntax.Expr)

/-- A part of a program and the scopes open at it, innermost first. -/
structure Site where
  scopes : ScopeStack
  part : Part

def exprSites (scopes : ScopeStack) (e : Syntax.Expr) : List Site :=
  ⟨scopes, .expr e⟩ :: match e with
    | .literal _ _ | .name _ => []
    | .unary _ operand => exprSites scopes operand
    | .binary lhs _ rhs => exprSites scopes lhs ++ exprSites scopes rhs
    | .paren _ inner _ => exprSites scopes inner
    | .assign _ _ rhs => exprSites scopes rhs

mutual

def stmtSites (outer : ScopeStack) (scope : Scope) (s : Syntax.Stmt) : List Site :=
  ⟨scope :: outer, .stmt s⟩ :: match s with
    | .block _ body _ => bodySites (scope :: outer) {} body
    | .expr e => exprSites (scope :: outer) e
    | .decl _ _ _ init => exprSites (scope :: outer) init
    | .ifThen _ cond yes => exprSites (scope :: outer) cond ++ stmtSites (scope :: outer) {} yes
    | .ifElse _ cond yes _ no =>
      exprSites (scope :: outer) cond ++
        (stmtSites (scope :: outer) {} yes ++ stmtSites (scope :: outer) {} no)
    | .while _ cond body => exprSites (scope :: outer) cond ++ stmtSites (scope :: outer) {} body
    | .for _ ident _ lower _ upper body =>
      exprSites (scope :: outer) lower ++ (exprSites (scope :: outer) upper ++
        stmtSites (scope :: outer) (declareIn {} ident ⟨ident.text, false, .int⟩).1 body)

def bodySites (outer : ScopeStack) (scope : Scope) (ss : List Syntax.Stmt) : List Site :=
  ⟨scope :: outer, .body ss⟩ :: match ss with
    | [] => []
    | s :: ss => stmtSites outer scope s ++ bodySites outer (bindStmt outer scope s).scope ss

end

namespace Site

def reports : Site → List Diagnostic
  | ⟨scopes, .expr e⟩ => (bindExpr scopes e).reports
  | ⟨scope :: outer, .stmt s⟩ => (bindStmt outer scope s).reports
  | ⟨scope :: outer, .body ss⟩ => (bindBody outer scope ss).reports
  | ⟨[], _⟩ => []

/-- The declaration that an assignment is resolved to, by its level and its name. -/
def target? : Site → Option (Nat × String)
  | ⟨scopes, .expr (.assign ident _ _)⟩ => (scopes.level? ident.text).map (·, ident.text)
  | _ => none

def declares? : Site → Option Variable
  | ⟨scopes, .stmt (.decl keyword ident _ init)⟩ =>
    some ⟨ident.text, keyword.kind = .letKeyword, (bindExpr scopes init).tree.type⟩
  | ⟨_, .stmt (.for _ ident _ _ _ _ _)⟩ => some ⟨ident.text, false, .int⟩
  | _ => none

end Site

/-! ## Reports -/

theorem exprSites_reports {scopes : ScopeStack} : ∀ {e : Syntax.Expr},
    (bindExpr scopes e).reports = [] → ∀ site ∈ exprSites scopes e, site.reports = []
  | .literal _ _, h | .name _, h => by
    unfold exprSites
    simpa [Site.reports] using h
  | .unary op operand, h => by
    unfold exprSites
    exact List.forall_mem_cons.mpr ⟨h, exprSites_reports (bindUnary_clean h).1⟩
  | .binary lhs op rhs, h => by
    unfold exprSites
    obtain ⟨hl, hr, _⟩ := bindBinary_clean h
    exact List.forall_mem_cons.mpr
      ⟨h, List.forall_mem_append.mpr ⟨exprSites_reports hl, exprSites_reports hr⟩⟩
  | .paren _ inner _, h => by
    unfold exprSites
    exact List.forall_mem_cons.mpr ⟨h, exprSites_reports (e := inner) h⟩
  | .assign ident eq rhs, h => by
    unfold exprSites
    exact List.forall_mem_cons.mpr ⟨h, exprSites_reports (bindAssign_clean h).1⟩

theorem exprSites_reports_as {scopes : ScopeStack} {target : Ty} {e : Syntax.Expr}
    (h : (bindExprAs scopes target e).reports = []) :
    ∀ site ∈ exprSites scopes e, site.reports = [] :=
  exprSites_reports (bindExprAs_clean h).1

mutual

theorem stmtSites_reports : ∀ {outer : ScopeStack} {scope : Scope} {s : Syntax.Stmt},
    (bindStmt outer scope s).reports = [] → ∀ site ∈ stmtSites outer scope s, site.reports = []
  | _, _, .block _ body _, h => by
    unfold stmtSites
    exact List.forall_mem_cons.mpr ⟨h, bodySites_reports body h⟩
  | _, _, .expr e, h => by
    unfold stmtSites
    exact List.forall_mem_cons.mpr ⟨h, exprSites_reports (e := e) h⟩
  | _, _, .decl _ _ _ init, h => by
    unfold stmtSites
    exact List.forall_mem_cons.mpr ⟨h, exprSites_reports (bindDecl_clean h).1⟩
  | _, _, .ifThen _ cond yes, h => by
    unfold stmtSites
    obtain ⟨hc, hy⟩ := bindIfThen_clean h
    exact List.forall_mem_cons.mpr
      ⟨h, List.forall_mem_append.mpr ⟨exprSites_reports_as hc, stmtSites_reports hy⟩⟩
  | _, _, .ifElse _ cond yes _ no, h => by
    unfold stmtSites
    obtain ⟨hc, hy, hn⟩ := bindIfElse_clean h
    refine List.forall_mem_cons.mpr
      ⟨h, List.forall_mem_append.mpr ⟨exprSites_reports_as hc, ?_⟩⟩
    exact List.forall_mem_append.mpr ⟨stmtSites_reports hy, stmtSites_reports hn⟩
  | _, _, .while _ cond body, h => by
    unfold stmtSites
    obtain ⟨hc, hb⟩ := bindWhile_clean h
    exact List.forall_mem_cons.mpr
      ⟨h, List.forall_mem_append.mpr ⟨exprSites_reports_as hc, stmtSites_reports hb⟩⟩
  | _, _, .for _ ident _ lower _ upper body, h => by
    unfold stmtSites
    obtain ⟨hlo, hhi, _, hb⟩ := bindFor_clean h
    refine List.forall_mem_cons.mpr
      ⟨h, List.forall_mem_append.mpr ⟨exprSites_reports_as hlo, ?_⟩⟩
    exact List.forall_mem_append.mpr ⟨exprSites_reports_as hhi, stmtSites_reports hb⟩

theorem bodySites_reports : ∀ {outer : ScopeStack} {scope : Scope} (ss : List Syntax.Stmt),
    (bindBody outer scope ss).reports = [] → ∀ site ∈ bodySites outer scope ss, site.reports = []
  | _, _, [], h => by
    unfold bodySites
    exact List.forall_mem_cons.mpr ⟨h, by intro _ hr; cases hr⟩
  | _, _, s :: ss, h => by
    unfold bodySites
    obtain ⟨hs, hss⟩ := bindBody_clean h
    exact List.forall_mem_cons.mpr
      ⟨h, List.forall_mem_append.mpr ⟨stmtSites_reports hs, bodySites_reports ss hss⟩⟩

end

/-! ## Scopes -/

def DeclaredAt (sites : List Site) (v : Variable) : Prop :=
  ∃ site ∈ sites, site.declares? = some v

theorem exprSites_scopes {scopes : ScopeStack} : ∀ {e : Syntax.Expr} {site : Site},
    site ∈ exprSites scopes e → site.scopes = scopes
  | .literal _ _, site, h | .name _, site, h => by
    unfold exprSites at h
    rw [List.mem_singleton.mp h]
  | .unary _ operand, site, h => by
    unfold exprSites at h
    rcases List.mem_cons.mp h with rfl | h
    · rfl
    · exact exprSites_scopes h
  | .binary lhs _ rhs, site, h => by
    unfold exprSites at h
    rcases List.mem_cons.mp h with rfl | h
    · rfl
    · rcases List.mem_append.mp h with h | h
      · exact exprSites_scopes h
      · exact exprSites_scopes h
  | .paren _ inner _, site, h => by
    unfold exprSites at h
    rcases List.mem_cons.mp h with rfl | h
    · rfl
    · exact exprSites_scopes h
  | .assign _ _ rhs, site, h => by
    unfold exprSites at h
    rcases List.mem_cons.mp h with rfl | h
    · rfl
    · exact exprSites_scopes h

theorem exprSites_grows {P : Variable → Prop} {scopes : ScopeStack} {e : Syntax.Expr} :
    ∀ site ∈ exprSites scopes e, ScopeStack.Grows P scopes site.scopes := by
  intro site h
  rw [exprSites_scopes h]
  exact .refl

-- In what follows `sites` is any list with all sites of the statement, so that it need not change
-- from a statement to its parts.

theorem bindStmt_grows {sites : List Site} {outer : ScopeStack} {scope : Scope} (s : Syntax.Stmt)
    (h : stmtSites outer scope s ⊆ sites) :
    ScopeStack.Grows (DeclaredAt sites) (scope :: outer)
      ((bindStmt outer scope s).scope :: outer) := by
  cases s with
  | decl keyword ident eq init =>
    unfold stmtSites at h
    have hvar : DeclaredAt sites ⟨ident.text, keyword.kind = .letKeyword,
        (bindExpr (scope :: outer) init).tree.type⟩ := ⟨_, (List.cons_subset.mp h).1, rfl⟩
    exact grows_declareIn scope outer ident _ hvar
  | _ => exact .refl

mutual

theorem stmtSites_grows {sites : List Site} : ∀ {outer : ScopeStack} {scope : Scope}
    {s : Syntax.Stmt}, stmtSites outer scope s ⊆ sites → ∀ site ∈ stmtSites outer scope s,
      ScopeStack.Grows (DeclaredAt sites) (scope :: outer) site.scopes
  | _, _, .block _ body _, hsub => by
    unfold stmtSites at hsub ⊢
    obtain ⟨_, hbody⟩ := List.cons_subset.mp hsub
    refine List.forall_mem_cons.mpr ⟨.refl, fun site hsite => ?_⟩
    exact (ScopeStack.Grows.enter .refl).trans (bodySites_grows hbody site hsite)
  | _, _, .expr e, _ => by
    unfold stmtSites
    exact List.forall_mem_cons.mpr ⟨.refl, exprSites_grows⟩
  | _, _, .decl _ _ _ init, _ => by
    unfold stmtSites
    exact List.forall_mem_cons.mpr ⟨.refl, exprSites_grows⟩
  | _, _, .ifThen _ cond yes, hsub => by
    unfold stmtSites at hsub ⊢
    obtain ⟨_, hyes⟩ := List.append_subset.mp (List.cons_subset.mp hsub).2
    refine List.forall_mem_cons.mpr
      ⟨.refl, List.forall_mem_append.mpr ⟨exprSites_grows, fun site hsite => ?_⟩⟩
    exact (ScopeStack.Grows.enter .refl).trans (stmtSites_grows hyes site hsite)
  | _, _, .ifElse _ cond yes _ no, hsub => by
    unfold stmtSites at hsub ⊢
    obtain ⟨_, hbranches⟩ := List.append_subset.mp (List.cons_subset.mp hsub).2
    obtain ⟨hyes, hno⟩ := List.append_subset.mp hbranches
    refine List.forall_mem_cons.mpr ⟨.refl, List.forall_mem_append.mpr
      ⟨exprSites_grows, List.forall_mem_append.mpr ⟨fun site hsite => ?_, fun site hsite => ?_⟩⟩⟩
    · exact (ScopeStack.Grows.enter .refl).trans (stmtSites_grows hyes site hsite)
    · exact (ScopeStack.Grows.enter .refl).trans (stmtSites_grows hno site hsite)
  | _, _, .while _ cond body, hsub => by
    unfold stmtSites at hsub ⊢
    obtain ⟨_, hbody⟩ := List.append_subset.mp (List.cons_subset.mp hsub).2
    refine List.forall_mem_cons.mpr
      ⟨.refl, List.forall_mem_append.mpr ⟨exprSites_grows, fun site hsite => ?_⟩⟩
    exact (ScopeStack.Grows.enter .refl).trans (stmtSites_grows hbody site hsite)
  | outer, scope, .for _ ident _ lower _ upper body, hsub => by
    unfold stmtSites at hsub ⊢
    obtain ⟨hself, hparts⟩ := List.cons_subset.mp hsub
    obtain ⟨_, hbody⟩ := List.append_subset.mp (List.append_subset.mp hparts).2
    have hvar : DeclaredAt sites ⟨ident.text, false, .int⟩ := ⟨_, hself, rfl⟩
    have hloop : ScopeStack.Grows (DeclaredAt sites) (scope :: outer)
        ((declareIn {} ident ⟨ident.text, false, .int⟩).1 :: scope :: outer) :=
      (ScopeStack.Grows.enter .refl).trans (grows_declareIn {} (scope :: outer) ident _ hvar)
    refine List.forall_mem_cons.mpr ⟨.refl, List.forall_mem_append.mpr
      ⟨exprSites_grows, List.forall_mem_append.mpr ⟨exprSites_grows, fun site hsite => ?_⟩⟩⟩
    exact hloop.trans (stmtSites_grows hbody site hsite)

theorem bodySites_grows {sites : List Site} : ∀ {outer : ScopeStack} {scope : Scope}
    {ss : List Syntax.Stmt}, bodySites outer scope ss ⊆ sites → ∀ site ∈ bodySites outer scope ss,
      ScopeStack.Grows (DeclaredAt sites) (scope :: outer) site.scopes
  | _, _, [], _ => by
    unfold bodySites
    exact List.forall_mem_cons.mpr ⟨.refl, by intro _ hr; cases hr⟩
  | _, _, s :: ss, hsub => by
    unfold bodySites at hsub ⊢
    obtain ⟨hs, hss⟩ := List.append_subset.mp (List.cons_subset.mp hsub).2
    refine List.forall_mem_cons.mpr
      ⟨.refl, List.forall_mem_append.mpr ⟨stmtSites_grows hs, fun site hsite => ?_⟩⟩
    exact (bindStmt_grows s hs).trans (bodySites_grows hss site hsite)

end

end Scriptlet.Binding
