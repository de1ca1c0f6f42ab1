import Scriptlet.Binding.Layer
import Scriptlet.Proofs.Scope

/-!
# Binding on a stack of scopes

The same work done on one stack that is changed on the way: scopes are entered and left, variables
are declared in the innermost one, and a declaration where none is open ends the work. From a stack
with a scope on it this never happens, every scope that is entered is left again, and all that
remains on the stack is the variable of a declaration. So binding needs no more than the innermost
scope to give back.
-/

namespace Scriptlet.Binding

open Typed (Variable UnaryRow BinaryRow)

namespace Stacked

structure State where
  scopes : ScopeStack
  reports : List Diagnostic

/-- Work that ends early with a variable that was declared outside of all scopes. -/
abbrev Work := EStateM Variable State

/-! ## Steps -/

def enter : Work Unit := modify fun σ => { σ with scopes := σ.scopes.enter }

def leave : Work (Option Scope) := do
  let σ ← get
  match σ.scopes.exit? with
  | some (scope, outer) =>
    set { σ with scopes := outer }
    return some scope
  | none => return none

def report (d : Diagnostic) : Work Unit :=
  modify fun σ => { σ with reports := σ.reports ++ [d] }

def reportIf (c : Prop) [Decidable c] (d : Diagnostic) : Work Unit := if c then report d else return

def find? (name : String) : Work (Option Variable) := do return (← get).scopes.find? name

def declare (ident : Token) (v : Variable) : Work Unit :=
  if ident.isMissing then return
  else do
    let σ ← get
    match σ.scopes.declare v with
    | .added scopes => set { σ with scopes }
    | .duplicate => report ⟨ident.span, .alreadyDeclared ident.text⟩
    | .outside => throw v

def inScope {α : Type} (work : Work α) : Work α := do
  enter
  let a ← work
  discard leave
  return a

/-! ## Trees -/

def bindExpr : Syntax.Expr → Work Typed.Expr
  | .literal _ value => return .literal (value.getD (.int 0))
  | .unary op operand => do
    let operand ← bindExpr operand
    match UnaryRow.find? op.kind operand.type with
    | some row => return .unary row operand
    | none =>
      report ⟨op.span, .undefinedUnary op.text operand.type.name⟩
      return operand
  | .binary lhs op rhs => do
    let lhs ← bindExpr lhs
    let rhs ← bindExpr rhs
    match BinaryRow.find? op.kind lhs.type rhs.type with
    | some row => return .binary lhs row rhs
    | none =>
      report ⟨op.span, .undefinedBinary op.text lhs.type.name rhs.type.name⟩
      return lhs
  | .paren _ inner _ => return .paren (← bindExpr inner)
  | .name ident =>
    if ident.isMissing then return zero
    else do
      match ← find? ident.text with
      | some v => return .read v
      | none =>
        report ⟨ident.span, .undefinedName ident.text⟩
        return zero
  | .assign ident eq rhs => do
    let value ← bindExpr rhs
    match ← find? ident.text with
    | none =>
      report ⟨ident.span, .undefinedName ident.text⟩
      return value
    | some v =>
      reportIf v.readOnly ⟨eq.span, .cannotAssign ident.text⟩
      if value.type = v.type then return .assign v value
      else
        report ⟨rhs.span, .cannotConvert value.type.name v.type.name⟩
        return value

def bindExprAs (target : Ty) (e : Syntax.Expr) : Work Typed.Expr := do
  let value ← bindExpr e
  if value.type = target then return value
  else
    report ⟨e.span, .cannotConvert value.type.name target.name⟩
    return value

mutual

def bindStmt : Syntax.Stmt → Work Typed.Stmt
  | .block _ body _ => return .block (← inScope (bindBody body))
  | .expr e => return .expr (← bindExpr e)
  | .decl keyword ident _ init => do
    let init ← bindExpr init
    let v : Variable := ⟨ident.text, keyword.kind = .letKeyword, init.type⟩
    declare ident v
    return .decl v init
  | .ifThen _ cond yes => do
    let cond ← bindExprAs .bool cond
    return .ifThen cond (← inScope (bindStmt yes))
  | .ifElse _ cond yes _ no => do
    let cond ← bindExprAs .bool cond
    let yes ← inScope (bindStmt yes)
    return .ifElse cond yes (← inScope (bindStmt no))
  | .while _ cond body => do
    let cond ← bindExprAs .bool cond
    return .while cond (← inScope (bindStmt body))
  | .for _ ident _ lower _ upper body => do
    let lower ← bindExprAs .int lower
    let upper ← bindExprAs .int upper
    let v : Variable := ⟨ident.text, false, .int⟩
    inScope do
      declare ident v
      return .for v lower upper (← bindStmt body)

def bindBody : List Syntax.Stmt → Work (List Typed.Stmt)
  | [] => return []
  | s :: ss => do
    let s ← bindStmt s
    return s :: (← bindBody ss)

end

def bindUnit (unit : Syntax.SourceUnit) : Work (Typed.Stmt × List Variable) := do
  enter
  let stmt ← bindStmt unit.stmt
  return (stmt, (← leave).elim [] (·.declared))

/-! ## What the steps do -/

section
variable {α β : Type}

theorem bind_of_ok {work : Work α} {f : α → Work β} {a : α} {σ σ' : State}
    (h : work σ = .ok a σ') : (work >>= f) σ = f a σ' := by
  show EStateM.bind work f σ = f a σ'
  unfold EStateM.bind
  rw [h]

theorem inScope_of_ok {work : Work α} {a : α} {stack : ScopeStack} {scope : Scope}
    {reports reports' : List Diagnostic}
    (h : work ⟨{} :: stack, reports⟩ = .ok a ⟨scope :: stack, reports'⟩) :
    inScope work ⟨stack, reports⟩ = .ok a ⟨stack, reports'⟩ := by
  have henter : enter ⟨stack, reports⟩ = .ok () ⟨{} :: stack, reports⟩ := rfl
  unfold inScope
  rw [bind_of_ok henter, bind_of_ok h]
  rfl

end

theorem find?_eq (name : String) (scopes : ScopeStack) (reports : List Diagnostic) :
    find? name ⟨scopes, reports⟩ = .ok (scopes.find? name) ⟨scopes, reports⟩ := rfl

theorem report_eq (d : Diagnostic) (scopes : ScopeStack) (reports : List Diagnostic) :
    report d ⟨scopes, reports⟩ = .ok () ⟨scopes, reports ++ [d]⟩ := rfl

theorem reportIf_eq (c : Prop) [Decidable c] (d : Diagnostic) (scopes : ScopeStack)
    (reports : List Diagnostic) : reportIf c d ⟨scopes, reports⟩ =
      .ok () ⟨scopes, reports ++ if c then [d] else []⟩ := by
  unfold reportIf
  by_cases hc : c
  · rw [if_pos hc, if_pos hc]
    rfl
  · rw [if_neg hc, if_neg hc, List.append_nil]
    rfl

theorem declare_eq (ident : Token) (v : Variable) (scope : Scope) (outer : ScopeStack)
    (reports : List Diagnostic) :
    declare ident v ⟨scope :: outer, reports⟩ =
      .ok () ⟨(declareIn scope ident v).1 :: outer, reports ++ (declareIn scope ident v).2⟩ := by
  have hget : (get : Work State) ⟨scope :: outer, reports⟩ =
    .ok ⟨scope :: outer, reports⟩ ⟨scope :: outer, reports⟩ := rfl
  unfold declare declareIn
  by_cases hm : ident.isMissing = true
  · rw [if_pos hm, if_pos hm, List.append_nil]
    rfl
  · rw [if_neg hm, if_neg hm, bind_of_ok hget]
    simp only [ScopeStack.declare]
    cases scope.declare? v with
    | some scope' => rw [List.append_nil]; rfl
    | none => rfl

-- Where no scope is open, the same step ends the work.
example (v : Variable) : declare ⟨.identifier, ⟨4, 1⟩, "x", none⟩ v ⟨[], []⟩ = .error v ⟨[], []⟩ :=
  rfl

/-! ## Expressions leave the stack alone -/

theorem bindExpr_eq (scopes : ScopeStack) : ∀ (e : Syntax.Expr) (reports : List Diagnostic),
    bindExpr e ⟨scopes, reports⟩ = .ok (Binding.bindExpr scopes e).tree
      ⟨scopes, reports ++ (Binding.bindExpr scopes e).reports⟩
  | .literal _ value, reports => by
    simp only [bindExpr, Binding.bindExpr, List.append_nil]
    rfl
  | .unary op operand, reports => by
    unfold bindExpr Binding.bindExpr bindUnary
    rw [bind_of_ok (bindExpr_eq scopes operand reports)]
    simp only
    cases UnaryRow.find? op.kind (Binding.bindExpr scopes operand).tree.type with
    | some row => rfl
    | none =>
      simp only [bind_of_ok (report_eq _ _ _), List.append_assoc]
      rfl
  | .binary lhs op rhs, reports => by
    unfold bindExpr Binding.bindExpr bindBinary
    rw [bind_of_ok (bindExpr_eq scopes lhs reports), bind_of_ok (bindExpr_eq scopes rhs _)]
    simp only
    cases BinaryRow.find? op.kind (Binding.bindExpr scopes lhs).tree.type
        (Binding.bindExpr scopes rhs).tree.type with
    | some row =>
      simp only [List.append_assoc]
      rfl
    | none =>
      simp only [bind_of_ok (report_eq _ _ _), List.append_assoc]
      rfl
  | .paren _ inner _, reports => by
    unfold bindExpr Binding.bindExpr
    rw [bind_of_ok (bindExpr_eq scopes inner reports)]
    rfl
  | .name ident, reports => by
    unfold bindExpr Binding.bindExpr bindName
    by_cases hm : ident.isMissing = true
    · rw [if_pos hm, if_pos hm, List.append_nil]
      rfl
    · rw [if_neg hm, if_neg hm, bind_of_ok (find?_eq _ _ _)]
      cases scopes.find? ident.text with
      | some v => rw [List.append_nil]; rfl
      | none => rfl
  | .assign ident eq rhs, reports => by
    unfold bindExpr Binding.bindExpr bindAssign
    rw [bind_of_ok (bindExpr_eq scopes rhs reports), bind_of_ok (find?_eq _ _ _)]
    cases scopes.find? ident.text with
    | none =>
      simp only [bind_of_ok (report_eq _ _ _), List.append_assoc]
      rfl
    | some v =>
      simp only [bind_of_ok (reportIf_eq _ _ _ _), List.append_assoc]
      by_cases ht : (Binding.bindExpr scopes rhs).tree.type = v.type
      · rw [if_pos ht, if_pos ht]
        rfl
      · rw [if_neg ht, if_neg ht, bind_of_ok (report_eq _ _ _)]
        simp only [List.append_assoc]
        rfl

theorem bindExprAs_eq (scopes : ScopeStack) (target : Ty) (e : Syntax.Expr)
    (reports : List Diagnostic) :
    bindExprAs target e ⟨scopes, reports⟩ = .ok (Binding.bindExprAs scopes target e).tree
      ⟨scopes, reports ++ (Binding.bindExprAs scopes target e).reports⟩ := by
  unfold bindExprAs Binding.bindExprAs
  rw [bind_of_ok (bindExpr_eq scopes e reports)]
  simp only
  by_cases ht : (Binding.bindExpr scopes e).tree.type = target
  · rw [if_pos ht, if_pos ht]
    rfl
  · rw [if_neg ht, if_neg ht, bind_of_ok (report_eq _ _ _), List.append_assoc]
    rfl

/-! ## Statements give the stack back -/

mutual

theorem bindStmt_eq : ∀ (s : Syntax.Stmt) (scope : Scope) (outer : ScopeStack)
    (reports : List Diagnostic),
    bindStmt s ⟨scope :: outer, reports⟩ = .ok (Binding.bindStmt outer scope s).tree
      ⟨(Binding.bindStmt outer scope s).scope :: outer,
        reports ++ (Binding.bindStmt outer scope s).reports⟩
  | .block _ body _, scope, outer, reports => by
    unfold bindStmt Binding.bindStmt
    rw [bind_of_ok (inScope_of_ok (bindBody_eq body {} (scope :: outer) reports))]
    rfl
  | .expr e, scope, outer, reports => by
    unfold bindStmt Binding.bindStmt
    rw [bind_of_ok (bindExpr_eq (scope :: outer) e reports)]
    rfl
  | .decl keyword ident _ init, scope, outer, reports => by
    unfold bindStmt Binding.bindStmt
    rw [bind_of_ok (bindExpr_eq (scope :: outer) init reports), bind_of_ok (declare_eq _ _ _ _ _),
      List.append_assoc]
    rfl
  | .ifThen _ cond yes, scope, outer, reports => by
    unfold bindStmt Binding.bindStmt
    rw [bind_of_ok (bindExprAs_eq (scope :: outer) .bool cond reports),
      bind_of_ok (inScope_of_ok (bindStmt_eq yes {} (scope :: outer) _)), List.append_assoc]
    rfl
  | .ifElse _ cond yes _ no, scope, outer, reports => by
    unfold bindStmt Binding.bindStmt
    rw [bind_of_ok (bindExprAs_eq (scope :: outer) .bool cond reports),
      bind_of_ok (inScope_of_ok (bindStmt_eq yes {} (scope :: outer) _)),
      bind_of_ok (inScope_of_ok (bindStmt_eq no {} (scope :: outer) _)), List.append_assoc,
      List.append_assoc]
    simp only [List.append_assoc]
    rfl
  | .while _ cond body, scope, outer, reports => by
    unfold bindStmt Binding.bindStmt
    rw [bind_of_ok (bindExprAs_eq (scope :: outer) .bool cond reports),
      bind_of_ok (inScope_of_ok (bindStmt_eq body {} (scope :: outer) _)), List.append_assoc]
    rfl
  | .for _ ident _ lower _ upper body, scope, outer, reports => by
    unfold bindStmt Binding.bindStmt
    rw [bind_of_ok (bindExprAs_eq (scope :: outer) .int lower reports),
      bind_of_ok (bindExprAs_eq (scope :: outer) .int upper _)]
    simp only [List.append_assoc]
    apply inScope_of_ok
    rw [bind_of_ok (declare_eq _ _ _ _ _), bind_of_ok (bindStmt_eq body _ (scope :: outer) _)]
    simp only [List.append_assoc]
    rfl

theorem bindBody_eq : ∀ (ss : List Syntax.Stmt) (scope : Scope) (outer : ScopeStack)
    (reports : List Diagnostic),
    bindBody ss ⟨scope :: outer, reports⟩ = .ok (Binding.bindBody outer scope ss).tree
      ⟨(Binding.bindBody outer scope ss).scope :: outer,
        reports ++ (Binding.bindBody outer scope ss).reports⟩
  | [], scope, outer, reports => by
    unfold bindBody Binding.bindBody
    rw [List.append_nil]
    rfl
  | s :: ss, scope, outer, reports => by
    unfold bindBody Binding.bindBody
    rw [bind_of_ok (bindStmt_eq s scope outer reports), bind_of_ok (bindBody_eq ss _ outer _),
      List.append_assoc]
    rfl

end

theorem bindUnit_eq (unit : Syntax.SourceUnit) (stack : ScopeStack) (reports : List Diagnostic) :
    bindUnit unit ⟨stack, reports⟩ =
      .ok ((Binding.bindStmt stack {} unit.stmt).tree,
          (Binding.bindStmt stack {} unit.stmt).scope.declared)
        ⟨stack, reports ++ (Binding.bindStmt stack {} unit.stmt).reports⟩ := by
  have henter : enter ⟨stack, reports⟩ = .ok () ⟨{} :: stack, reports⟩ := rfl
  unfold bindUnit
  rw [bind_of_ok henter, bind_of_ok (bindStmt_eq unit.stmt {} stack reports)]
  rfl

end Stacked

/-! ## What a statement leaves in its scope -/

def added? (outer : ScopeStack) (scope : Scope) : Syntax.Stmt → Option Variable
  | .decl keyword ident _ init =>
    if ident.isMissing ∨ (scope.find? ident.text).isSome then none
    else some ⟨ident.text, keyword.kind = .letKeyword, (bindExpr (scope :: outer) init).tree.type⟩
  | _ => none

theorem declareIn_eq (scope : Scope) (ident : Token) (v : Variable) :
    (declareIn scope ident v).1 =
      if ident.isMissing ∨ (scope.find? v.name).isSome then scope
      else ⟨scope.declared ++ [v]⟩ := by
  unfold declareIn Scope.declare?
  by_cases hm : ident.isMissing = true
  · rw [if_pos hm, if_pos (.inl hm)]
  · rw [if_neg hm]
    cases hf : scope.find? v.name with
    | some w => simp
    | none => simp [hm]

theorem bindStmt_scope (outer : ScopeStack) (scope : Scope) (s : Syntax.Stmt) :
    (bindStmt outer scope s).scope = ⟨scope.declared ++ (added? outer scope s).toList⟩ := by
  cases s with
  | decl keyword ident eq init =>
    simp only [bindStmt, declareIn_eq, added?]
    split <;> simp
  | _ => simp [bindStmt, added?]

/-- From any stack with a scope on it, binding a statement never declares outside of all scopes; it
gives the stack back, with the variable of a declaration that is new as the last one of the innermost
scope. Expressions leave every stack as it is, and a unit declares no more than the variable that its
statement is a declaration of. -/
theorem stack_discipline :
    (∀ (s : Syntax.Stmt) (scope : Scope) (outer : ScopeStack) (reports : List Diagnostic),
      Stacked.bindStmt s ⟨scope :: outer, reports⟩ = .ok (bindStmt outer scope s).tree
        ⟨⟨scope.declared ++ (added? outer scope s).toList⟩ :: outer,
          reports ++ (bindStmt outer scope s).reports⟩) ∧
    (∀ (e : Syntax.Expr) (stack : ScopeStack) (reports : List Diagnostic),
      Stacked.bindExpr e ⟨stack, reports⟩ =
        .ok (bindExpr stack e).tree ⟨stack, reports ++ (bindExpr stack e).reports⟩) ∧
    ∀ (history : List Layer) (unit : Syntax.SourceUnit),
      let layer := Layer.bind history unit
      Stacked.bindUnit unit ⟨Layer.scopes history, Layer.diagnosticsOf history⟩ =
        .ok (layer.stmt, layer.declared) ⟨Layer.scopes history, layer.diagnostics⟩ ∧
      layer.declared = match unit.stmt with
        | .decl keyword ident _ init =>
          if ident.isMissing then []
          else [⟨ident.text, keyword.kind = .letKeyword,
            (bindExpr ({} :: Layer.scopes history) init).tree.type⟩]
        | _ => [] := by
  refine ⟨fun s scope outer reports => ?_, fun e stack reports => ?_, fun history unit => ⟨?_, ?_⟩⟩
  · rw [Stacked.bindStmt_eq, bindStmt_scope]
  · exact Stacked.bindExpr_eq stack e reports
  · exact Stacked.bindUnit_eq unit (Layer.scopes history) (Layer.diagnosticsOf history)
  · simp only [Layer.bind, bindStmt_scope, List.nil_append]
    cases unit.stmt with
    | decl keyword ident eq init =>
      -- In the unit's own scope no name is taken yet.
      have hnew : (({} : Scope).find? ident.text).isSome = false := rfl
      simp only [added?, hnew, Bool.false_eq_true, or_false]
      split <;> rfl
    | _ => rfl

end Scriptlet.Binding
