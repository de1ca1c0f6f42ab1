import Scriptlet.Proofs.Binding.Safe
import Scriptlet.Syntax.Fragment

/-!
# Well-typed programs

Which programs have a meaning, said by rules, and that these are the programs that are bound without
a report. The types of the bound expressions are those that the rules give.
-/

namespace Scriptlet

open Typed (Variable UnaryRow BinaryRow)

/-- The name stands for the first declaration of it in the innermost scope that has one. -/
inductive ScopeStack.Resolves : ScopeStack → String → Variable → Prop
  | here {s : Scope} {outer : ScopeStack} {name : String} {v : Variable}
    (front back : List Variable) : s.declared = front ++ v :: back →
    (∀ w ∈ front, w.name ≠ name) → v.name = name → Resolves (s :: outer) name v
  | outside {s : Scope} {outer : ScopeStack} {name : String} {v : Variable} :
    (∀ w ∈ s.declared, w.name ≠ name) → Resolves outer name v → Resolves (s :: outer) name v

theorem ScopeStack.resolves_iff {name : String} {v : Variable} : ∀ {stack : ScopeStack},
    stack.Resolves name v ↔ stack.find? name = some v
  | [] => ⟨nofun, nofun⟩
  | s :: outer => by
    rw [ScopeStack.find?_cons]
    constructor
    · intro h
      cases h with
      | here front back hs hfront hname =>
        have hfind : s.find? name = some v := by
          rw [Scope.find?, List.find?_eq_some_iff_append]
          exact ⟨by simpa using hname, front, back, hs, by simpa using hfront⟩
        rw [hfind]
        rfl
      | outside hnew hout =>
        rw [Scope.find?_eq_none_iff.mpr hnew, resolves_iff.mp hout]
        rfl
    · intro h
      cases hs : s.find? name with
      | none =>
        rw [hs] at h
        exact .outside (Scope.find?_eq_none_iff.mp hs) (resolves_iff.mpr h)
      | some w =>
        rw [hs] at h
        cases h
        rw [Scope.find?, List.find?_eq_some_iff_append] at hs
        obtain ⟨hname, front, back, hdeclared, hfront⟩ := hs
        exact .here front back hdeclared (by simpa using hfront) (by simpa using hname)

namespace Syntax

def Expr.isValued : Expr → Bool
  | .literal _ value => value.isSome
  | .name _ => true
  | .unary _ e | .paren _ e _ | .assign _ _ e => e.isValued
  | .binary l _ r => l.isValued && r.isValued

mutual

def Stmt.isValued : Stmt → Bool
  | .block _ body _ => Stmt.areValued body
  | .expr e | .decl _ _ _ e => e.isValued
  | .ifThen _ e s | .while _ e s => e.isValued && s.isValued
  | .ifElse _ e s _ s' => e.isValued && (s.isValued && s'.isValued)
  | .for _ _ _ lo _ hi s => lo.isValued && (hi.isValued && s.isValued)

def Stmt.areValued : List Stmt → Bool
  | [] => true
  | s :: ss => s.isValued && Stmt.areValued ss

end

end Syntax

namespace Binding

/-! ## The rules -/

inductive HasType (scopes : ScopeStack) : Syntax.Expr → Ty → Prop
  | literal {t : Token} {v : Value} : HasType scopes (.literal t (some v)) v.type
  | unary {op : Token} {e : Syntax.Expr} {row : UnaryRow} : row ∈ UnaryRow.all →
    row.sign = op.kind → HasType scopes e row.operand → HasType scopes (.unary op e) row.type
  | binary {l r : Syntax.Expr} {op : Token} {row : BinaryRow} : row ∈ BinaryRow.all →
    row.sign = op.kind → HasType scopes l row.lhs → HasType scopes r row.rhs →
    HasType scopes (.binary l op r) row.type
  | paren {o c : Token} {e : Syntax.Expr} {type : Ty} : HasType scopes e type →
    HasType scopes (.paren o e c) type
  | name {t : Token} {v : Variable} : scopes.Resolves t.text v → HasType scopes (.name t) v.type
  | assign {t eq : Token} {e : Syntax.Expr} {v : Variable} : scopes.Resolves t.text v →
    v.readOnly = false → HasType scopes e v.type → HasType scopes (.assign t eq e) v.type

mutual

/-- A statement makes sense in the scopes `scope :: outer`, and the last scope is the innermost one
after it. -/
inductive Accepts : ScopeStack → Scope → Syntax.Stmt → Scope → Prop
  | block {outer : ScopeStack} {scope inner : Scope} {o c : Token} {body : List Syntax.Stmt} :
    AcceptsAll (scope :: outer) {} body inner → Accepts outer scope (.block o body c) scope
  | expr {outer : ScopeStack} {scope : Scope} {e : Syntax.Expr} {type : Ty} :
    HasType (scope :: outer) e type → Accepts outer scope (.expr e) scope
  | decl {outer : ScopeStack} {scope : Scope} {k t eq : Token} {e : Syntax.Expr} {type : Ty} :
    HasType (scope :: outer) e type → (∀ w ∈ scope.declared, w.name ≠ t.text) →
    Accepts outer scope (.decl k t eq e) ⟨scope.declared ++ [⟨t.text, k.kind = .letKeyword, type⟩]⟩
  | ifThen {outer : ScopeStack} {scope inner : Scope} {k : Token} {e : Syntax.Expr}
    {s : Syntax.Stmt} : HasType (scope :: outer) e .bool → Accepts (scope :: outer) {} s inner →
    Accepts outer scope (.ifThen k e s) scope
  | ifElse {outer : ScopeStack} {scope inner inner' : Scope} {k k' : Token} {e : Syntax.Expr}
    {s s' : Syntax.Stmt} : HasType (scope :: outer) e .bool → Accepts (scope :: outer) {} s inner →
    Accepts (scope :: outer) {} s' inner' → Accepts outer scope (.ifElse k e s k' s') scope
  | while {outer : ScopeStack} {scope inner : Scope} {k : Token} {e : Syntax.Expr}
    {s : Syntax.Stmt} : HasType (scope :: outer) e .bool → Accepts (scope :: outer) {} s inner →
    Accepts outer scope (.while k e s) scope
  | for {outer : ScopeStack} {scope inner : Scope} {k t eq sep : Token} {lo hi : Syntax.Expr}
    {s : Syntax.Stmt} : HasType (scope :: outer) lo .int → HasType (scope :: outer) hi .int →
    Accepts (scope :: outer) ⟨[⟨t.text, false, .int⟩]⟩ s inner →
    Accepts outer scope (.for k t eq lo sep hi s) scope

inductive AcceptsAll : ScopeStack → Scope → List Syntax.Stmt → Scope → Prop
  | nil {outer : ScopeStack} {scope : Scope} : AcceptsAll outer scope [] scope
  | cons {outer : ScopeStack} {scope scope' scope'' : Scope} {s : Syntax.Stmt}
    {ss : List Syntax.Stmt} : Accepts outer scope s scope' → AcceptsAll outer scope' ss scope'' →
    AcceptsAll outer scope (s :: ss) scope''

end

/-- A bound expression has the parts of the expression it comes from, each with the type that the
rules give. -/
def ExprTyped (scopes : ScopeStack) (e : Syntax.Expr) (b : Typed.Expr) : Prop :=
  HasType scopes e b.type ∧
    match e, b with
    | .literal _ _, .literal _ | .name _, .read _ => True
    | .unary _ e, .unary _ b | .paren _ e _, .paren b | .assign _ _ e, .assign _ b =>
      ExprTyped scopes e b
    | .binary l _ r, .binary l' _ r' => ExprTyped scopes l l' ∧ ExprTyped scopes r r'
    | _, _ => False

mutual

def StmtTyped (outer : ScopeStack) (scope : Scope) : Syntax.Stmt → Typed.Stmt → Prop
  | .block _ body _, .block bs => AllTyped (scope :: outer) {} body bs
  | .expr e, .expr b => ExprTyped (scope :: outer) e b
  | .decl _ _ _ e, .decl v b => ExprTyped (scope :: outer) e b ∧ v.type = b.type
  | .ifThen _ e s, .ifThen b c | .while _ e s, .while b c =>
    ExprTyped (scope :: outer) e b ∧ StmtTyped (scope :: outer) {} s c
  | .ifElse _ e s _ s', .ifElse b c c' =>
    ExprTyped (scope :: outer) e b ∧ StmtTyped (scope :: outer) {} s c ∧
      StmtTyped (scope :: outer) {} s' c'
  | .for _ t _ lo _ hi s, .for _ b b' c =>
    ExprTyped (scope :: outer) lo b ∧ ExprTyped (scope :: outer) hi b' ∧
      StmtTyped (scope :: outer) ⟨[⟨t.text, false, .int⟩]⟩ s c
  | _, _ => False

def AllTyped (outer : ScopeStack) (scope : Scope) : List Syntax.Stmt → List Typed.Stmt → Prop
  | [], [] => True
  | s :: ss, c :: cs =>
    StmtTyped outer scope s c ∧ ∃ scope', Accepts outer scope s scope' ∧ AllTyped outer scope' ss cs
  | _, _ => False

end

/-! ## Rows and declarations -/

theorem unaryRow_find?_self : ∀ row ∈ UnaryRow.all,
    UnaryRow.find? row.sign row.operand = some row := by decide

theorem binaryRow_find?_self : ∀ row ∈ BinaryRow.all,
    BinaryRow.find? row.sign row.lhs row.rhs = some row := by decide

theorem declareIn_new (scope : Scope) (v : Variable) {ident : Token}
    (hpresent : ident.isMissing = false) (hnew : ∀ w ∈ scope.declared, w.name ≠ v.name) :
    declareIn scope ident v = (⟨scope.declared ++ [v]⟩, []) := by
  simp [declareIn, hpresent, Scope.declare?, Scope.find?_eq_none_iff.mpr hnew]

/-! ## What follows the rules is bound without a report -/

theorem bindExpr_of_hasType {scopes : ScopeStack} {e : Syntax.Expr} {type : Ty}
    (h : HasType scopes e type) (hpresent : ∀ t ∈ e.tokens, t.isMissing = false) :
    (bindExpr scopes e).reports = [] ∧ (bindExpr scopes e).tree.type = type := by
  induction h with
  | literal => exact ⟨rfl, rfl⟩
  | @unary op e row hrow hsign _ ih =>
    simp only [Syntax.Expr.tokens_unary, List.forall_mem_cons] at hpresent
    obtain ⟨hreports, htype⟩ := ih hpresent.2
    simp [bindExpr, bindUnary, htype, ← hsign, unaryRow_find?_self row hrow, hreports,
      Typed.Expr.type]
  | @binary l r op row hrow hsign _ _ ihl ihr =>
    simp only [Syntax.Expr.tokens_binary, List.forall_mem_append, List.forall_mem_cons] at hpresent
    obtain ⟨hlreports, hltype⟩ := ihl hpresent.1
    obtain ⟨hrreports, hrtype⟩ := ihr hpresent.2.2
    simp [bindExpr, bindBinary, hltype, hrtype, ← hsign, binaryRow_find?_self row hrow, hlreports,
      hrreports, Typed.Expr.type]
  | paren _ ih =>
    simp only [Syntax.Expr.tokens_paren, List.forall_mem_append, List.forall_mem_cons] at hpresent
    exact ih hpresent.2.1
  | @name t v hv =>
    have ht : t.isMissing = false := hpresent t (by simp)
    simp [bindExpr, bindName, ht, ScopeStack.resolves_iff.mp hv, Typed.Expr.type]
  | @assign t eq e v hv hwritable _ ih =>
    simp only [Syntax.Expr.tokens_assign, List.forall_mem_cons] at hpresent
    obtain ⟨hreports, htype⟩ := ih hpresent.2.2
    simp [bindExpr, bindAssign, ScopeStack.resolves_iff.mp hv, hwritable, htype, hreports,
      Typed.Expr.type]

theorem bindExprAs_of_hasType {scopes : ScopeStack} {e : Syntax.Expr} {type : Ty}
    (h : HasType scopes e type) (hpresent : ∀ t ∈ e.tokens, t.isMissing = false) :
    (bindExprAs scopes type e).reports = [] := by
  obtain ⟨hreports, htype⟩ := bindExpr_of_hasType h hpresent
  simp [bindExprAs, htype, hreports]

mutual

theorem bindStmt_of_accepts : ∀ {outer : ScopeStack} {scope scope' : Scope} {s : Syntax.Stmt},
    Accepts outer scope s scope' → (∀ t ∈ s.tokens, t.isMissing = false) →
    (bindStmt outer scope s).reports = [] ∧ (bindStmt outer scope s).scope = scope'
  | _, _, _, _, .block h, hpresent => by
    simp only [Syntax.Stmt.tokens_block, List.forall_mem_append, List.forall_mem_cons] at hpresent
    exact ⟨(bindBody_of_accepts h hpresent.2.1).1, rfl⟩
  | _, _, _, _, .expr h, hpresent => by
    rw [Syntax.Stmt.tokens_expr] at hpresent
    exact ⟨(bindExpr_of_hasType h hpresent).1, rfl⟩
  | _, _, _, _, @Accepts.decl outer scope k t eq e type h hnew, hpresent => by
    simp only [Syntax.Stmt.tokens_decl, List.forall_mem_cons] at hpresent
    obtain ⟨_, ht, _, he⟩ := hpresent
    obtain ⟨hreports, htype⟩ := bindExpr_of_hasType h he
    have hdeclare := declareIn_new scope ⟨t.text, k.kind = .letKeyword, type⟩ ht hnew
    simp [bindStmt, hreports, htype, hdeclare]
  | _, _, _, _, .ifThen hc hy, hpresent => by
    simp only [Syntax.Stmt.tokens_ifThen, List.forall_mem_append, List.forall_mem_cons] at hpresent
    obtain ⟨_, hcond, hyes⟩ := hpresent
    simp [bindStmt, bindExprAs_of_hasType hc hcond, bindStmt_of_accepts hy hyes]
  | _, _, _, _, .ifElse hc hy hn, hpresent => by
    simp only [Syntax.Stmt.tokens_ifElse, List.forall_mem_append, List.forall_mem_cons] at hpresent
    obtain ⟨_, hcond, hyes, _, hno⟩ := hpresent
    simp [bindStmt, bindExprAs_of_hasType hc hcond, bindStmt_of_accepts hy hyes,
      bindStmt_of_accepts hn hno]
  | _, _, _, _, .while hc hb, hpresent => by
    simp only [Syntax.Stmt.tokens_while, List.forall_mem_append, List.forall_mem_cons] at hpresent
    obtain ⟨_, hcond, hbody⟩ := hpresent
    simp [bindStmt, bindExprAs_of_hasType hc hcond, bindStmt_of_accepts hb hbody]
  | _, _, _, _, @Accepts.for _ _ _ _ t _ _ _ _ _ hlo hhi hb, hpresent => by
    simp only [Syntax.Stmt.tokens_for, List.forall_mem_append, List.forall_mem_cons] at hpresent
    obtain ⟨_, ht, _, hlower, _, hupper, hbody⟩ := hpresent
    have hdeclare : declareIn {} t ⟨t.text, false, .int⟩ = (⟨[⟨t.text, false, .int⟩]⟩, []) :=
      declareIn_new {} _ ht nofun
    simp [bindStmt, bindExprAs_of_hasType hlo hlower, bindExprAs_of_hasType hhi hupper, hdeclare,
      bindStmt_of_accepts hb hbody]

theorem bindBody_of_accepts : ∀ {outer : ScopeStack} {scope scope' : Scope}
    {ss : List Syntax.Stmt}, AcceptsAll outer scope ss scope' →
    (∀ t ∈ ss.flatMap Syntax.Stmt.tokens, t.isMissing = false) →
    (bindBody outer scope ss).reports = [] ∧ (bindBody outer scope ss).scope = scope'
  | _, _, _, _, .nil, _ => ⟨rfl, rfl⟩
  | _, _, _, _, .cons h h', hpresent => by
    rw [List.flatMap_cons, List.forall_mem_append] at hpresent
    obtain ⟨hreports, hscope⟩ := bindStmt_of_accepts h hpresent.1
    obtain ⟨hreports', hscope'⟩ := bindBody_of_accepts h' hpresent.2
    simp [bindBody, hreports, hscope, hreports', hscope']

end

/-! ## What is bound without a report follows the rules -/

theorem ExprTyped.hasType {scopes : ScopeStack} {e : Syntax.Expr} {b : Typed.Expr}
    (h : ExprTyped scopes e b) : HasType scopes e b.type := by
  unfold ExprTyped at h
  exact h.1

theorem bindExpr_typed {scopes : ScopeStack} : ∀ {e : Syntax.Expr},
    (∀ t ∈ e.tokens, t.isMissing = false) → e.isValued = true → (bindExpr scopes e).reports = [] →
    ExprTyped scopes e (bindExpr scopes e).tree
  | .literal t none, _, hvalued, _ => nomatch hvalued
  | .literal t (some v), _, _, _ => ⟨.literal, trivial⟩
  | .unary op e, hpresent, hvalued, h => by
    simp only [Syntax.Expr.tokens_unary, List.forall_mem_cons] at hpresent
    obtain ⟨hreports, row, hfind, htree⟩ := bindUnary_clean h
    obtain ⟨hrow, hsign, hoperand⟩ := unaryRow_find? hfind
    have he := bindExpr_typed hpresent.2 hvalued hreports
    rw [bindExpr, htree]
    exact ⟨.unary hrow hsign (hoperand ▸ he.hasType), he⟩
  | .binary l op r, hpresent, hvalued, h => by
    simp only [Syntax.Expr.tokens_binary, List.forall_mem_append, List.forall_mem_cons] at hpresent
    obtain ⟨hlreports, hrreports, row, hfind, htree⟩ := bindBinary_clean h
    obtain ⟨hrow, hsign, hlhs, hrhs⟩ := binaryRow_find? hfind
    obtain ⟨hlvalued, hrvalued⟩ := Bool.and_eq_true_iff.mp hvalued
    have hl := bindExpr_typed hpresent.1 hlvalued hlreports
    have hr := bindExpr_typed hpresent.2.2 hrvalued hrreports
    rw [bindExpr, htree]
    exact ⟨.binary hrow hsign (hlhs ▸ hl.hasType) (hrhs ▸ hr.hasType), hl, hr⟩
  | .paren o e c, hpresent, hvalued, h => by
    simp only [Syntax.Expr.tokens_paren, List.forall_mem_append, List.forall_mem_cons] at hpresent
    have he := bindExpr_typed hpresent.2.1 hvalued h
    exact ⟨.paren he.hasType, he⟩
  | .name t, hpresent, _, h => by
    obtain ⟨v, hv, htree⟩ := bindName_clean (hpresent t (by simp)) h
    rw [bindExpr, htree]
    exact ⟨.name (ScopeStack.resolves_iff.mpr hv), trivial⟩
  | .assign t eq e, hpresent, hvalued, h => by
    simp only [Syntax.Expr.tokens_assign, List.forall_mem_cons] at hpresent
    obtain ⟨hreports, v, hv, hwritable, htype, htree⟩ := bindAssign_clean h
    have he := bindExpr_typed hpresent.2.2 hvalued hreports
    rw [bindExpr, htree]
    refine ⟨?_, he⟩
    rw [Typed.Expr.type, htype]
    exact .assign (ScopeStack.resolves_iff.mpr hv) hwritable (htype ▸ he.hasType)

theorem bindExprAs_typed {scopes : ScopeStack} {e : Syntax.Expr} {type : Ty}
    (hpresent : ∀ t ∈ e.tokens, t.isMissing = false) (hvalued : e.isValued = true)
    (h : (bindExprAs scopes type e).reports = []) :
    HasType scopes e type ∧ ExprTyped scopes e (bindExprAs scopes type e).tree := by
  obtain ⟨hreports, htype⟩ := bindExprAs_clean h
  have he := bindExpr_typed hpresent hvalued hreports
  rw [bindExprAs_tree]
  exact ⟨htype ▸ he.hasType, he⟩

mutual

theorem bindStmt_typed : ∀ {outer : ScopeStack} {scope : Scope} {s : Syntax.Stmt},
    (∀ t ∈ s.tokens, t.isMissing = false) → s.isValued = true →
    (bindStmt outer scope s).reports = [] →
    Accepts outer scope s (bindStmt outer scope s).scope ∧
      StmtTyped outer scope s (bindStmt outer scope s).tree
  | _, _, .block o body c, hpresent, hvalued, h => by
    simp only [Syntax.Stmt.tokens_block, List.forall_mem_append, List.forall_mem_cons] at hpresent
    obtain ⟨haccepts, htyped⟩ := bindBody_typed hpresent.2.1 hvalued h
    exact ⟨.block haccepts, htyped⟩
  | _, _, .expr e, hpresent, hvalued, h => by
    rw [Syntax.Stmt.tokens_expr] at hpresent
    have he := bindExpr_typed hpresent hvalued h
    exact ⟨.expr he.hasType, he⟩
  | outer, scope, .decl k t eq e, hpresent, hvalued, h => by
    simp only [Syntax.Stmt.tokens_decl, List.forall_mem_cons] at hpresent
    obtain ⟨_, ht, _, hinit⟩ := hpresent
    obtain ⟨hreports, hdeclare⟩ := bindDecl_clean h
    have he := bindExpr_typed hinit hvalued hreports
    obtain ⟨hnew, hscope⟩ := declareIn_clean hdeclare ht
    refine ⟨?_, he, rfl⟩
    simp only [bindStmt, hscope]
    exact .decl he.hasType (Scope.find?_eq_none_iff.mp hnew)
  | _, _, .ifThen k e s, hpresent, hvalued, h => by
    simp only [Syntax.Stmt.tokens_ifThen, List.forall_mem_append, List.forall_mem_cons] at hpresent
    obtain ⟨hc, hy⟩ := bindIfThen_clean h
    obtain ⟨hcv, hyv⟩ := Bool.and_eq_true_iff.mp hvalued
    obtain ⟨hcond, hcondTyped⟩ := bindExprAs_typed hpresent.2.1 hcv hc
    obtain ⟨hyes, hyesTyped⟩ := bindStmt_typed hpresent.2.2 hyv hy
    exact ⟨.ifThen hcond hyes, hcondTyped, hyesTyped⟩
  | _, _, .ifElse k e s k' s', hpresent, hvalued, h => by
    simp only [Syntax.Stmt.tokens_ifElse, List.forall_mem_append, List.forall_mem_cons] at hpresent
    obtain ⟨hc, hy, hn⟩ := bindIfElse_clean h
    obtain ⟨hcv, hyv, hnv⟩ : e.isValued = true ∧ s.isValued = true ∧ s'.isValued = true := by
      simpa [Syntax.Stmt.isValued] using hvalued
    obtain ⟨hcond, hcondTyped⟩ := bindExprAs_typed hpresent.2.1 hcv hc
    obtain ⟨hyes, hyesTyped⟩ := bindStmt_typed hpresent.2.2.1 hyv hy
    obtain ⟨hno, hnoTyped⟩ := bindStmt_typed hpresent.2.2.2.2 hnv hn
    exact ⟨.ifElse hcond hyes hno, hcondTyped, hyesTyped, hnoTyped⟩
  | _, _, .while k e s, hpresent, hvalued, h => by
    simp only [Syntax.Stmt.tokens_while, List.forall_mem_append, List.forall_mem_cons] at hpresent
    obtain ⟨hc, hb⟩ := bindWhile_clean h
    obtain ⟨hcv, hbv⟩ := Bool.and_eq_true_iff.mp hvalued
    obtain ⟨hcond, hcondTyped⟩ := bindExprAs_typed hpresent.2.1 hcv hc
    obtain ⟨hbody, hbodyTyped⟩ := bindStmt_typed hpresent.2.2 hbv hb
    exact ⟨.while hcond hbody, hcondTyped, hbodyTyped⟩
  | _, _, .for k t eq lo sep hi s, hpresent, hvalued, h => by
    simp only [Syntax.Stmt.tokens_for, List.forall_mem_append, List.forall_mem_cons] at hpresent
    obtain ⟨_, ht, _, hlowerPresent, _, hupperPresent, hbodyPresent⟩ := hpresent
    obtain ⟨hlo, hhi, hdeclare, hb⟩ := bindFor_clean h
    obtain ⟨hlv, hhv, hbv⟩ : lo.isValued = true ∧ hi.isValued = true ∧ s.isValued = true := by
      simpa [Syntax.Stmt.isValued] using hvalued
    obtain ⟨hlower, hlowerTyped⟩ := bindExprAs_typed hlowerPresent hlv hlo
    obtain ⟨hupper, hupperTyped⟩ := bindExprAs_typed hupperPresent hhv hhi
    have hscope : (declareIn {} t ⟨t.text, false, .int⟩).1 = ⟨[⟨t.text, false, .int⟩]⟩ :=
      (declareIn_clean hdeclare ht).2
    rw [hscope] at hb
    obtain ⟨hbody, hbodyTyped⟩ := bindStmt_typed hbodyPresent hbv hb
    refine ⟨.for hlower hupper hbody, ?_⟩
    simp only [bindStmt, hscope]
    exact ⟨hlowerTyped, hupperTyped, hbodyTyped⟩

theorem bindBody_typed : ∀ {outer : ScopeStack} {scope : Scope} {ss : List Syntax.Stmt},
    (∀ t ∈ ss.flatMap Syntax.Stmt.tokens, t.isMissing = false) → Syntax.Stmt.areValued ss = true →
    (bindBody outer scope ss).reports = [] →
    AcceptsAll outer scope ss (bindBody outer scope ss).scope ∧
      AllTyped outer scope ss (bindBody outer scope ss).tree
  | _, _, [], _, _, _ => ⟨.nil, trivial⟩
  | _, _, s :: ss, hpresent, hvalued, h => by
    rw [List.flatMap_cons, List.forall_mem_append] at hpresent
    obtain ⟨hs, hss⟩ := bindBody_clean h
    obtain ⟨hsv, hssv⟩ := Bool.and_eq_true_iff.mp hvalued
    obtain ⟨hstmt, hstmtTyped⟩ := bindStmt_typed hpresent.1 hsv hs
    obtain ⟨hbody, hbodyTyped⟩ := bindBody_typed hpresent.2 hssv hss
    exact ⟨.cons hstmt hbody, hstmtTyped, _, hstmt, hbodyTyped⟩

end

/-- A statement of tokens that stand in the text and literals that have values is bound without a
report if and only if it is well-typed, and its bound expressions have the types that the rules
give. -/
theorem bindStmt_accepts_iff {outer : ScopeStack} {scope : Scope} {s : Syntax.Stmt}
    (hpresent : ∀ t ∈ s.tokens, t.isMissing = false) (hvalued : s.isValued = true) :
    ((bindStmt outer scope s).reports = [] ↔ ∃ scope', Accepts outer scope s scope') ∧
      ∀ scope', Accepts outer scope s scope' → (bindStmt outer scope s).scope = scope' ∧
        StmtTyped outer scope s (bindStmt outer scope s).tree := by
  refine ⟨⟨fun h => ?_, fun ⟨scope', h⟩ => ?_⟩, fun scope' h => ?_⟩
  · exact ⟨_, (bindStmt_typed hpresent hvalued h).1⟩
  · exact (bindStmt_of_accepts h hpresent).1
  · obtain ⟨hreports, hscope⟩ := bindStmt_of_accepts h hpresent
    exact ⟨hscope, (bindStmt_typed hpresent hvalued hreports).2⟩

/-- A loop variable that hides a constant of another type, which is read again after the loop. -/
theorem shadowed_constant_accepted :
    let s := (Syntax.Fragment.parse
      "\x7b let a = true var b = 1 for a = b to 9 b = b + a if !a b = -b \x7d").unit.stmt
    (∀ t ∈ s.tokens, t.isMissing = false) ∧ s.isValued = true ∧
      ∃ scope', Accepts [] {} s scope' := by
  intro s
  have hpresent : ∀ t ∈ s.tokens, t.isMissing = false := by decide +kernel
  have hvalued : s.isValued = true := by decide +kernel
  have hclean : (bindStmt [] {} s).reports = [] := by decide +kernel
  exact ⟨hpresent, hvalued, (bindStmt_accepts_iff hpresent hvalued).1.mp hclean⟩

end Binding

end Scriptlet
