import Scriptlet.Binding.Basic
import Scriptlet.Proofs.Syntax.Spans

/-!
# Reports that can be shown

Each report of a text is about a stretch of that text and quotes nothing that breaks a line: the
lexer and the grammar report tokens, binding reports tokens of the tree or expressions in it.
-/

namespace Scriptlet

open Text

/-! ## Messages -/

def Fault.Plain : Fault → Prop
  | .badCharacter ch => ch ≠ '\n'
  | .invalidNumber text type => OneLine text ∧ OneLine type
  | .unexpectedToken actual expected => OneLine actual ∧ OneLine expected
  | .undefinedName name | .alreadyDeclared name | .cannotAssign name => OneLine name
  | .cannotConvert source target => OneLine source ∧ OneLine target
  | .undefinedUnary op operand => OneLine op ∧ OneLine operand
  | .undefinedBinary op lhs rhs => OneLine op ∧ OneLine lhs ∧ OneLine rhs

theorem Fault.Plain.message {f : Fault} (h : f.Plain) : OneLine f.message := by
  cases f with
  | badCharacter ch =>
    have hch : OneLine (toString ch) := by
      show '\n' ∉ (String.singleton ch).toList
      rw [String.toList_singleton, List.mem_singleton]
      exact Ne.symm h
    exact .quote (by decide) hch (by decide)
  | invalidNumber text type => exact (OneLine.quote (by decide) h.1 (by decide)).append h.2
  | unexpectedToken actual expected =>
    exact .quote (.quote (by decide) h.1 (by decide)) h.2 (by decide)
  | undefinedName name => exact .quote (by decide) h (by decide)
  | alreadyDeclared name => exact .quote (by decide) h (by decide)
  | cannotConvert source target =>
    exact .quote (.quote (by decide) h.1 (by decide)) h.2 (by decide)
  | cannotAssign name => exact .quote (by decide) h (by decide)
  | undefinedUnary op operand => exact .quote (.quote (by decide) h.1 (by decide)) h.2 (by decide)
  | undefinedBinary op lhs rhs =>
    exact .quote (.quote (.quote (by decide) h.1 (by decide)) h.2.1 (by decide)) h.2.2 (by decide)

theorem oneLine_kindName (kind : Token.Kind) : OneLine kind.name := by
  cases kind <;> decide

theorem oneLine_typeName (type : Ty) : OneLine type.name := by
  cases type <;> decide

structure Diagnostic.Printable (text : String) (stage : Fault.Stage) (d : Diagnostic) : Prop where
  fits : d.span.Fits text
  plain : d.fault.Plain
  stage : d.fault.stage = stage

/-! ## Reports of the lexer and the grammar -/

theorem lexicalReports_printable {text : String}
    (hlen : byteLength text.toList < Span.lengthBound) :
    ∀ d ∈ Token.lexicalReports text, d.Printable text .lexical := by
  intro d hd
  rw [Token.lexicalReports_eq hlen] at hd
  obtain ⟨t, ht, hfault⟩ := List.mem_filterMap.mp hd
  obtain ⟨hspan, hstage⟩ := Token.span_of_fault? hfault
  refine ⟨hspan ▸ Token.tokens_fit hlen t ht, ?_, hstage⟩
  unfold Token.fault? at hfault
  split at hfault
  · rename_i hkind
    have hplain := (Token.tokens_placed hlen ht (by rw [hkind]; decide)).plain
    obtain ⟨c, hc, rfl⟩ := Option.map_eq_some_iff.mp hfault
    rintro rfl
    exact hplain (List.mem_of_mem_head? hc)
  · rename_i hkind
    have hplain := (Token.tokens_placed hlen ht (by rw [hkind]; decide)).plain
    split at hfault
    · cases hfault
      exact ⟨hplain, oneLine_typeName .int⟩
    · cases hfault
  · cases hfault

theorem unexpected_printable {text : String} {u : Token} (hu : u.Placed text) (kind : Token.Kind) :
    (Syntax.unexpected u kind).Printable text .grammar :=
  ⟨hu.fits, ⟨oneLine_kindName u.kind, oneLine_kindName kind⟩, rfl⟩

/-! ## Reports of binding -/

namespace Binding

open Typed (Variable UnaryRow BinaryRow)

section
variable {text : String}

theorem bindUnary_printable {op : Token} (hop : op.Placed text) {operand : Bound Typed.Expr}
    (h : ∀ d ∈ operand.reports, d.Printable text .binding) :
    ∀ d ∈ (bindUnary op operand).reports, d.Printable text .binding := by
  unfold bindUnary
  simp only
  cases UnaryRow.find? op.kind operand.tree.type with
  | some row => exact h
  | none =>
    refine List.forall_mem_append.mpr ⟨h, List.forall_mem_singleton.mpr ⟨hop.fits, ?_, rfl⟩⟩
    exact ⟨hop.plain, oneLine_typeName _⟩

theorem bindBinary_printable {op : Token} (hop : op.Placed text) {lhs rhs : Bound Typed.Expr}
    (hl : ∀ d ∈ lhs.reports, d.Printable text .binding)
    (hr : ∀ d ∈ rhs.reports, d.Printable text .binding) :
    ∀ d ∈ (bindBinary lhs op rhs).reports, d.Printable text .binding := by
  have hboth := List.forall_mem_append.mpr ⟨hl, hr⟩
  unfold bindBinary
  cases BinaryRow.find? op.kind lhs.tree.type rhs.tree.type with
  | some row => exact hboth
  | none =>
    refine List.forall_mem_append.mpr ⟨hboth, List.forall_mem_singleton.mpr ⟨hop.fits, ?_, rfl⟩⟩
    exact ⟨hop.plain, oneLine_typeName _, oneLine_typeName _⟩

theorem bindName_printable (scopes : ScopeStack) {ident : Token} (hident : ident.Placed text) :
    ∀ d ∈ (bindName scopes ident).reports, d.Printable text .binding := by
  unfold bindName
  by_cases hmissing : ident.isMissing = true
  · simp [hmissing]
  · rw [if_neg hmissing]
    cases scopes.find? ident.text with
    | some v => simp
    | none => exact List.forall_mem_singleton.mpr ⟨hident.fits, hident.plain, rfl⟩

theorem bindAssign_printable (scopes : ScopeStack) {ident eq : Token} (hident : ident.Placed text)
    (heq : eq.Placed text) {span : Span} (hspan : span.Fits text) {rhs : Bound Typed.Expr}
    (h : ∀ d ∈ rhs.reports, d.Printable text .binding) :
    ∀ d ∈ (bindAssign scopes ident eq span rhs).reports, d.Printable text .binding := by
  unfold bindAssign
  cases scopes.find? ident.text with
  | none =>
    refine List.forall_mem_append.mpr ⟨h, List.forall_mem_singleton.mpr ?_⟩
    exact ⟨hident.fits, hident.plain, rfl⟩
  | some v =>
    have hreadOnly : ∀ d ∈ rhs.reports ++
        (if v.readOnly then [⟨eq.span, .cannotAssign ident.text⟩] else []),
        d.Printable text .binding := by
      refine List.forall_mem_append.mpr ⟨h, ?_⟩
      cases v.readOnly with
      | false => simp
      | true => exact List.forall_mem_singleton.mpr ⟨heq.fits, hident.plain, rfl⟩
    simp only
    by_cases htype : rhs.tree.type = v.type
    · rw [if_pos htype]
      exact hreadOnly
    · rw [if_neg htype]
      refine List.forall_mem_append.mpr ⟨hreadOnly, List.forall_mem_singleton.mpr ⟨hspan, ?_, rfl⟩⟩
      exact ⟨oneLine_typeName _, oneLine_typeName _⟩

theorem declareIn_printable (scope : Scope) {ident : Token} (hident : ident.Placed text)
    (v : Variable) : ∀ d ∈ (declareIn scope ident v).2, d.Printable text .binding := by
  unfold declareIn
  by_cases hmissing : ident.isMissing = true
  · simp [hmissing]
  · rw [if_neg hmissing]
    cases scope.declare? v with
    | some scope => simp
    | none => exact List.forall_mem_singleton.mpr ⟨hident.fits, hident.plain, rfl⟩

end

section
variable {text : String} (hlen : byteLength text.toList < Span.lengthBound)
include hlen

theorem bindExpr_printable (scopes : ScopeStack) (e : Syntax.Expr) :
    (∀ t ∈ e.tokens, t.Placed text) →
    ∀ d ∈ (bindExpr scopes e).reports, d.Printable text .binding := by
  induction e with
  | literal t value => simp [bindExpr]
  | unary op operand ih =>
    intro h
    rw [Syntax.Expr.tokens_unary, List.forall_mem_cons] at h
    exact bindUnary_printable h.1 (ih h.2)
  | binary lhs op rhs ihl ihr =>
    intro h
    rw [Syntax.Expr.tokens_binary, List.forall_mem_append, List.forall_mem_cons] at h
    obtain ⟨hlhs, hop, hrhs⟩ := h
    exact bindBinary_printable hop (ihl hlhs) (ihr hrhs)
  | paren o inner c ih =>
    intro h
    rw [Syntax.Expr.tokens_paren, List.forall_mem_cons, List.forall_mem_append] at h
    exact ih h.2.1
  | name ident =>
    intro h
    exact bindName_printable scopes (h ident (by simp))
  | assign ident eq rhs ih =>
    intro h
    rw [Syntax.Expr.tokens_assign, List.forall_mem_cons, List.forall_mem_cons] at h
    obtain ⟨hident, heq, hrhs⟩ := h
    exact bindAssign_printable scopes hident heq (Syntax.Expr.span_fits hlen hrhs) (ih hrhs)

theorem bindExprAs_printable (scopes : ScopeStack) (target : Ty) {e : Syntax.Expr}
    (h : ∀ t ∈ e.tokens, t.Placed text) :
    ∀ d ∈ (bindExprAs scopes target e).reports, d.Printable text .binding := by
  have he := bindExpr_printable hlen scopes e h
  unfold bindExprAs
  simp only
  by_cases htype : (bindExpr scopes e).tree.type = target
  · rw [if_pos htype]
    exact he
  · rw [if_neg htype]
    refine List.forall_mem_append.mpr ⟨he, List.forall_mem_singleton.mpr ⟨?_, ?_, rfl⟩⟩
    · exact Syntax.Expr.span_fits hlen h
    · exact ⟨oneLine_typeName _, oneLine_typeName _⟩

end

mutual

theorem bindStmt_printable {text : String} (hlen : byteLength text.toList < Span.lengthBound)
    (outer : ScopeStack) (scope : Scope) : ∀ s : Syntax.Stmt, (∀ t ∈ s.tokens, t.Placed text) →
    ∀ d ∈ (bindStmt outer scope s).reports, d.Printable text .binding
  | .block o body c, h => by
    simp only [Syntax.Stmt.tokens_block, List.forall_mem_cons, List.forall_mem_append] at h
    exact bindBody_printable hlen (scope :: outer) {} body h.2.1
  | .expr e, h => bindExpr_printable hlen (scope :: outer) e (by simpa using h)
  | .decl keyword ident eq init, h => by
    simp only [Syntax.Stmt.tokens_decl, List.forall_mem_cons] at h
    obtain ⟨_, hident, _, hinit⟩ := h
    exact List.forall_mem_append.mpr
      ⟨bindExpr_printable hlen _ init hinit, declareIn_printable scope hident _⟩
  | .ifThen k cond yes, h => by
    simp only [Syntax.Stmt.tokens_ifThen, List.forall_mem_cons, List.forall_mem_append] at h
    obtain ⟨_, hcond, hyes⟩ := h
    exact List.forall_mem_append.mpr
      ⟨bindExprAs_printable hlen _ .bool hcond, bindStmt_printable hlen _ {} yes hyes⟩
  | .ifElse k cond yes k' no, h => by
    simp only [Syntax.Stmt.tokens_ifElse, List.forall_mem_cons, List.forall_mem_append] at h
    obtain ⟨_, hcond, hyes, _, hno⟩ := h
    refine List.forall_mem_append.mpr ⟨List.forall_mem_append.mpr ⟨?_, ?_⟩, ?_⟩
    · exact bindExprAs_printable hlen _ .bool hcond
    · exact bindStmt_printable hlen _ {} yes hyes
    · exact bindStmt_printable hlen _ {} no hno
  | .while k cond body, h => by
    simp only [Syntax.Stmt.tokens_while, List.forall_mem_cons, List.forall_mem_append] at h
    obtain ⟨_, hcond, hbody⟩ := h
    exact List.forall_mem_append.mpr
      ⟨bindExprAs_printable hlen _ .bool hcond, bindStmt_printable hlen _ {} body hbody⟩
  | .for k ident eq lower sep upper body, h => by
    simp only [Syntax.Stmt.tokens_for, List.forall_mem_cons, List.forall_mem_append] at h
    obtain ⟨_, hident, _, hlower, _, hupper, hbody⟩ := h
    refine List.forall_mem_append.mpr ⟨List.forall_mem_append.mpr
      ⟨List.forall_mem_append.mpr ⟨?_, ?_⟩, ?_⟩, ?_⟩
    · exact bindExprAs_printable hlen _ .int hlower
    · exact bindExprAs_printable hlen _ .int hupper
    · exact declareIn_printable {} hident _
    · exact bindStmt_printable hlen _ _ body hbody

theorem bindBody_printable {text : String} (hlen : byteLength text.toList < Span.lengthBound)
    (outer : ScopeStack) (scope : Scope) : ∀ ss : List Syntax.Stmt,
    (∀ t ∈ ss.flatMap Syntax.Stmt.tokens, t.Placed text) →
    ∀ d ∈ (bindBody outer scope ss).reports, d.Printable text .binding
  | [], _ => by simp [bindBody]
  | s :: ss, h => by
    rw [List.flatMap_cons, List.forall_mem_append] at h
    exact List.forall_mem_append.mpr
      ⟨bindStmt_printable hlen outer scope s h.1, bindBody_printable hlen outer _ ss h.2⟩

end

end Binding

end Scriptlet
