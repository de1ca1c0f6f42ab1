import Scriptlet.Proofs.Incremental
import Scriptlet.Proofs.Leftovers
import Scriptlet.Proofs.Syntax.Drawn
import Scriptlet.Proofs.Typed.Drawn

/-!
# Drawings are faithful

A drawing of a fragment tells all of its tree but the places of the tokens. A drawing of what the
fragment binds to tells all but which variables are read-only, whatever was bound before it: names
are taken from the text, and binding makes safe trees.
-/

namespace Scriptlet.Binding

open Syntax (Fragment)
open Text (OneLine byteLength)
open Typed (UnaryRow BinaryRow)

/-! ## Names are words -/

theorem bindExpr_worded (scopes : ScopeStack) : ∀ e : Syntax.Expr,
    (∀ t ∈ e.tokens, IsWord t.text) → (bindExpr scopes e).tree.Worded
  | .literal _ _, _ => trivial
  | .unary op operand, h => by
    rw [Syntax.Expr.tokens_unary, List.forall_mem_cons] at h
    have ih := bindExpr_worded scopes operand h.2
    unfold bindExpr bindUnary
    simp only
    cases UnaryRow.find? op.kind (bindExpr scopes operand).tree.type with
    | none => exact ih
    | some row => exact ih
  | .binary lhs op rhs, h => by
    rw [Syntax.Expr.tokens_binary, List.forall_mem_append, List.forall_mem_cons] at h
    have ihl := bindExpr_worded scopes lhs h.1
    have ihr := bindExpr_worded scopes rhs h.2.2
    unfold bindExpr bindBinary
    simp only
    cases BinaryRow.find? op.kind (bindExpr scopes lhs).tree.type
        (bindExpr scopes rhs).tree.type with
    | none => exact ihl
    | some row => exact ⟨ihl, ihr⟩
  | .paren _ inner _, h => by
    rw [Syntax.Expr.tokens_paren, List.forall_mem_cons, List.forall_mem_append] at h
    exact bindExpr_worded scopes inner h.2.1
  | .name ident, h => by
    unfold bindExpr bindName
    split
    · trivial
    · cases hv : scopes.find? ident.text with
      | none => trivial
      | some v =>
        show IsWord v.name
        rw [ScopeStack.name_of_find? hv]
        exact h ident (by simp)
  | .assign ident eq rhs, h => by
    rw [Syntax.Expr.tokens_assign, List.forall_mem_cons, List.forall_mem_cons] at h
    have ih := bindExpr_worded scopes rhs h.2.2
    unfold bindExpr bindAssign
    cases hv : scopes.find? ident.text with
    | none => exact ih
    | some v =>
      have hname : IsWord v.name := ScopeStack.name_of_find? hv ▸ h.1
      simp only
      split
      · exact ⟨hname, ih⟩
      · exact ih

theorem bindExprAs_worded (scopes : ScopeStack) (target : Ty) {e : Syntax.Expr}
    (h : ∀ t ∈ e.tokens, IsWord t.text) : (bindExprAs scopes target e).tree.Worded := by
  rw [bindExprAs_tree]
  exact bindExpr_worded scopes e h

mutual

theorem bindStmt_worded (outer : ScopeStack) (scope : Scope) : ∀ s : Syntax.Stmt,
    (∀ t ∈ s.tokens, IsWord t.text) → (bindStmt outer scope s).tree.Worded
  | .block _ body _, h => by
    simp only [Syntax.Stmt.tokens_block, List.forall_mem_cons, List.forall_mem_append] at h
    exact bindBody_worded (scope :: outer) {} body h.2.1
  | .expr e, h => bindExpr_worded (scope :: outer) e (by simpa using h)
  | .decl _ ident _ init, h => by
    simp only [Syntax.Stmt.tokens_decl, List.forall_mem_cons] at h
    obtain ⟨_, hident, _, hinit⟩ := h
    exact ⟨hident, bindExpr_worded _ init hinit⟩
  | .ifThen _ cond yes, h => by
    simp only [Syntax.Stmt.tokens_ifThen, List.forall_mem_cons, List.forall_mem_append] at h
    obtain ⟨_, hcond, hyes⟩ := h
    exact ⟨bindExprAs_worded _ .bool hcond, bindStmt_worded _ {} yes hyes⟩
  | .ifElse _ cond yes _ no, h => by
    simp only [Syntax.Stmt.tokens_ifElse, List.forall_mem_cons, List.forall_mem_append] at h
    obtain ⟨_, hcond, hyes, _, hno⟩ := h
    exact ⟨bindExprAs_worded _ .bool hcond, bindStmt_worded _ {} yes hyes,
      bindStmt_worded _ {} no hno⟩
  | .while _ cond body, h => by
    simp only [Syntax.Stmt.tokens_while, List.forall_mem_cons, List.forall_mem_append] at h
    obtain ⟨_, hcond, hbody⟩ := h
    exact ⟨bindExprAs_worded _ .bool hcond, bindStmt_worded _ {} body hbody⟩
  | .for _ ident _ lower _ upper body, h => by
    simp only [Syntax.Stmt.tokens_for, List.forall_mem_cons, List.forall_mem_append] at h
    obtain ⟨_, hident, _, hlower, _, hupper, hbody⟩ := h
    exact ⟨hident, bindExprAs_worded _ .int hlower, bindExprAs_worded _ .int hupper,
      bindStmt_worded _ _ body hbody⟩

theorem bindBody_worded (outer : ScopeStack) (scope : Scope) : ∀ ss : List Syntax.Stmt,
    (∀ t ∈ ss.flatMap Syntax.Stmt.tokens, IsWord t.text) →
    Typed.Stmt.AllWorded (bindBody outer scope ss).tree
  | [], _ => trivial
  | s :: ss, h => by
    rw [List.flatMap_cons, List.forall_mem_append] at h
    exact ⟨bindStmt_worded outer scope s h.1, bindBody_worded outer _ ss h.2⟩

end

/-! ## Texts -/

namespace Layer

/-- What a text binds to after others, the oldest of them first. -/
def ofTexts (before : List String) (text : String) : Layer :=
  bind (bindAll [] (before.map fun earlier => (Fragment.parse earlier).unit))
    (Fragment.parse text).unit

theorem ofTexts_stmt (before : List String) {text : String}
    (hlen : byteLength text.toList < Span.lengthBound) :
    (ofTexts before text).stmt.Worded ∧ ∃ known, (ofTexts before text).stmt.Safe known := by
  let history := bindAll [] (before.map fun earlier => (Fragment.parse earlier).unit)
  have hwords : ∀ t ∈ (Fragment.parse text).unit.stmt.tokens, IsWord t.text := by
    intro t ht
    exact (Fragment.tokens_legible hlen t (List.mem_append_left _ ht)).word
  have hknows : Knows (scopes history).visible ({} :: scopes history) :=
    (ScopeStack.knows_visible _).enter
  exact ⟨bindStmt_worded (scopes history) {} _ hwords, _, (bindStmt_safe hknows _).1⟩

end Layer

/-- Fragments with the same drawing have the same nodes, in the same order and at the same depths,
with the same names, texts and values; each of them has one line of the drawing. What two texts bind
to, each after any texts before it, is the same up to read-only flags if it has the same drawing. In
longer texts lengths wrap, and a token can be cut out of the wrong place. -/
theorem drawings_faithful :
    (∀ text text' : String, byteLength text.toList < 2 ^ 32 → byteLength text'.toList < 2 ^ 32 →
      (Fragment.parse text).unit.node.outline.draw = (Fragment.parse text').unit.node.outline.draw →
        (Fragment.parse text).unit.node.listing = (Fragment.parse text').unit.node.listing) ∧
    (∀ text : String, byteLength text.toList < 2 ^ 32 → ∃ ls : List String,
      (Fragment.parse text).unit.node.outline.draw = String.join (ls.map (· ++ "\n")) ∧
      (∀ line ∈ ls, OneLine line) ∧ ls.map Outline.readRow =
        ((Fragment.parse text).unit.node.walk 0).map fun m => (m.1, m.2.label)) ∧
    ∀ (before before' : List String) (text text' : String),
      byteLength text.toList < 2 ^ 32 → byteLength text'.toList < 2 ^ 32 →
      (Layer.ofTexts before text).stmt.outline.draw =
        (Layer.ofTexts before' text').stmt.outline.draw →
      (Layer.ofTexts before text).stmt.unflagged =
        (Layer.ofTexts before' text').stmt.unflagged := by
  refine ⟨fun text text' hlen hlen' h => ?_, fun text hlen => ?_,
    fun before before' text text' hlen hlen' h => ?_⟩
  · exact Syntax.Node.listing_of_draw (Fragment.tokens_legible hlen)
      (Fragment.tokens_legible hlen') h
  · exact Syntax.Node.draw_lines (Fragment.tokens_legible hlen)
  · obtain ⟨hworded, _, hsafe⟩ := Layer.ofTexts_stmt before hlen
    obtain ⟨hworded', _, hsafe'⟩ := Layer.ofTexts_stmt before' hlen'
    exact Typed.Stmt.unflagged_of_draw hsafe hsafe' hworded hworded' h

/-- Layout is not drawn, nor whether a variable is read-only. -/
theorem layout_and_flags_not_drawn :
    (Fragment.parse "\x7ba=-1 b").unit.node.outline.draw =
        (Fragment.parse "\x7b a = - 1\n b").unit.node.outline.draw ∧
      (Fragment.parse "\x7ba=-1 b").unit.node.listing =
        (Fragment.parse "\x7b a = - 1\n b").unit.node.listing ∧
    (Layer.ofTexts ["let a = 1"] "\x7b var b = a a = b \x7d").stmt.outline.draw =
        (Layer.ofTexts ["true", "var a = 2"] "\x7b let b = a a = b \x7d").stmt.outline.draw ∧
      (Layer.ofTexts ["let a = 1"] "\x7b var b = a a = b \x7d").stmt.unflagged =
        (Layer.ofTexts ["true", "var a = 2"] "\x7b let b = a a = b \x7d").stmt.unflagged := by
  have htree : (Fragment.parse "\x7ba=-1 b").unit.node.outline.draw =
      (Fragment.parse "\x7b a = - 1\n b").unit.node.outline.draw := by decide +kernel
  have hbound : (Layer.ofTexts ["let a = 1"] "\x7b var b = a a = b \x7d").stmt.outline.draw =
      (Layer.ofTexts ["true", "var a = 2"] "\x7b let b = a a = b \x7d").stmt.outline.draw := by
    decide +kernel
  exact ⟨htree, drawings_faithful.1 _ _ (by decide) (by decide) htree, hbound,
    drawings_faithful.2.2 _ _ _ _ (by decide) (by decide) hbound⟩

/-! ## Lengths that wrap -/

theorem line_feed_drawn {n : Nat} (hn : (n + 1) % Span.lengthBound = 0) :
    let text := String.ofList ('\n' :: (List.replicate n '\n' ++ ['a']))
    ¬ ∃ ls : List String,
      (Fragment.parse text).unit.node.outline.draw = String.join (ls.map (· ++ "\n")) ∧
      (∀ line ∈ ls, OneLine line) ∧ ls.map Outline.readRow =
        ((Fragment.parse text).unit.node.walk 0).map fun m => (m.1, m.2.label) := by
  rintro text ⟨ls, hdraw, hls, hrows⟩
  have hparse := Fragment.parse_of_lexemes (Token.lexemes_of_line_feeds hn)
  have hnodes : ((Fragment.parse text).unit.node.walk 0).length = 5 := by
    simp only [text, hparse]
    decide +kernel
  have hlines : ((Fragment.parse text).unit.node.outline.draw.toList.splitOn '\n').length = 7 := by
    simp only [text, hparse]
    decide +kernel
  have hcount := congrArg List.length hrows
  rw [List.length_map, List.length_map, hnodes] at hcount
  rw [hdraw, Outline.splitOn_join hls, List.length_append, List.length_map, hcount] at hlines
  cases hlines

/-- After as many line feeds as a length cannot count, a name is read as one of them, and the line
of its node is broken in two. -/
theorem long_layout_breaks_line :
    let text := String.ofList ('\n' :: (List.replicate (2 ^ 32 - 1) '\n' ++ ['a']))
    ¬ ∃ ls : List String,
      (Fragment.parse text).unit.node.outline.draw = String.join (ls.map (· ++ "\n")) ∧
      (∀ line ∈ ls, OneLine line) ∧ ls.map Outline.readRow =
        ((Fragment.parse text).unit.node.walk 0).map fun m => (m.1, m.2.label) :=
  line_feed_drawn (by decide)

end Scriptlet.Binding
