import Scriptlet.Syntax.Node
import Scriptlet.Syntax.Rules

/-!
# Canonical trees

A tree is canonical if it shows the grouping that the grammar finds in its tokens. Reading the
tokens of a canonical tree gives the tree back.
-/

namespace Scriptlet.Syntax

open Token (Kind)

def literal? (t : Token) : Option (Option Value) :=
  match t.kind with
  | .number => some t.value
  | .trueKeyword => some (some (.bool true))
  | .falseKeyword => some (some (.bool false))
  | _ => none

/-- How tightly an expression holds together: an assignment least, an infix expression as tightly
as its operator binds, all else most. -/
def Expr.level : Expr → Nat
  | assign .. => 0
  | binary _ op _ => op.kind.binaryPrecedence
  | _ => 7

/-- Operands hold together more tightly than their operator; only the left operand of an infix
operator may hold together just as tightly. -/
def Expr.Canonical : Expr → Prop
  | literal t v => literal? t = some v
  | unary op e =>
    op.kind.unaryPrecedence ≠ 0 ∧ op.kind.unaryPrecedence < e.level ∧ e.Canonical
  | binary l op r =>
    op.kind.binaryPrecedence ≠ 0 ∧
      op.kind.binaryPrecedence ≤ l.level ∧ op.kind.binaryPrecedence < r.level ∧
      l.Canonical ∧ r.Canonical
  | paren o e c => o.kind = .openParen ∧ e.Canonical ∧ c.kind = .closeParen
  | name t => t.kind = .identifier
  | assign t eq e => t.kind = .identifier ∧ eq.kind = .eq ∧ e.Canonical

namespace Stmt

/-- Whether the first token could also go on with an expression before it. -/
def startsSigned (s : Stmt) : Bool := s.tokens.head?.any fun t => t.kind = .plus ∨ t.kind = .minus

def endsInExpr : Stmt → Bool
  | block .. => false
  | expr _ | decl .. => true
  | ifThen _ _ s | ifElse _ _ _ _ s | .while _ _ s | .for _ _ _ _ _ _ s => s.endsInExpr

/-- Whether the last part is an `if` that could still get an `else`. -/
def endsOpen : Stmt → Bool
  | block .. | expr _ | decl .. => false
  | ifThen .. => true
  | ifElse _ _ _ _ s | .while _ _ s | .for _ _ _ _ _ _ s => s.endsOpen

mutual

/-- A statement right after an expression does not start with a sign that would go on with it, and
an `else` belongs to the nearest `if` before it. -/
def Canonical : Stmt → Prop
  | block o body c => o.kind = .openBrace ∧ BodyCanonical body ∧ c.kind = .closeBrace
  | expr e => e.Canonical
  | decl k t eq e =>
    (k.kind = .letKeyword ∨ k.kind = .varKeyword) ∧ t.kind = .identifier ∧ eq.kind = .eq ∧
      e.Canonical
  | ifThen k e s => k.kind = .ifKeyword ∧ e.Canonical ∧ s.startsSigned = false ∧ s.Canonical
  | ifElse k e s k' s' =>
    k.kind = .ifKeyword ∧ e.Canonical ∧ s.startsSigned = false ∧ s.Canonical ∧
      s.endsOpen = false ∧ k'.kind = .elseKeyword ∧ s'.Canonical
  | .while k e s => k.kind = .whileKeyword ∧ e.Canonical ∧ s.startsSigned = false ∧ s.Canonical
  | .for k t eq lo sep hi s =>
    k.kind = .forKeyword ∧ t.kind = .identifier ∧ eq.kind = .eq ∧ lo.Canonical ∧
      sep.kind = .toKeyword ∧ hi.Canonical ∧ s.startsSigned = false ∧ s.Canonical

def BodyCanonical : List Stmt → Prop
  | [] => True
  | s :: ss =>
    s.Canonical ∧ (s.endsInExpr = true → ∀ s' ∈ ss.head?, s'.startsSigned = false) ∧
      BodyCanonical ss

end

end Stmt

structure SourceUnit.Canonical (u : SourceUnit) : Prop where
  present : ∀ t ∈ u.tokens, t.isMissing = false
  stmt : u.stmt.Canonical
  eof : u.eof = .eofAt u.eof.span.pos

/-! ## What may follow -/

def EndsExpr (k : Kind) : Prop := k.binaryPrecedence = 0 ∧ k ≠ .eq

instance : DecidablePred EndsExpr := fun _ => inferInstanceAs (Decidable (_ ∧ _))

structure Stmt.Ends (s : Stmt) (k : Kind) : Prop where
  expr : s.endsInExpr = true → EndsExpr k
  open_ : s.endsOpen = true → k ≠ .elseKeyword

def exprStarts : List Kind :=
  [.plus, .minus, .bang, .openParen, .trueKeyword, .falseKeyword, .number, .identifier]

def stmtStarts : List Kind :=
  [.openBrace, .letKeyword, .varKeyword, .ifKeyword, .whileKeyword, .forKeyword] ++ exprStarts

theorem literal?_kind {t : Token} {v : Option Value} (h : literal? t = some v) :
    t.kind = .number ∨ t.kind = .trueKeyword ∨ t.kind = .falseKeyword := by
  unfold literal? at h
  split at h
  · exact .inl ‹_›
  · exact .inr (.inl ‹_›)
  · exact .inr (.inr ‹_›)
  · cases h

theorem unaryPrecedence_ne_zero {k : Kind} (h : k.unaryPrecedence ≠ 0) :
    k = .plus ∨ k = .minus ∨ k = .bang := by
  revert h
  cases k <;> decide

theorem unaryPrecedence_eq_six {k : Kind} (h : k.unaryPrecedence ≠ 0) : k.unaryPrecedence = 6 := by
  rcases unaryPrecedence_ne_zero h with h | h | h <;> rw [h] <;> rfl

theorem Expr.Canonical.exists_first : ∀ {e : Expr}, e.Canonical →
    ∃ t ts, e.tokens = t :: ts ∧ t.kind ∈ exprStarts
  | .literal t v, h => ⟨t, [], by simp, by
      rcases literal?_kind h with h | h | h <;> rw [h] <;> decide⟩
  | .unary op e, h => ⟨op, e.tokens, by simp, by
      rcases unaryPrecedence_ne_zero h.1 with h | h | h <;> rw [h] <;> decide⟩
  | .binary l op r, h => by
    obtain ⟨t, ts, hl, ht⟩ := Expr.Canonical.exists_first h.2.2.2.1
    exact ⟨t, ts ++ op :: r.tokens, by simp [hl], ht⟩
  | .paren o e c, h => ⟨o, e.tokens ++ [c], by simp, by rw [h.1]; decide⟩
  | .name t, h => ⟨t, [], by simp, by
      have hkind : t.kind = .identifier := h
      rw [hkind]
      decide⟩
  | .assign t eq e, h => ⟨t, eq :: e.tokens, by simp, by rw [h.1]; decide⟩

theorem Stmt.Canonical.exists_first {s : Stmt} (h : s.Canonical) :
    ∃ t ts, s.tokens = t :: ts ∧ t.kind ∈ stmtStarts := by
  cases s with
  | block o body c => exact ⟨o, _, Stmt.tokens_block o body c, by rw [h.1]; decide⟩
  | expr e =>
    obtain ⟨t, ts, he, ht⟩ := Expr.Canonical.exists_first h
    exact ⟨t, ts, by rw [Stmt.tokens_expr, he], List.mem_append_right _ ht⟩
  | decl k t eq e =>
    refine ⟨k, _, Stmt.tokens_decl k t eq e, ?_⟩
    rcases h.1 with h | h <;> rw [h] <;> decide
  | ifThen k e s => exact ⟨k, _, Stmt.tokens_ifThen k e s, by rw [h.1]; decide⟩
  | ifElse k e s k' s' => exact ⟨k, _, Stmt.tokens_ifElse k e s k' s', by rw [h.1]; decide⟩
  | «while» k e s => exact ⟨k, _, Stmt.tokens_while k e s, by rw [h.1]; decide⟩
  | «for» k t eq lo sep hi s =>
    exact ⟨k, _, Stmt.tokens_for k t eq lo sep hi s, by rw [h.1]; decide⟩

theorem Stmt.Canonical.current_mem {s : Stmt} (h : s.Canonical) (stop : Nat) (rest : List Token) :
    (current stop (s.tokens ++ rest)).kind ∈ stmtStarts := by
  obtain ⟨t, ts, hs, ht⟩ := h.exists_first
  rw [hs]
  exact ht

/-- A statement that does not start with a sign ends an expression before it. -/
theorem Stmt.Canonical.endsExpr_first {s : Stmt} (h : s.Canonical) (hsign : s.startsSigned = false)
    (stop : Nat) (rest : List Token) : EndsExpr (current stop (s.tokens ++ rest)).kind := by
  obtain ⟨t, ts, hs, ht⟩ := h.exists_first
  have hkind : ∀ k ∈ stmtStarts, k = .plus ∨ k = .minus ∨ EndsExpr k := by decide
  rw [startsSigned, hs] at hsign
  rw [hs]
  rcases hkind t.kind ht with h | h | h
  · simp [h] at hsign
  · simp [h] at hsign
  · exact h

theorem Stmt.BodyCanonical.ends_first {s : Stmt} {ss : List Stmt}
    (h : Stmt.BodyCanonical (s :: ss)) {c : Token} (hc : c.kind = .closeBrace) (stop : Nat)
    (rest : List Token) : s.Ends (current stop (ss.flatMap Stmt.tokens ++ c :: rest)).kind := by
  obtain ⟨_, hsign, hss⟩ := h
  cases ss with
  | nil =>
    rw [List.flatMap_nil, List.nil_append, current_cons, hc]
    exact ⟨fun _ => by decide, fun _ => by decide⟩
  | cons s' ss =>
    have hne : ∀ k ∈ stmtStarts, k ≠ .elseKeyword := by decide
    rw [List.flatMap_cons, List.append_assoc]
    exact ⟨fun hexpr => hss.1.endsExpr_first (hsign hexpr s' rfl) stop _,
      fun _ => hne _ (hss.1.current_mem stop _)⟩

/-! ## Expressions -/

section
variable {stop : Nat}

theorem parseInfix_stop {parent : Nat} {ts : List Token}
    (h : (current stop ts).kind.binaryPrecedence ≤ parent) (lhs : Expr) :
    parseInfix stop parent lhs ts = ⟨lhs, ts, []⟩ := by
  cases ts with
  | nil => exact parseInfix_nil stop parent lhs
  | cons op ts =>
    rw [current_cons] at h
    rw [parseInfix_cons, if_neg (Nat.not_lt.mpr h)]
    rfl

theorem parsePrimary_literal {t : Token} {v : Option Value} (h : literal? t = some v)
    (ts : List Token) : parsePrimary stop (t :: ts) = ⟨.literal t v, ts, []⟩ := by
  rw [parsePrimary_cons]
  unfold literal? at h
  split at h <;> simp_all [Parsed.pure]

theorem parsePrimary_name {t : Token} (h : t.kind = .identifier) (ts : List Token) :
    parsePrimary stop (t :: ts) = ⟨.name t, ts, []⟩ := by
  rw [parsePrimary_cons, h]
  simp [expect_of_kind h, Parsed.pure]

theorem parseBinary_of_primary {parent : Nat} {t : Token} {ts rest : List Token} {e : Expr}
    (ht : t.kind.unaryPrecedence = 0) (h : parsePrimary stop (t :: ts) = ⟨e, rest, []⟩) :
    parseBinary stop parent (t :: ts) = parseInfix stop parent e rest := by
  rw [parseBinary_cons, if_neg fun hop => hop.1 ht, h, Parsed.mk_bind]

theorem parseExpr_of_not_assign {t : Token} {ts : List Token}
    (h : t.kind = .identifier → (current stop ts).kind ≠ .eq) :
    parseExpr stop (t :: ts) = parseBinary stop 0 (t :: ts) := by
  cases ts with
  | nil => exact parseExpr_singleton stop t
  | cons eq ts => rw [parseExpr_cons_cons, if_neg fun hassign => h hassign.1 hassign.2]

/-- Only an assignment starts with a name and an equals sign. -/
theorem parseExpr_eq_parseBinary : ∀ {e : Expr}, e.Canonical → e.level ≠ 0 →
    ∀ rest : List Token, (current stop rest).kind ≠ .eq →
    parseExpr stop (e.tokens ++ rest) = parseBinary stop 0 (e.tokens ++ rest)
  | .literal t v, h, _, rest, hnext => by
    rw [Expr.tokens_literal]
    exact parseExpr_of_not_assign fun _ => hnext
  | .unary op e, h, _, rest, _ => by
    have hne : op.kind ≠ .identifier := fun hkind => h.1 (by rw [hkind]; rfl)
    rw [Expr.tokens_unary]
    exact parseExpr_of_not_assign fun hident => absurd hident hne
  | .binary l op r, h, _, rest, _ => by
    obtain ⟨hop, hl, _, hlc, _⟩ := h
    have hlevel : l.level ≠ 0 := by omega
    have hne : op.kind ≠ .eq := fun hkind => hop (by rw [hkind]; rfl)
    simpa using parseExpr_eq_parseBinary hlc hlevel (op :: (r.tokens ++ rest)) hne
  | .paren o e c, h, _, rest, _ => by
    have hne : o.kind ≠ .identifier := by rw [h.1]; decide
    rw [Expr.tokens_paren]
    exact parseExpr_of_not_assign fun hident => absurd hident hne
  | .name t, _, _, rest, hnext => by
    rw [Expr.tokens_name]
    exact parseExpr_of_not_assign fun _ => hnext
  | .assign .., _, hlevel, _, _ => absurd rfl hlevel

theorem Expr.Canonical.eq_assign {e : Expr} (h : e.Canonical) (hlevel : e.level = 0) :
    ∃ t eq rhs, e = .assign t eq rhs := by
  cases e with
  | assign t eq rhs => exact ⟨t, eq, rhs, rfl⟩
  | binary l op r => exact absurd hlevel h.1
  | _ => cases hlevel

theorem binaryPrecedence_le (k : Kind) : k.binaryPrecedence ≤ 5 := by
  cases k <;> decide

mutual

theorem parseBinary_tokens {e : Expr} (h : e.Canonical) {parent : Nat} (hparent : parent < e.level)
    {rest : List Token} (hnext : (current stop rest).kind.binaryPrecedence ≤ e.level) :
    parseBinary stop parent (e.tokens ++ rest) = parseInfix stop parent e rest := by
  match e with
  | .literal t v =>
    have ht : t.kind.unaryPrecedence = 0 := by
      rcases literal?_kind h with h | h | h <;> rw [h] <;> rfl
    rw [Expr.tokens_literal]
    exact parseBinary_of_primary ht (parsePrimary_literal h rest)
  | .unary op e =>
    obtain ⟨hop, hlevel, he⟩ := h
    have hunary := unaryPrecedence_eq_six hop
    have hle := binaryPrecedence_le (current stop rest).kind
    have hparent : parent < 7 := hparent
    have hoperand :
        parseBinary stop op.kind.unaryPrecedence (e.tokens ++ rest) = ⟨e, rest, []⟩ := by
      rw [parseBinary_tokens he hlevel (by omega), parseInfix_stop (by omega)]
    rw [Expr.tokens_unary, List.cons_append, parseBinary_cons, if_pos ⟨hop, by omega⟩, hoperand,
      Parsed.mk_bind]
  | .binary l op r =>
    -- The operator ends the left operand, and what follows binds too loosely for the right one.
    obtain ⟨_, hl, hr, hlc, hrc⟩ := h
    have hparent : parent < op.kind.binaryPrecedence := hparent
    have hnext : (current stop rest).kind.binaryPrecedence ≤ op.kind.binaryPrecedence := hnext
    have hrhs : parseBinary stop op.kind.binaryPrecedence (r.tokens ++ rest) = ⟨r, rest, []⟩ := by
      rw [parseBinary_tokens hrc hr (by omega), parseInfix_stop hnext]
    have hlhs : parseBinary stop parent (l.tokens ++ op :: (r.tokens ++ rest)) =
        parseInfix stop parent l (op :: (r.tokens ++ rest)) :=
      parseBinary_tokens hlc (by omega) hl
    rw [Expr.tokens_binary, List.append_assoc, List.cons_append, hlhs, parseInfix_cons,
      if_pos hparent, hrhs, Parsed.mk_bind]
  | .paren o e c =>
    obtain ⟨ho, he, hc⟩ := h
    have hinner : parseExpr stop (e.tokens ++ c :: rest) = ⟨e, c :: rest, []⟩ :=
      parseExpr_tokens he (by rw [current_cons, hc]; decide)
    have hprimary :
        parsePrimary stop (o :: (e.tokens ++ c :: rest)) = ⟨.paren o e c, rest, []⟩ := by
      rw [parsePrimary_cons, ho]
      simp [hinner, expect_of_kind hc, Parsed.pure]
    simpa using parseBinary_of_primary (by rw [ho]; rfl) hprimary
  | .name t =>
    have ht : t.kind = .identifier := h
    rw [Expr.tokens_name]
    exact parseBinary_of_primary (by rw [ht]; rfl) (parsePrimary_name ht rest)
  | .assign .. => exact absurd hparent (Nat.not_lt_zero parent)
termination_by (sizeOf e, 0)

theorem parseExpr_tokens {e : Expr} (h : e.Canonical) {rest : List Token}
    (hnext : EndsExpr (current stop rest).kind) :
    parseExpr stop (e.tokens ++ rest) = ⟨e, rest, []⟩ := by
  by_cases hlevel : e.level = 0
  · obtain ⟨t, eq, rhs, rfl⟩ := h.eq_assign hlevel
    obtain ⟨ht, heq, hrhs⟩ := h
    rw [Expr.tokens_assign, List.cons_append, List.cons_append, parseExpr_cons_cons,
      if_pos ⟨ht, heq⟩, parseExpr_tokens hrhs hnext]
    rfl
  · have hle : (current stop rest).kind.binaryPrecedence ≤ 0 := Nat.le_of_eq hnext.1
    rw [parseExpr_eq_parseBinary h hlevel rest hnext.2,
      parseBinary_tokens h (Nat.pos_of_ne_zero hlevel) (Nat.le_trans hle (Nat.zero_le _)),
      parseInfix_stop hle]
termination_by (sizeOf e, 1)

end

/-! ## Statements -/

theorem parseStmt_of_exprStart {t : Token} (ht : t.kind ∈ exprStarts) (ts : List Token) :
    parseStmt stop (t :: ts) = (parseExpr stop (t :: ts)).bind fun e ts => .pure (.expr e) ts := by
  rw [parseStmt_cons]
  simp only [exprStarts, List.mem_cons, List.not_mem_nil, or_false] at ht
  rcases ht with h | h | h | h | h | h | h | h <;> rw [h]

theorem parseElse_stop {ts : List Token} (h : (current stop ts).kind ≠ .elseKeyword) (k : Token)
    (e : Expr) (s : Stmt) : parseElse stop k e s ts = ⟨.ifThen k e s, ts, []⟩ := by
  cases ts with
  | nil => exact parseElse_nil stop k e s
  | cons t ts =>
    rw [current_cons] at h
    rw [parseElse_cons, if_neg h]
    rfl

theorem skipStuck_append {t : Token} (ts rest : List Token) :
    skipStuck t (ts ++ rest) rest = rest := by
  refine if_neg fun h => ?_
  have hlen := congrArg List.length (beq_iff_eq.mp h)
  simp only [List.length_cons, List.length_append] at hlen
  omega

mutual

theorem parseStmt_tokens {s : Stmt} (h : s.Canonical) {rest : List Token}
    (hend : s.Ends (current stop rest).kind) :
    parseStmt stop (s.tokens ++ rest) = ⟨s, rest, []⟩ := by
  match s with
  | .block o body c =>
    obtain ⟨ho, hbody, hc⟩ := h
    rw [Stmt.tokens_block, List.cons_append, List.append_assoc, List.singleton_append,
      parseStmt_cons, ho]
    simp [parseBody_tokens hbody hc, expect_of_kind hc, Parsed.pure]
  | .expr e =>
    obtain ⟨t, ts, he, ht⟩ := Expr.Canonical.exists_first h
    have hparse : parseExpr stop (e.tokens ++ rest) = ⟨e, rest, []⟩ :=
      parseExpr_tokens h (hend.expr rfl)
    rw [he, List.cons_append] at hparse
    rw [Stmt.tokens_expr, he, List.cons_append, parseStmt_of_exprStart ht, hparse]
    rfl
  | .decl k t eq e =>
    obtain ⟨hk, ht, heq, he⟩ := h
    have hinit : parseExpr stop (e.tokens ++ rest) = ⟨e, rest, []⟩ :=
      parseExpr_tokens he (hend.expr rfl)
    rw [Stmt.tokens_decl, List.cons_append, parseStmt_cons]
    rcases hk with hk | hk <;>
      simp [hk, expect_of_kind ht, expect_of_kind heq, hinit, Parsed.pure]
  | .ifThen k e s =>
    obtain ⟨hk, he, hsign, hs⟩ := h
    have hcond : parseExpr stop (e.tokens ++ (s.tokens ++ rest)) = ⟨e, s.tokens ++ rest, []⟩ :=
      parseExpr_tokens he (hs.endsExpr_first hsign stop rest)
    have helse : (current stop rest).kind ≠ .elseKeyword := hend.open_ rfl
    have hyes : parseStmt stop (s.tokens ++ rest) = ⟨s, rest, []⟩ :=
      parseStmt_tokens hs ⟨hend.expr, fun _ => helse⟩
    rw [Stmt.tokens_ifThen, List.cons_append, List.append_assoc, parseStmt_cons, hk]
    simp [hcond, hyes, parseElse_stop helse]
  | .ifElse k e s k' s' =>
    obtain ⟨hk, he, hsign, hs, hopen, hk', hs'⟩ := h
    have hcond : parseExpr stop (e.tokens ++ (s.tokens ++ k' :: (s'.tokens ++ rest))) =
        ⟨e, s.tokens ++ k' :: (s'.tokens ++ rest), []⟩ :=
      parseExpr_tokens he (hs.endsExpr_first hsign stop _)
    have hyes : parseStmt stop (s.tokens ++ k' :: (s'.tokens ++ rest)) =
        ⟨s, k' :: (s'.tokens ++ rest), []⟩ := by
      refine parseStmt_tokens hs ⟨fun _ => ?_, fun h => absurd h (by simp [hopen])⟩
      rw [current_cons, hk']
      decide
    have hno : parseStmt stop (s'.tokens ++ rest) = ⟨s', rest, []⟩ :=
      parseStmt_tokens hs' ⟨hend.expr, hend.open_⟩
    rw [Stmt.tokens_ifElse, List.cons_append, parseStmt_cons, hk]
    simp [hcond, hyes, parseElse_cons, hk', hno, Parsed.pure]
  | .while k e s =>
    obtain ⟨hk, he, hsign, hs⟩ := h
    have hcond : parseExpr stop (e.tokens ++ (s.tokens ++ rest)) = ⟨e, s.tokens ++ rest, []⟩ :=
      parseExpr_tokens he (hs.endsExpr_first hsign stop rest)
    have hbody : parseStmt stop (s.tokens ++ rest) = ⟨s, rest, []⟩ :=
      parseStmt_tokens hs ⟨hend.expr, hend.open_⟩
    rw [Stmt.tokens_while, List.cons_append, List.append_assoc, parseStmt_cons, hk]
    simp [hcond, hbody, Parsed.pure]
  | .for k t eq lo sep hi s =>
    obtain ⟨hk, ht, heq, hlo, hsep, hhi, hsign, hs⟩ := h
    have hlower : parseExpr stop (lo.tokens ++ sep :: (hi.tokens ++ (s.tokens ++ rest))) =
        ⟨lo, sep :: (hi.tokens ++ (s.tokens ++ rest)), []⟩ :=
      parseExpr_tokens hlo (by rw [current_cons, hsep]; decide)
    have hupper : parseExpr stop (hi.tokens ++ (s.tokens ++ rest)) = ⟨hi, s.tokens ++ rest, []⟩ :=
      parseExpr_tokens hhi (hs.endsExpr_first hsign stop rest)
    have hbody : parseStmt stop (s.tokens ++ rest) = ⟨s, rest, []⟩ :=
      parseStmt_tokens hs ⟨hend.expr, hend.open_⟩
    rw [Stmt.tokens_for, List.cons_append, parseStmt_cons, hk]
    simp [expect_of_kind ht, expect_of_kind heq, hlower, expect_of_kind hsep, hupper, hbody,
      Parsed.pure]

theorem parseBody_tokens {ss : List Stmt} (h : Stmt.BodyCanonical ss) {c : Token}
    (hc : c.kind = .closeBrace) {rest : List Token} :
    parseBody stop (ss.flatMap Stmt.tokens ++ c :: rest) = ⟨ss, c :: rest, []⟩ := by
  match ss with
  | [] =>
    rw [List.flatMap_nil, List.nil_append, parseBody_cons, if_pos hc]
    rfl
  | s :: ss =>
    have hend := h.ends_first hc stop rest
    obtain ⟨hs, _, hss⟩ := h
    obtain ⟨t, ts, htokens, ht⟩ := hs.exists_first
    have hne : ∀ k ∈ stmtStarts, k ≠ .closeBrace := by decide
    have hstmt := parseStmt_tokens hs hend
    rw [htokens, List.cons_append] at hstmt
    rw [List.flatMap_cons, htokens, List.append_assoc, List.cons_append, parseBody_cons,
      if_neg (hne _ ht), hstmt, Parsed.mk_bind, skipStuck_append, parseBody_tokens hss hc]
    rfl

end

theorem parseUnit_tokens {u : SourceUnit} (h : u.Canonical) :
    parseUnit u.eof.span.pos u.stmt.tokens = ⟨u, [], []⟩ := by
  have hend : u.stmt.Ends .eof := ⟨fun _ => by decide, fun _ => by decide⟩
  have hstmt : parseStmt u.eof.span.pos (u.stmt.tokens ++ []) = ⟨u.stmt, [], []⟩ :=
    parseStmt_tokens h.stmt hend
  have heof : expect u.eof.span.pos .eof [] = ⟨.eofAt u.eof.span.pos, [], []⟩ := rfl
  rw [List.append_nil] at hstmt
  rw [parseUnit, hstmt, Parsed.mk_bind, heof, Parsed.mk_bind, ← h.eof]
  rfl

end

end Scriptlet.Syntax
