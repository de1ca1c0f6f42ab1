import Scriptlet.Proofs.Syntax.Canonical
import Scriptlet.Syntax.Fragment

/-!
# Reading is the inverse of writing

If reading reports nothing, the tree is canonical and its leaves are the tokens. So the canonical
trees are the trees of the token lists that the grammar accepts, one for each.
-/

namespace Scriptlet.Syntax

open Token (Kind)

section
variable {stop : Nat}

theorem Parsed.bind_of_clean {α β : Type} {r : Parsed α} (h : r.reports = [])
    (f : α → List Token → Parsed β) : r.bind f = f r.value r.rest := by
  obtain ⟨a, ts, _⟩ := r
  cases h
  rfl

theorem expect_clean {kind : Kind} (hkind : kind ≠ .eof) {ts : List Token}
    (h : (expect stop kind ts).reports = []) :
    (expect stop kind ts).value.kind = kind ∧
      (expect stop kind ts).value :: (expect stop kind ts).rest = ts := by
  by_cases hcurrent : (current stop ts).kind = kind
  · cases ts with
    | nil => exact absurd hcurrent.symm hkind
    | cons t ts =>
      rw [current_cons] at hcurrent
      rw [expect_of_kind hcurrent]
      exact ⟨hcurrent, rfl⟩
  · rw [expect_of_ne hcurrent] at h
    cases h

/-! ## Expressions -/

structure ReadsExpr (stop : Nat) (ts : List Token) (r : Parsed Expr) : Prop where
  canonical : r.value.Canonical
  next : (current stop r.rest).kind.binaryPrecedence = 0
  tokens : r.value.tokens ++ r.rest = ts

structure Climbs (stop parent : Nat) (ts : List Token) (r : Parsed Expr) : Prop where
  canonical : r.value.Canonical
  level : parent < r.value.level
  next : (current stop r.rest).kind.binaryPrecedence ≤ parent
  tokens : r.value.tokens ++ r.rest = ts

theorem Climbs.readsExpr {ts : List Token} {r : Parsed Expr} (h : Climbs stop 0 ts r) :
    ReadsExpr stop ts r := ⟨h.canonical, Nat.le_zero.mp h.next, h.tokens⟩

structure ReadsPrimary (ts : List Token) (r : Parsed Expr) : Prop where
  canonical : r.value.Canonical
  level : r.value.level = 7
  tokens : r.value.tokens ++ r.rest = ts

theorem readsPrimary_literal {t : Token} {v : Option Value} (h : literal? t = some v)
    (ts : List Token) : ReadsPrimary (t :: ts) (.pure (.literal t v) ts) :=
  ⟨h, rfl, rfl⟩

mutual

theorem parseExpr_canonical {ts : List Token} (h : (parseExpr stop ts).reports = []) :
    ReadsExpr stop ts (parseExpr stop ts) := by
  match ts with
  | [] =>
    rw [parseExpr_nil] at h ⊢
    exact (parseBinary_canonical (Nat.zero_le 6) h).readsExpr
  | [t] =>
    rw [parseExpr_singleton] at h ⊢
    exact (parseBinary_canonical (Nat.zero_le 6) h).readsExpr
  | ident :: eq :: ts =>
    have hparse := parseExpr_cons_cons stop ident eq ts
    split at hparse
    · rename_i hassign
      rw [hparse] at h ⊢
      have hrhs := parseExpr_canonical (List.append_eq_nil_iff.mp h).1
      exact ⟨⟨hassign.1, hassign.2, hrhs.canonical⟩, hrhs.next, by simpa using hrhs.tokens⟩
    · rw [hparse] at h ⊢
      exact (parseBinary_canonical (Nat.zero_le 6) h).readsExpr
termination_by 4 * ts.length + 3

theorem parseBinary_canonical {parent : Nat} (hparent : parent ≤ 6) {ts : List Token}
    (h : (parseBinary stop parent ts).reports = []) :
    Climbs stop parent ts (parseBinary stop parent ts) := by
  match ts with
  | [] =>
    rw [parseBinary_nil, parsePrimary_nil] at h
    cases h
  | op :: ts =>
    have hparse := parseBinary_cons stop parent op ts
    split at hparse
    · rename_i hop
      rw [hparse] at h ⊢
      obtain ⟨hoperand, hinfix⟩ := List.append_eq_nil_iff.mp h
      have hlen := (parseBinary_suffix stop op.kind.unaryPrecedence ts).length_le
      have hunary := parseBinary_canonical (Nat.le_of_eq (unaryPrecedence_eq_six hop.1)) hoperand
      have hle := binaryPrecedence_le
        (current stop (parseBinary stop op.kind.unaryPrecedence ts).rest).kind
      have hclimbs := parseInfix_canonical (.unary op _) ⟨hop.1, hunary.level, hunary.canonical⟩
        (Nat.lt_succ_of_le hparent) (Nat.le_trans hle (Nat.le_add_left 5 2)) hinfix
      rw [Expr.tokens_unary, List.cons_append, hunary.tokens] at hclimbs
      rwa [Parsed.bind_of_clean hoperand]
    · rw [hparse] at h ⊢
      obtain ⟨hprimary, hinfix⟩ := List.append_eq_nil_iff.mp h
      have hlen : (parsePrimary stop (op :: ts)).rest.length ≤ ts.length + 1 :=
        (parsePrimary_suffix stop (op :: ts)).length_le
      have hoperand := parsePrimary_canonical hprimary
      have hle := binaryPrecedence_le (current stop (parsePrimary stop (op :: ts)).rest).kind
      have hlevel := hoperand.level
      have hclimbs := parseInfix_canonical _ hoperand.canonical (by omega) (by omega) hinfix
      rw [hoperand.tokens] at hclimbs
      rwa [Parsed.bind_of_clean hprimary]
termination_by 4 * ts.length + 2

theorem parseInfix_canonical {parent : Nat} (lhs : Expr) (hlhs : lhs.Canonical)
    (hlevel : parent < lhs.level) {ts : List Token}
    (hnext : (current stop ts).kind.binaryPrecedence ≤ lhs.level)
    (h : (parseInfix stop parent lhs ts).reports = []) :
    Climbs stop parent (lhs.tokens ++ ts) (parseInfix stop parent lhs ts) := by
  match ts with
  | [] =>
    rw [parseInfix_nil]
    exact ⟨hlhs, hlevel, Nat.zero_le parent, rfl⟩
  | op :: ts =>
    have hparse := parseInfix_cons stop parent lhs op ts
    split at hparse
    · rename_i hop
      rw [hparse] at h ⊢
      obtain ⟨hoperand, hinfix⟩ := List.append_eq_nil_iff.mp h
      have hlen := (parseBinary_suffix stop op.kind.binaryPrecedence ts).length_le
      have hle := binaryPrecedence_le op.kind
      have hrhs := parseBinary_canonical (Nat.le_trans hle (by decide)) hoperand
      have hclimbs := parseInfix_canonical (.binary lhs op _)
        ⟨Nat.ne_of_gt (Nat.zero_lt_of_lt hop), hnext, hrhs.level, hlhs, hrhs.canonical⟩
        hop hrhs.next hinfix
      rw [Expr.tokens_binary, List.append_assoc, List.cons_append, hrhs.tokens] at hclimbs
      rwa [Parsed.bind_of_clean hoperand]
    · rename_i hop
      rw [hparse]
      exact ⟨hlhs, hlevel, Nat.not_lt.mp hop, rfl⟩
termination_by 4 * ts.length

theorem parsePrimary_canonical {ts : List Token} (h : (parsePrimary stop ts).reports = []) :
    ReadsPrimary ts (parsePrimary stop ts) := by
  match ts with
  | [] =>
    rw [parsePrimary_nil] at h
    cases h
  | t :: ts =>
    have hparse := parsePrimary_cons stop t ts
    split at hparse
    · rename_i ht
      rw [hparse] at h ⊢
      simp only [Parsed.bind_reports, List.append_eq_nil_iff] at h
      have hinner := parseExpr_canonical h.1
      obtain ⟨hkind, hclosing⟩ := expect_clean (by decide) h.2.1
      refine ⟨⟨ht, hinner.canonical, hkind⟩, rfl, ?_⟩
      simp [hclosing, hinner.tokens]
    · rename_i ht
      rw [hparse]
      exact readsPrimary_literal (by simp [literal?, ht]) ts
    · rename_i ht
      rw [hparse]
      exact readsPrimary_literal (by simp [literal?, ht]) ts
    · rename_i ht
      rw [hparse]
      exact readsPrimary_literal (by simp [literal?, ht]) ts
    · rw [hparse] at h ⊢
      obtain ⟨hkind, htokens⟩ := expect_clean (by decide) (List.append_eq_nil_iff.mp h).1
      exact ⟨hkind, rfl, by simpa using htokens⟩
termination_by 4 * ts.length + 1

end

/-! ## Statements -/

structure ReadsStmt (stop : Nat) (ts : List Token) (r : Parsed Stmt) : Prop where
  canonical : r.value.Canonical
  expr : r.value.endsInExpr = true → (current stop r.rest).kind.binaryPrecedence = 0
  open_ : r.value.endsOpen = true → (current stop r.rest).kind ≠ .elseKeyword
  tokens : r.value.tokens ++ r.rest = ts

/-- A statement that starts where no operator stands does not start with a sign. -/
theorem Stmt.Canonical.startsSigned_eq {s : Stmt} (h : s.Canonical) {rest ts : List Token}
    (htokens : s.tokens ++ rest = ts) (hnext : (current stop ts).kind.binaryPrecedence = 0) :
    s.startsSigned = false := by
  obtain ⟨t, ts', hs, _⟩ := h.exists_first
  have ht : t.kind.binaryPrecedence = 0 := by
    rw [← htokens, hs] at hnext
    exact hnext
  have hplus : t.kind ≠ .plus := fun hkind => by rw [hkind] at ht; cases ht
  have hminus : t.kind ≠ .minus := fun hkind => by rw [hkind] at ht; cases ht
  simp [startsSigned, hs, hplus, hminus]

theorem Stmt.BodyCanonical.startsSigned_eq {ss : List Stmt} (h : Stmt.BodyCanonical ss)
    {rest ts : List Token} (htokens : ss.flatMap Stmt.tokens ++ rest = ts)
    (hnext : (current stop ts).kind.binaryPrecedence = 0) :
    ∀ s ∈ ss.head?, s.startsSigned = false := by
  intro s hs
  obtain ⟨ss, rfl⟩ := List.head?_eq_some_iff.mp hs
  rw [List.flatMap_cons, List.append_assoc] at htokens
  exact h.1.startsSigned_eq htokens hnext

theorem ReadsStmt.startsSigned_eq {ts : List Token} {r : Parsed Stmt} (h : ReadsStmt stop ts r)
    (hnext : (current stop ts).kind.binaryPrecedence = 0) : r.value.startsSigned = false :=
  h.canonical.startsSigned_eq h.tokens hnext

theorem ReadsStmt.skipStuck_eq {t : Token} {ts : List Token} {r : Parsed Stmt}
    (h : ReadsStmt stop (t :: ts) r) : skipStuck t ts r.rest = r.rest := by
  obtain ⟨t', ts', hs, _⟩ := h.canonical.exists_first
  have htokens := h.tokens
  rw [hs, List.cons_append, List.cons.injEq] at htokens
  rw [← htokens.2, skipStuck_append]

theorem parseDecl_canonical {t : Token} (ht : t.kind = .letKeyword ∨ t.kind = .varKeyword)
    {ts : List Token} (hident : (expect stop .identifier ts).reports = [])
    (heq : (expect stop .eq (expect stop .identifier ts).rest).reports = [])
    (hinit : (parseExpr stop
      (expect stop .eq (expect stop .identifier ts).rest).rest).reports = []) :
    ReadsStmt stop (t :: ts) ((expect stop .identifier ts).bind fun ident ts =>
      (expect stop .eq ts).bind fun eq ts =>
        (parseExpr stop ts).bind fun init ts => .pure (.decl t ident eq init) ts) := by
  obtain ⟨hidentKind, hidentTokens⟩ := expect_clean (by decide) hident
  obtain ⟨heqKind, heqTokens⟩ := expect_clean (by decide) heq
  have he := parseExpr_canonical hinit
  refine ⟨⟨ht, hidentKind, heqKind, he.canonical⟩, fun _ => he.next, nofun, ?_⟩
  simp [he.tokens, heqTokens, hidentTokens]

mutual

theorem parseStmt_canonical {ts : List Token} (h : (parseStmt stop ts).reports = []) :
    ReadsStmt stop ts (parseStmt stop ts) := by
  match ts with
  | [] =>
    rw [parseStmt_nil, parseExpr_nil, parseBinary_nil, parsePrimary_nil] at h
    cases h
  | t :: ts =>
    have hcondLen := (parseExpr_suffix stop ts).length_le
    have hparse := parseStmt_cons stop t ts
    split at hparse
    all_goals
      rename_i ht
      rw [hparse] at h ⊢
      simp only [Parsed.bind_reports, Parsed.pure_reports, List.append_eq_nil_iff, and_true] at h
    · -- a block
      obtain ⟨hbody, hclosing⟩ := h
      obtain ⟨hcanonical, hbodyTokens⟩ := parseBody_canonical hbody
      obtain ⟨hkind, hrest⟩ := expect_clean (by decide) hclosing
      refine ⟨⟨ht, hcanonical, hkind⟩, nofun, nofun, ?_⟩
      simp [hrest, hbodyTokens]
    · exact parseDecl_canonical (.inl ht) h.1 h.2.1 h.2.2
    · exact parseDecl_canonical (.inr ht) h.1 h.2.1 h.2.2
    · -- an `if`, whose `else` is read after it
      obtain ⟨hcond, hyes, helse⟩ := h
      have hc := parseExpr_canonical hcond
      have hs := parseStmt_canonical hyes
      have hyesLen := (parseStmt_suffix stop (parseExpr stop ts).rest).length_le
      have hif := parseElse_canonical ht hc.canonical hs (hs.startsSigned_eq hc.next) helse
      rw [hc.tokens] at hif
      rwa [Parsed.bind_of_clean hcond, Parsed.bind_of_clean hyes]
    · -- a `while`
      obtain ⟨hcond, hbody⟩ := h
      have hc := parseExpr_canonical hcond
      have hs := parseStmt_canonical hbody
      refine ⟨⟨ht, hc.canonical, hs.startsSigned_eq hc.next, hs.canonical⟩, hs.expr, hs.open_, ?_⟩
      simp [hs.tokens, hc.tokens]
    · -- a `for`
      obtain ⟨hident, heq, hlower, hsep, hupper, hbody⟩ := h
      obtain ⟨hidentKind, hidentTokens⟩ := expect_clean (by decide) hident
      obtain ⟨heqKind, heqTokens⟩ := expect_clean (by decide) heq
      obtain ⟨hsepKind, hsepTokens⟩ := expect_clean (by decide) hsep
      have hlo := parseExpr_canonical hlower
      have hhi := parseExpr_canonical hupper
      have hlen := ((parseExpr_suffix stop _).trans ((expect_suffix stop .toKeyword _).trans
        ((parseExpr_suffix stop _).trans ((expect_suffix stop .eq _).trans
          (expect_suffix stop .identifier ts))))).length_le
      have hs := parseStmt_canonical hbody
      refine ⟨⟨ht, hidentKind, heqKind, hlo.canonical, hsepKind, hhi.canonical,
        hs.startsSigned_eq hhi.next, hs.canonical⟩, hs.expr, hs.open_, ?_⟩
      simp [hs.tokens, hhi.tokens, hsepTokens, hlo.tokens, heqTokens, hidentTokens]
    · have he := parseExpr_canonical h
      exact ⟨he.canonical, fun _ => he.next, nofun, by simpa using he.tokens⟩
termination_by 2 * ts.length

theorem parseElse_canonical {keyword : Token} {cond : Expr} {before : List Token}
    {yes : Parsed Stmt} (hkeyword : keyword.kind = .ifKeyword) (hcond : cond.Canonical)
    (hyes : ReadsStmt stop before yes) (hsign : yes.value.startsSigned = false)
    (h : (parseElse stop keyword cond yes.value yes.rest).reports = []) :
    ReadsStmt stop (keyword :: (cond.tokens ++ before))
      (parseElse stop keyword cond yes.value yes.rest) := by
  by_cases hnext : (current stop yes.rest).kind = .elseKeyword
  · match hrest : yes.rest with
    | [] =>
      rw [hrest] at hnext
      cases hnext
    | t :: ts =>
      have hparse := parseElse_cons stop keyword cond yes.value t ts
      rw [hrest] at h hnext
      rw [current_cons] at hnext
      rw [if_pos hnext] at hparse
      rw [hparse] at h ⊢
      have hlen : ts.length < yes.rest.length := by simp [hrest]
      have hno := parseStmt_canonical (List.append_eq_nil_iff.mp h).1
      -- An open `if` would have taken the `else` itself.
      have hopen : yes.value.endsOpen = false :=
        Bool.eq_false_iff.mpr fun hopen => hyes.open_ hopen (by rw [hrest]; exact hnext)
      refine ⟨⟨hkeyword, hcond, hsign, hyes.canonical, hopen, hnext, hno.canonical⟩, hno.expr,
        hno.open_, ?_⟩
      simp [hno.tokens, ← hrest, hyes.tokens]
  · rw [parseElse_stop hnext]
    exact ⟨⟨hkeyword, hcond, hsign, hyes.canonical⟩, hyes.expr, fun _ => hnext,
      by simp [hyes.tokens]⟩
termination_by 2 * yes.rest.length

theorem parseBody_canonical {ts : List Token} (h : (parseBody stop ts).reports = []) :
    Stmt.BodyCanonical (parseBody stop ts).value ∧
      (parseBody stop ts).value.flatMap Stmt.tokens ++ (parseBody stop ts).rest = ts := by
  match ts with
  | [] =>
    rw [parseBody_nil]
    exact ⟨trivial, rfl⟩
  | t :: ts =>
    have hparse := parseBody_cons stop t ts
    split at hparse
    · rw [hparse]
      exact ⟨trivial, rfl⟩
    · rw [hparse] at h ⊢
      obtain ⟨hstmt, hbody⟩ := List.append_eq_nil_iff.mp h
      have hs := parseStmt_canonical hstmt
      have hlen : (parseStmt stop (t :: ts)).rest.length < ts.length + 1 := by
        have hlt := length_skipStuck_lt (parseStmt_suffix stop (t :: ts))
        rwa [hs.skipStuck_eq] at hlt
      simp only [hs.skipStuck_eq, Parsed.map_reports] at hbody
      obtain ⟨hcanonical, htokens⟩ := parseBody_canonical hbody
      rw [Parsed.bind_of_clean hstmt, hs.skipStuck_eq]
      -- After an expression no operator stands, so the next statement starts with no sign.
      have hsign (hexpr : (parseStmt stop (t :: ts)).value.endsInExpr = true) :=
        hcanonical.startsSigned_eq htokens (hs.expr hexpr)
      refine ⟨⟨hs.canonical, hsign, hcanonical⟩, ?_⟩
      simp [htokens, hs.tokens]
termination_by 2 * ts.length + 1

end

/-! ## Units -/

theorem parseUnit_clean {ts : List Token} (hts : ∀ t ∈ ts, t.kind ≠ .eof)
    (h : (parseUnit stop ts).reports = []) :
    (parseStmt stop ts).reports = [] ∧ (parseStmt stop ts).rest = [] ∧
      parseUnit stop ts = ⟨⟨(parseStmt stop ts).value, .eofAt stop⟩, [], []⟩ := by
  obtain ⟨hstmt, heof⟩ := List.append_eq_nil_iff.mp h
  simp only [Parsed.bind_reports, Parsed.pure_reports, List.append_nil] at heof
  have hrest : (parseStmt stop ts).rest = [] := by
    cases hrest : (parseStmt stop ts).rest with
    | nil => rfl
    | cons t rest =>
      have ht : t ∈ (parseStmt stop ts).rest := by simp [hrest]
      have hne : (current stop (t :: rest)).kind ≠ .eof :=
        hts t ((parseStmt_suffix stop ts).subset ht)
      rw [hrest, expect_of_ne hne] at heof
      cases heof
  refine ⟨hstmt, hrest, ?_⟩
  rw [parseUnit, Parsed.bind_of_clean hstmt, hrest]
  rfl

theorem parseUnit_reads {ts : List Token} (hts : ∀ t ∈ ts, t.kind ≠ .eof)
    (h : (parseUnit stop ts).reports = []) :
    (parseUnit stop ts).value.stmt.Canonical ∧ (parseUnit stop ts).value.stmt.tokens = ts := by
  obtain ⟨hstmt, hrest, hunit⟩ := parseUnit_clean hts h
  have hs := parseStmt_canonical hstmt
  have htokens := hs.tokens
  rw [hrest, List.append_nil] at htokens
  rw [hunit]
  exact ⟨hs.canonical, htokens⟩

/-- Reading gives back exactly the canonical units from their leaves: each is read from its leaves
without a report, and without a report nothing else is read. -/
theorem canonical_units_parsed :
    (∀ u : SourceUnit, u.Canonical → parseUnit u.eof.span.pos u.stmt.tokens = ⟨u, [], []⟩) ∧
    ∀ (stop : Nat) (ts : List Token), (∀ t ∈ ts, t.isMissing = false ∧ t.kind ≠ .eof) →
      (parseUnit stop ts).reports = [] →
      (parseUnit stop ts).value.Canonical ∧ (parseUnit stop ts).rest = [] ∧
        (parseUnit stop ts).value.tokens = ts ++ [.eofAt stop] := by
  refine ⟨fun u hu => parseUnit_tokens hu, fun stop ts hts h => ?_⟩
  obtain ⟨hcanonical, htokens⟩ := parseUnit_reads (fun t ht => (hts t ht).2) h
  obtain ⟨_, _, hunit⟩ := parseUnit_clean (fun t ht => (hts t ht).2) h
  rw [hunit] at hcanonical htokens ⊢
  refine ⟨⟨fun t ht => ?_, hcanonical, rfl⟩, rfl, ?_⟩
  · rw [SourceUnit.tokens_mk, htokens] at ht
    rcases List.mem_append.mp ht with ht | ht
    · exact (hts t ht).1
    · rw [List.mem_singleton.mp ht]
      rfl
  · rw [SourceUnit.tokens_mk, htokens]

end

/-- A sign after a block, a loop before `else`, and operators of two precedences. -/
theorem signs_and_branches_reread :
    let u := (Fragment.parse "\x7b if a while b c = 1 - 2 - 3 * 4 else \x7b \x7d - 5 \x7d").unit
    u.Canonical ∧ u.tokens.length = 21 ∧
      parseUnit u.eof.span.pos u.stmt.tokens = ⟨u, [], []⟩ := by
  intro u
  let text := "\x7b if a while b c = 1 - 2 - 3 * 4 else \x7b \x7d - 5 \x7d"
  obtain ⟨hcanonical, _, htokens⟩ := canonical_units_parsed.2 (Token.stopOf text)
    (Token.significantTokens text) (by decide +kernel) (by decide +kernel)
  have hlength : u.tokens.length = 21 := by
    rw [show u.tokens = _ from htokens]
    decide +kernel
  exact ⟨hcanonical, hlength, canonical_units_parsed.1 u hcanonical⟩

end Scriptlet.Syntax
