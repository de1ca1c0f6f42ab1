import Scriptlet.Proofs.Syntax.Cursor

/-!
# Fuel that suffices

With four times as much fuel as there are tokens left, and a little more, a walk neither runs out of
fuel nor looks out of range, and reads what the grammar says. The fuel goes down as the measure of
the grammar's own recursion does.
-/

namespace Scriptlet.Syntax

open Run (bind_of_ok)

namespace Cursor

section
variable {text : String} {n : Nat}

/-! ## Expressions -/

-- Calls that take no token go from expressions to operands, to primary expressions and to the
-- loop over operators, so the fuel for a token is four.
mutual

theorem expr_reads : ∀ (fuel : Nat) {p : Parser} {n : Nat}, p.Over text n → 4 * n + 4 ≤ fuel →
    Reads (expr (tokensOf text) fuel) p (parseExpr p.stop p.pending)
  | 0, _, _, _, hfuel => by omega
  | fuel + 1, p, n, hp, hfuel => by
    have hbinary := binary_reads fuel 0 hp (by omega)
    unfold expr
    refine .peek hp 0 (.peek hp 1 ?_)
    match hts : p.pending with
    | [] =>
      rw [hts] at hbinary
      rw [parseExpr_nil, Parser.peek_zero, hts]
      exact hbinary
    | [t] =>
      rw [hts] at hbinary
      have hlast : p.peek 1 = .eofAt p.stop := by simp [Parser.peek, hts]
      rw [parseExpr_singleton, hlast, if_neg (fun h => by cases h.2)]
      exact hbinary
    | ident :: eq :: ts =>
      have hident := hp.take hts
      have hafter : (p.accept ⟨ident, eq :: ts, []⟩).2.pending = eq :: ts := rfl
      have heq := hident.take hafter
      have hlen := hp.length_lt hts
      have hpeek : p.peek 0 = ident ∧ p.peek 1 = eq := by simp [Parser.peek, hts]
      rw [parseExpr_cons_cons, hpeek.1, hpeek.2]
      by_cases h : ident.kind = .identifier ∧ eq.kind = .eq
      · rw [if_pos h, if_pos h]
        have hrhs := expr_reads fuel heq (by simp at hlen; omega)
        refine (Reads.next hp hts).following ((Reads.next hident hafter).following ?_)
        exact hrhs.bind (.pure _ _)
      · rw [if_neg h, if_neg h]
        rwa [hts] at hbinary

theorem binary_reads : ∀ (fuel parent : Nat) {p : Parser} {n : Nat}, p.Over text n →
    4 * n + 3 ≤ fuel →
    Reads (binary (tokensOf text) fuel parent) p (parseBinary p.stop parent p.pending)
  | 0, _, _, _, _, hfuel => by omega
  | fuel + 1, parent, p, n, hp, hfuel => by
    have hprimary := primary_reads fuel hp (by omega)
    have hinfix := operators_reads fuel parent (parsePrimary p.stop p.pending).value
      (hp.accept hprimary.suffix) (by omega)
    unfold binary
    refine .peek hp 0 ?_
    rw [Parser.peek_zero]
    cases hts : p.pending with
    | nil =>
      rw [hts] at hprimary hinfix
      rw [parseBinary_nil]
      exact hprimary.bind hinfix
    | cons op ts =>
      rw [parseBinary_cons, current_cons]
      by_cases h : op.kind.unaryPrecedence ≠ 0 ∧ parent ≤ op.kind.unaryPrecedence
      · rw [if_pos h, if_pos h]
        have hlen := hp.length_lt hts
        have hop := hp.take hts
        have hoperand := binary_reads fuel op.kind.unaryPrecedence hop (by omega)
        refine (Reads.next hp hts).following (hoperand.bind ?_)
        exact operators_reads fuel parent _ (hop.accept hoperand.suffix) (by omega)
      · rw [if_neg h, if_neg h]
        rw [hts] at hprimary hinfix
        exact hprimary.bind hinfix

theorem operators_reads : ∀ (fuel parent : Nat) (lhs : Expr) {p : Parser} {n : Nat},
    p.Over text n → 4 * n + 1 ≤ fuel →
    Reads (operators (tokensOf text) fuel parent lhs) p (parseInfix p.stop parent lhs p.pending)
  | 0, _, _, _, _, _, hfuel => by omega
  | fuel + 1, parent, lhs, p, n, hp, hfuel => by
    have hdone := Reads.pure lhs p
    unfold operators
    refine .peek hp 0 ?_
    rw [Parser.peek_zero]
    cases hts : p.pending with
    | nil =>
      rw [hts] at hdone
      rw [parseInfix_nil]
      exact hdone
    | cons op ts =>
      rw [parseInfix_cons, current_cons]
      by_cases h : parent < op.kind.binaryPrecedence
      · rw [if_pos h, if_neg (by omega)]
        have hlen := hp.length_lt hts
        have hop := hp.take hts
        have hrhs := binary_reads fuel op.kind.binaryPrecedence hop (by omega)
        refine (Reads.next hp hts).following (hrhs.bind ?_)
        exact operators_reads fuel parent _ (hop.accept hrhs.suffix) (by omega)
      · rw [if_neg h, if_pos (by omega)]
        rwa [hts] at hdone

theorem primary_reads : ∀ (fuel : Nat) {p : Parser} {n : Nat}, p.Over text n →
    4 * n + 2 ≤ fuel →
    Reads (primary (tokensOf text) fuel) p (parsePrimary p.stop p.pending)
  | 0, _, _, _, hfuel => by omega
  | fuel + 1, p, n, hp, hfuel => by
    have hident := Reads.expect hp .identifier (by decide)
    unfold primary
    refine .peek hp 0 ?_
    rw [Parser.peek_zero]
    cases hts : p.pending with
    | nil =>
      rw [hts] at hident
      rw [parsePrimary_nil]
      exact hident.bind (.pure _ _)
    | cons t ts =>
      rw [hts] at hident
      rw [parsePrimary_cons, current_cons]
      have hlen := hp.length_lt hts
      have ht := hp.take hts
      have htaken := Reads.next hp hts
      cases t.kind
      case openParen =>
        have hinner := expr_reads fuel ht (by omega)
        have hclosing := Reads.expect (ht.accept hinner.suffix) .closeParen (by decide)
        exact htaken.following (hinner.bind (hclosing.bind (.pure _ _)))
      case trueKeyword | falseKeyword | number => exact htaken.following (.pure _ _)
      all_goals exact hident.bind (.pure _ _)

end

/-! ## Rounds of a block -/

def parseRound (stop : Nat) (t : Token) (ts : List Token) : Parsed Stmt :=
  let s := parseStmt stop (t :: ts)
  ⟨s.value, skipStuck t ts s.rest, s.reports⟩

theorem parseRound_suffix (stop : Nat) (t : Token) (ts : List Token) :
    (parseRound stop t ts).rest <:+ t :: ts :=
  skipStuck_suffix (parseStmt_suffix stop (t :: ts))

theorem length_parseRound_lt (stop : Nat) (t : Token) (ts : List Token) :
    (parseRound stop t ts).rest.length < (t :: ts).length :=
  length_skipStuck_lt (parseStmt_suffix stop (t :: ts))

theorem parseBody_of_ne {stop : Nat} {t : Token} (h : t.kind ≠ .closeBrace) (ts : List Token) :
    parseBody stop (t :: ts) = (parseRound stop t ts).bind fun s rest =>
      (parseBody stop rest).bind fun ss rest => .pure (s :: ss) rest := by
  rw [parseBody_cons, if_neg h]
  simp [parseRound, Parsed.bind, Parsed.map, Parsed.pure]

theorem Reads.round {w : Walk Stmt} {p : Parser} {t : Token} {ts : List Token} (hp : p.Over text n)
    (hts : p.pending = t :: ts) (h : Reads w p (parseStmt p.stop (t :: ts))) :
    Reads (Cursor.round (tokensOf text) w) p (parseRound p.stop t ts) := by
  refine ⟨hts ▸ parseRound_suffix p.stop t ts, ?_⟩
  have hget : ∀ c : Cursor, (get : Walk Cursor) c = .ok c c := fun _ => rfl
  unfold Cursor.round
  rw [bind_of_ok (hget _), bind_of_ok h.run, bind_of_ok (hget _)]
  by_cases hstuck : (parseStmt p.stop (t :: ts)).rest = t :: ts
  · have hskip : skipStuck t ts (t :: ts) = ts := if_pos (beq_self_eq_true _)
    have hsame :
        (p.accept (parseStmt p.stop (t :: ts))).2.cursor.position = p.cursor.position := by
      simp [Parser.accept, Parser.cursor, hts, hstuck]
    rw [if_pos hsame, bind_of_ok (next_eq (hp.accept h.suffix))]
    simp only [Parser.next, Parser.accept, Parser.cursor, parseRound, hts, hstuck, hskip,
      List.length_cons, Nat.sub_self, Nat.add_zero, Nat.add_sub_cancel_left]
    rfl
  · have hskip : skipStuck t ts (parseStmt p.stop (t :: ts)).rest =
        (parseStmt p.stop (t :: ts)).rest := if_neg fun heq => hstuck (beq_iff_eq.mp heq)
    have hlt : (parseStmt p.stop (t :: ts)).rest.length < (t :: ts).length := by
      have hlt := length_parseRound_lt p.stop t ts
      rwa [parseRound, hskip] at hlt
    have hmoved :
        (p.accept (parseStmt p.stop (t :: ts))).2.cursor.position ≠ p.cursor.position := by
      simp only [Parser.accept, Parser.cursor, hts]
      omega
    rw [if_neg hmoved, parseRound, hskip]
    rfl

/-! ## Statements -/

-- A block that starts with its brace has a token less to read than the statement that it is, and
-- that token's fuel pays for the block and the first round.
mutual

theorem stmt_reads : ∀ (fuel : Nat) {p : Parser} {n : Nat}, p.Over text n → 4 * n + 5 ≤ fuel →
    Reads (stmt (tokensOf text) fuel) p (parseStmt p.stop p.pending)
  | 0, _, _, _, hfuel => by omega
  | fuel + 1, p, n, hp, hfuel => by
    have hexpr := expr_reads fuel hp (by omega)
    unfold stmt
    refine .peek hp 0 ?_
    rw [Parser.peek_zero]
    cases hts : p.pending with
    | nil =>
      rw [hts] at hexpr
      rw [parseStmt_nil]
      exact hexpr.bind (.pure _ _)
    | cons t ts =>
      rw [hts] at hexpr
      rw [parseStmt_cons, current_cons]
      have hlen := hp.length_lt hts
      have ht := hp.take hts
      have hident := Reads.expect ht .identifier (by decide)
      have hi := ht.accept hident.suffix
      have heq := Reads.expect hi .eq (by decide)
      have he := hi.accept heq.suffix
      have hinit := expr_reads fuel he (by omega)
      have hcond := expr_reads fuel ht (by omega)
      have hc := ht.accept hcond.suffix
      have hbranch := stmt_reads fuel hc (by omega)
      cases hk : t.kind
      case openBrace =>
        have hopening : Syntax.expect p.stop .openBrace (t :: ts) = ⟨t, ts, []⟩ :=
          expect_of_kind hk ts
        have hblock := block_reads fuel (m := ts.length) hp (by rw [hts, hopening]) (by omega)
        rwa [hts, parseBlock, hopening, Parsed.mk_bind] at hblock
      case letKeyword | varKeyword =>
        have htaken := Reads.expect_of_kind hp hts hk (by decide)
        exact htaken.following (hident.bind (heq.bind (hinit.bind (.pure _ _))))
      case ifKeyword =>
        have htaken := Reads.expect_of_kind hp hts hk (by decide)
        refine htaken.following (hcond.bind (hbranch.bind ?_))
        exact otherwise_reads fuel t _ _ (hc.accept hbranch.suffix) (by omega)
      case whileKeyword =>
        have htaken := Reads.expect_of_kind hp hts hk (by decide)
        exact htaken.following (hcond.bind (hbranch.bind (.pure _ _)))
      case forKeyword =>
        have htaken := Reads.expect_of_kind hp hts hk (by decide)
        have hl := he.accept hinit.suffix
        have hsep := Reads.expect hl .toKeyword (by decide)
        have hs := hl.accept hsep.suffix
        have hupper := expr_reads fuel hs (by omega)
        have hbody := stmt_reads fuel (hs.accept hupper.suffix) (by omega)
        refine htaken.following (hident.bind (heq.bind (hinit.bind (hsep.bind (hupper.bind ?_)))))
        exact hbody.bind (.pure _ _)
      all_goals exact hexpr.bind (.pure _ _)

theorem otherwise_reads : ∀ (fuel : Nat) (keyword : Token) (cond : Expr) (yes : Stmt) {p : Parser}
    {n : Nat}, p.Over text n → 4 * n + 2 ≤ fuel →
    Reads (otherwise (tokensOf text) fuel keyword cond yes) p
      (parseElse p.stop keyword cond yes p.pending)
  | 0, _, _, _, _, _, _, hfuel => by omega
  | fuel + 1, keyword, cond, yes, p, n, hp, hfuel => by
    have hdone := Reads.pure (Stmt.ifThen keyword cond yes) p
    unfold otherwise
    refine .peek hp 0 ?_
    rw [Parser.peek_zero]
    cases hts : p.pending with
    | nil =>
      rw [hts] at hdone
      rw [parseElse_nil]
      exact hdone
    | cons t ts =>
      rw [hts] at hdone
      rw [parseElse_cons, current_cons]
      by_cases h : t.kind = .elseKeyword
      · rw [if_pos h, if_pos h]
        have hlen := hp.length_lt hts
        have hno := stmt_reads fuel (hp.take hts) (by omega)
        exact (Reads.next hp hts).following (hno.bind (.pure _ _))
      · rw [if_neg h, if_neg h]
        exact hdone

theorem rounds_reads : ∀ (fuel : Nat) {p : Parser} {n : Nat}, p.Over text n → 4 * n + 6 ≤ fuel →
    Reads (rounds (tokensOf text) fuel) p (parseBody p.stop p.pending)
  | 0, _, _, _, hfuel => by omega
  | fuel + 1, p, n, hp, hfuel => by
    have hdone := Reads.pure ([] : List Stmt) p
    have hstmt := stmt_reads fuel hp (by omega)
    unfold rounds
    refine .peek hp 0 ?_
    rw [Parser.peek_zero]
    cases hts : p.pending with
    | nil =>
      rw [hts] at hdone
      rw [parseBody_nil]
      exact hdone
    | cons t ts =>
      rw [hts] at hdone hstmt
      rw [current_cons]
      have hne := hp.kind_ne hts
      by_cases h : t.kind = .closeBrace
      · rw [if_pos (.inr h), parseBody_cons, if_pos h]
        exact hdone
      · rw [if_neg (by simp [hne, h]), parseBody_of_ne h]
        have hlen := hp.length_lt hts
        have hround := Reads.round hp hts hstmt
        have hshort := Nat.le_of_lt_succ (length_parseRound_lt p.stop t ts)
        have hr := (hp.accept hround.suffix).within hshort
        exact hround.bind ((rounds_reads fuel hr (by omega)).bind (.pure _ _))

theorem block_reads : ∀ (fuel : Nat) {p : Parser} {n m : Nat}, p.Over text n →
    (Syntax.expect p.stop .openBrace p.pending).rest.length ≤ m → 4 * m + 7 ≤ fuel →
    Reads (block (tokensOf text) fuel) p (parseBlock p.stop p.pending)
  | 0, _, _, _, _, _, hfuel => by omega
  | fuel + 1, p, n, m, hp, hm, hfuel => by
    have hopening := Reads.expect hp .openBrace (by decide)
    have ho := hp.accept hopening.suffix
    have hbody := rounds_reads fuel (ho.within hm) (by omega)
    have hclosing := Reads.expect (ho.accept hbody.suffix) .closeBrace (by decide)
    exact hopening.bind (hbody.bind (hclosing.bind (.pure _ _)))

end

end

end Cursor

end Scriptlet.Syntax
