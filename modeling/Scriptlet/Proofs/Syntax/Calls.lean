import Scriptlet.Proofs.Syntax.Fuel

/-!
# Calls in any order

A parser can be asked for tokens and phrases in any order, also after its text has ended. Every
call comes to an end and only moves forward, and a call for a phrase takes a token or reports one.
-/

namespace Scriptlet.Syntax

open Run (bind_of_ok)
open Token (Kind significantTokens)

/-! ## Every tree has a leaf -/

section
variable {stop : Nat} {ts rest : List Token} {es : List Entry} {ds : List Diagnostic}

theorem Takes.suffix (h : Takes stop ts es rest ds) : rest <:+ ts := by
  induction h with
  | nil ts => exact List.suffix_refl ts
  | leaf _ ih => exact ih.trans (List.suffix_cons _ _)
  | dropped _ ih => exact ih.trans (List.suffix_cons _ _)
  | missing _ _ ih => exact ih

/-- The first entry is a token that was taken or a placeholder that was reported. -/
theorem Takes.moves (h : Takes stop ts es rest ds) (hes : es ≠ []) :
    rest.length < ts.length ∨ ∃ t kind, unexpected t kind ∈ ds := by
  cases h with
  | nil => exact absurd rfl hes
  | leaf h => exact .inl (Nat.lt_succ_of_le h.suffix.length_le)
  | dropped h => exact .inl (Nat.lt_succ_of_le h.suffix.length_le)
  | missing => exact .inr ⟨_, _, List.mem_cons_self⟩

theorem Expr.tokens_ne_nil (e : Expr) : e.tokens ≠ [] := by
  cases e <;> simp

theorem Stmt.Ledger.ne_nil {s : Stmt} (h : s.Ledger stop es) : es ≠ [] := by
  cases h with
  | expr => simp [leaves, Expr.tokens_ne_nil]
  | _ => simp

end

theorem parseExpr_moves (stop : Nat) (ts : List Token) :
    (parseExpr stop ts).rest.length < ts.length ∨
      ∃ t kind, unexpected t kind ∈ (parseExpr stop ts).reports :=
  (parseExpr_takes stop ts).moves (by simp [leaves, Expr.tokens_ne_nil])

theorem parseStmt_moves (stop : Nat) (ts : List Token) :
    (parseStmt stop ts).rest.length < ts.length ∨
      ∃ t kind, unexpected t kind ∈ (parseStmt stop ts).reports := by
  obtain ⟨es, hledger, htakes⟩ := parseStmt_takes stop ts
  exact htakes.moves hledger.ne_nil

/-! ## Calls -/

inductive Call : Type → Type
  | peek (i : Nat) : Call Token
  | next : Call Token
  | expect (kind : Kind) : Call Token
  | expr : Call Expr
  | binary (parent : Nat) : Call Expr
  | stmt : Call Stmt
  | block : Call Stmt
  | unit : Call SourceUnit

section
variable {text : String} {n : Nat} {p q : Parser} {α : Type}

def Parser.call (p : Parser) : Call α → α × Parser
  | .peek i => (p.peek i, p)
  | .next => p.next
  | .expect kind => p.expect kind
  | .expr => p.expr
  | .binary parent => p.binary parent
  | .stmt => p.stmt
  | .block => p.block
  | .unit => p.unit

def Cursor.call (tokens : List Token) (fuel : Nat) : Call α → Cursor.Walk α
  | .peek i => Cursor.peek tokens i
  | .next => Cursor.next tokens
  | .expect kind => Cursor.expect tokens kind
  | .expr => Cursor.expr tokens fuel
  | .binary parent => Cursor.binary tokens fuel parent
  | .stmt => Cursor.stmt tokens fuel
  | .block => Cursor.block tokens fuel
  | .unit => Cursor.unit tokens fuel

inductive Parser.Reached (text : String) : Parser → Prop
  | start : Reached text (.ofText text)
  | call {p : Parser} {α : Type} (h : Reached text p) (c : Call α) : Reached text (p.call c).2

def Cursor.remaining (text : String) (c : Cursor) : Nat :=
  (significantTokens text).length - c.position

/-! ### What a call keeps -/

theorem parseBlock_suffix (stop : Nat) (ts : List Token) : (parseBlock stop ts).rest <:+ ts :=
  (expect_suffix stop .closeBrace _).trans
    ((parseBody_suffix stop _).trans (expect_suffix stop .openBrace ts))

namespace Parser

theorem Over.expect (h : p.Over text n) (kind : Kind) : (p.expect kind).2.Over text n := by
  unfold Parser.expect
  by_cases hk : (p.peek 0).kind = kind
  · simpa only [if_pos hk] using h.next
  · simpa only [if_neg hk] using ⟨h.pending, h.stop, h.length_le⟩

theorem Over.call (h : p.Over text n) (c : Call α) : (p.call c).2.Over text n := by
  cases c with
  | peek i => exact h
  | next => exact h.next
  | expect kind => exact h.expect kind
  | expr => exact h.accept (parseExpr_suffix _ _)
  | binary parent => exact h.accept (parseBinary_suffix _ _ _)
  | stmt => exact h.accept (parseStmt_suffix _ _)
  | block => exact h.accept (parseBlock_suffix _ _)
  | unit => exact (h.accept (parseStmt_suffix _ _)).expect .eof

theorem Reached.over (h : p.Reached text) : p.Over text (p.cursor.remaining text) := by
  induction h with
  | start => exact ⟨rfl, rfl, Nat.le_refl _⟩
  | call _ c ih =>
    have hcall := ih.call c
    refine hcall.within ?_
    rw [hcall.pending, List.length_drop]
    exact Nat.le_refl _

structure Onward (p q : Parser) : Prop where
  position : p.position ≤ q.position
  diagnostics : p.diagnostics <+: q.diagnostics

theorem Onward.trans {r : Parser} (h : p.Onward q) (h' : q.Onward r) : p.Onward r :=
  ⟨Nat.le_trans h.position h'.position, h.diagnostics.trans h'.diagnostics⟩

theorem onward_accept (p : Parser) (r : Parsed α) : p.Onward (p.accept r).2 :=
  ⟨Nat.le_add_right _ _, List.prefix_append _ _⟩

theorem onward_next (p : Parser) : p.Onward p.next.2 :=
  ⟨Nat.le_succ _, List.prefix_refl _⟩

theorem onward_expect (p : Parser) (kind : Kind) : p.Onward (p.expect kind).2 := by
  unfold Parser.expect
  by_cases hk : (p.peek 0).kind = kind
  · simpa only [if_pos hk] using p.onward_next
  · simpa only [if_neg hk] using ⟨Nat.le_refl _, List.prefix_append _ _⟩

theorem onward_call (p : Parser) (c : Call α) : p.Onward (p.call c).2 := by
  cases c with
  | peek i => exact ⟨Nat.le_refl _, List.prefix_refl _⟩
  | next => exact p.onward_next
  | expect kind => exact p.onward_expect kind
  | unit => exact (p.onward_accept _).trans (onward_expect _ .eof)
  | _ => exact p.onward_accept _

def Moves (p q : Parser) : Prop :=
  p.position < q.position ∨
    ∃ t kind, unexpected t kind ∈ q.diagnostics.drop p.diagnostics.length

theorem moves_accept {r : Parsed α}
    (h : r.rest.length < p.pending.length ∨ ∃ t kind, unexpected t kind ∈ r.reports) :
    p.Moves (p.accept r).2 := by
  rcases h with h | ⟨t, kind, hmem⟩
  · left
    simp only [Parser.accept]
    omega
  · right
    refine ⟨t, kind, ?_⟩
    simpa only [Parser.accept, List.drop_left] using hmem

end Parser

/-! ### Cursors end where parsers do -/

theorem Cursor.call_eq {fuel : Nat} (h : p.Over text n) (hfuel : 4 * n + 7 ≤ fuel) (c : Call α) :
    Cursor.call (tokensOf text) fuel c p.cursor = .ok (p.call c).1 (p.call c).2.cursor := by
  cases c with
  | peek i => exact peek_eq h i
  | next => exact next_eq h
  | expect kind => exact expect_eq h kind
  | expr => exact (expr_reads fuel h (by omega)).run
  | binary parent => exact (binary_reads fuel parent h (by omega)).run
  | stmt => exact (stmt_reads fuel h (by omega)).run
  | block =>
    have hopening := (expect_suffix p.stop .openBrace p.pending).length_le
    exact (block_reads fuel h (Nat.le_trans hopening h.length_le) hfuel).run
  | unit =>
    have hstmt := stmt_reads fuel h (by omega)
    show Cursor.unit (tokensOf text) fuel p.cursor = _
    unfold Cursor.unit
    rw [bind_of_ok hstmt.run, bind_of_ok (expect_eq (h.accept hstmt.suffix) .eof)]
    rfl

theorem Cursor.kind_ne_of_lt {i : Nat} (hi : i < (significantTokens text).length) :
    ∃ t, (tokensOf text)[i]? = some t ∧ t.kind ≠ .eof := by
  refine ⟨(significantTokens text)[i], ?_, ?_⟩
  · rw [tokensOf, List.getElem?_append_left hi, List.getElem?_eq_getElem hi]
  · exact Token.tokens_kind_ne (List.mem_of_mem_filter (List.getElem_mem hi))

/-- A round that starts before the end token takes tokens, and stays before the end token. -/
theorem Cursor.round_moves (c : Cursor) {t : Token} {fuel : Nat}
    (ht : (tokensOf text)[c.index (tokensOf text) 0]? = some t) (hne : t.kind ≠ .eof)
    (hfuel : 4 * c.remaining text + 5 ≤ fuel) :
    ∃ s c', Cursor.round (tokensOf text) (Cursor.stmt (tokensOf text) fuel) c = .ok s c' ∧
      c.position < c'.position ∧ c'.position ≤ (significantTokens text).length := by
  -- the parser that stands where the cursor does
  let p : Parser := ⟨(significantTokens text).drop c.position, Token.stopOf text,
    c.position, c.diagnostics⟩
  have hp : p.Over text (c.remaining text) := ⟨rfl, rfl, by simp [p, Cursor.remaining]⟩
  have hpeek : t = current p.stop p.pending := by
    rw [← Parser.peek_zero]
    exact Option.some.inj (ht.symm.trans (Cursor.getElem?_index hp 0))
  cases hts : p.pending with
  | nil =>
    rw [hpeek, hts] at hne
    exact absurd rfl hne
  | cons u us =>
    have hstmt := Cursor.stmt_reads fuel hp hfuel
    rw [hts] at hstmt
    have hround := Cursor.Reads.round hp hts hstmt
    have hlt := Cursor.length_parseRound_lt p.stop u us
    have hlen : (u :: us).length = (significantTokens text).length - c.position := by
      rw [← hts, List.length_drop]
    refine ⟨_, _, hround.run, ?_⟩
    simp only [Parser.cursor, Parser.accept, hts]
    show c.position < c.position + _ ∧ c.position + _ ≤ _
    omega

end

/-- Whatever calls came before, every call ends with fuel linear in the tokens that remain, without
a look-up out of range, in the answer and the state of the parser. It never goes back and only adds
reports, and an expression or a statement takes a token or reports one. Wherever a block has not
come to the end token, its next round takes tokens, none of them the end token. -/
theorem parsing_always_ends (text : String) (p : Parser) (h : p.Reached text) :
    (∀ (α : Type) (c : Call α),
      (∀ fuel, 4 * p.cursor.remaining text + 7 ≤ fuel →
        Cursor.call (tokensOf text) fuel c p.cursor = .ok (p.call c).1 (p.call c).2.cursor) ∧
      p.position ≤ (p.call c).2.position ∧ p.diagnostics <+: (p.call c).2.diagnostics) ∧
    (∀ i, p.cursor.index (tokensOf text) i < (tokensOf text).length) ∧
    p.Moves p.expr.2 ∧ p.Moves p.stmt.2 ∧
    ∀ (c : Cursor) (t : Token) (fuel : Nat),
      (tokensOf text)[c.index (tokensOf text) 0]? = some t → t.kind ≠ .eof →
      4 * c.remaining text + 5 ≤ fuel →
      ∃ s c', Cursor.round (tokensOf text) (Cursor.stmt (tokensOf text) fuel) c = .ok s c' ∧
        c.position < c'.position ∧
        ∀ i, c.position ≤ i → i < c'.position →
          ∃ u, (tokensOf text)[i]? = some u ∧ u.kind ≠ .eof := by
  refine ⟨?_, Cursor.index_lt text p.cursor, ?_, ?_, ?_⟩
  · intro α c
    have honward := p.onward_call c
    exact ⟨fun fuel hfuel => Cursor.call_eq h.over hfuel c, honward.position, honward.diagnostics⟩
  · exact Parser.moves_accept (parseExpr_moves p.stop p.pending)
  · exact Parser.moves_accept (parseStmt_moves p.stop p.pending)
  · intro c t fuel ht hne hfuel
    obtain ⟨s, c', hrun, hlt, hle⟩ := Cursor.round_moves c ht hne hfuel
    exact ⟨s, c', hrun, hlt, fun i _ hi => Cursor.kind_ne_of_lt (Nat.lt_of_lt_of_le hi hle)⟩

/-- A block of stray tokens, and a round at the first of them. -/
theorem stray_tokens_end :
    let text := "\x7b ) ) 1 \x7d"
    let p := Parser.ofText text
    p.Reached text ∧ p.block.2.position = 5 ∧ p.block.2.diagnostics.length = 2 ∧
      p.Moves p.stmt.2 ∧
      ∃ s c', Cursor.round (tokensOf text) (Cursor.stmt (tokensOf text) 21) ⟨1, []⟩ = .ok s c' ∧
        1 < c'.position := by
  intro text p
  have hreached : p.Reached text := .start
  obtain ⟨hcalls, -, -, hstmt, hround⟩ := parsing_always_ends text p hreached
  have hblock := (hcalls Stmt .block).1 27 (by decide +kernel)
  have hrun : (match Cursor.call (tokensOf text) 27 Call.block p.cursor with
      | .ok _ c => (c.position, c.diagnostics.length)
      | .error _ _ => (0, 0)) = (5, 2) := by decide +kernel
  rw [hblock] at hrun
  obtain ⟨s, c', hok, hlt, -⟩ := hround ⟨1, []⟩ ⟨.closeParen, ⟨2, 1⟩, ")", none⟩ 21
    (by decide +kernel) (by decide) (by decide +kernel)
  exact ⟨hreached, congrArg Prod.fst hrun, congrArg Prod.snd hrun, hstmt, s, c', hok, hlt⟩

end Scriptlet.Syntax
