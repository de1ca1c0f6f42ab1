import Scriptlet.Proofs.Token.Lexer
import Scriptlet.Syntax.Fragment
import Scriptlet.Syntax.Node

/-!
# What becomes of each token

Reading enters every token of a text into the tree, or drops it, in order. It makes up a placeholder
just where it reports a token. Tokens are dropped in two places: in a block, after a statement that
is no more than a placeholder, and after the statement of a unit whose end is a placeholder.
-/

namespace Scriptlet

namespace Token

/-- Whether the token was made up while reading a text that ends at `stop`. -/
def IsPlaceholder (stop : Nat) (t : Token) : Prop :=
  t = .missing t.kind t.span.pos ∧ t ≠ .eofAt stop

instance (stop : Nat) : DecidablePred (IsPlaceholder stop) := fun t =>
  inferInstanceAs (Decidable (t = .missing t.kind t.span.pos ∧ t ≠ .eofAt stop))

/-- What tells the tokens of a text that ends at `stop` from those made up while reading it. -/
structure Genuine (stop : Nat) (t : Token) : Prop where
  text_ne : t.text ≠ ""
  kind_ne : t.kind ≠ .eof
  pos_ne : t.span.pos ≠ stop

theorem Genuine.not_isPlaceholder {stop : Nat} {t : Token} (h : t.Genuine stop) :
    ¬ t.IsPlaceholder stop := by
  intro hp
  apply h.text_ne
  rw [hp.1]
  rfl

theorem missing_isPlaceholder {kind : Kind} {pos stop : Nat} (h : kind ≠ .eof ∨ pos ≠ stop) :
    (missing kind pos).IsPlaceholder stop := by
  refine ⟨rfl, fun heq => ?_⟩
  rcases h with h | h
  · exact h (congrArg Token.kind heq)
  · exact h (congrArg (fun t => t.span.pos) heq)

theorem eofAt_not_isPlaceholder (stop : Nat) : ¬ (eofAt stop).IsPlaceholder stop :=
  fun h => h.2 rfl

end Token

namespace Syntax

open Token (Kind)

/-! ## Entries -/

/-- What is done with a token: it is a leaf of the tree, or a token of the text that is left out. -/
inductive Entry
  | leaf (t : Token)
  | dropped (t : Token)

namespace Entry

def leaf? : Entry → Option Token
  | leaf t => some t
  | dropped _ => none

def present? (stop : Nat) : Entry → Option Token
  | leaf t => if t.IsPlaceholder stop then none else some t
  | dropped t => some t

end Entry

def leaves (ts : List Token) : List Entry := ts.map .leaf

@[simp] theorem leaves_nil : leaves [] = [] := rfl

@[simp] theorem leaves_cons (t : Token) (ts : List Token) :
    leaves (t :: ts) = .leaf t :: leaves ts := rfl

@[simp] theorem leaves_append (ts us : List Token) : leaves (ts ++ us) = leaves ts ++ leaves us :=
  List.map_append

theorem filterMap_leaf?_leaves (ts : List Token) : (leaves ts).filterMap Entry.leaf? = ts := by
  rw [leaves, List.filterMap_map]
  exact List.filterMap_some

theorem filterMap_leaf?_dropped (ts : List Token) :
    (ts.map Entry.dropped).filterMap Entry.leaf? = [] := by
  rw [List.filterMap_map]
  exact List.filterMap_eq_nil_iff.mpr fun _ _ => rfl

def expected? (d : Diagnostic) : Option (String × Nat) :=
  match d.fault with
  | .unexpectedToken _ expected => some (expected, d.span.pos)
  | _ => none

def expectedBy (t : Token) : String × Nat := (t.kind.name, t.span.pos)

/-- Reading from `ts` up to `rest` takes the tokens that `es` has entries for, and reports the
placeholders among them. -/
structure Tallies (stop : Nat) (ts : List Token) (es : List Entry) (rest : List Token)
    (reports : List Diagnostic) : Prop where
  tokens : es.filterMap (Entry.present? stop) ++ rest = ts
  reports : reports.filterMap expected? =
    ((es.filterMap Entry.leaf?).filter (·.IsPlaceholder stop)).map expectedBy

/-- How reading gets from `ts` to `rest`: each token is entered or dropped when it is at hand, and
before a token at hand that is of the wrong kind a placeholder is entered. -/
inductive Takes (stop : Nat) : List Token → List Entry → List Token → List Diagnostic → Prop
  | nil (ts : List Token) : Takes stop ts [] ts []
  | leaf {t : Token} {ts rest : List Token} {es : List Entry} {ds : List Diagnostic} :
    Takes stop ts es rest ds → Takes stop (t :: ts) (.leaf t :: es) rest ds
  | dropped {t : Token} {ts rest : List Token} {es : List Entry} {ds : List Diagnostic} :
    Takes stop ts es rest ds → Takes stop (t :: ts) (.dropped t :: es) rest ds
  | missing {kind : Kind} {ts rest : List Token} {es : List Entry} {ds : List Diagnostic} :
    (current stop ts).kind ≠ kind → Takes stop ts es rest ds →
    Takes stop ts (.leaf (.missing kind (current stop ts).span.pos) :: es) rest
      (unexpected (current stop ts) kind :: ds)

section
variable {stop : Nat}

namespace Takes

variable {ts rest : List Token} {es : List Entry} {ds : List Diagnostic}

theorem append (h : Takes stop ts es rest ds) {rest' : List Token} {es' : List Entry}
    {ds' : List Diagnostic} (h' : Takes stop rest es' rest' ds') :
    Takes stop ts (es ++ es') rest' (ds ++ ds') := by
  induction h with
  | nil => exact h'
  | leaf _ ih => exact .leaf (ih h')
  | dropped _ ih => exact .dropped (ih h')
  | missing hkind _ ih => exact .missing hkind (ih h')

theorem expect (stop : Nat) (kind : Kind) (hkind : kind ≠ .eof) (ts : List Token) :
    Takes stop ts [.leaf (expect stop kind ts).value] (expect stop kind ts).rest
      (Syntax.expect stop kind ts).reports := by
  by_cases h : (current stop ts).kind = kind
  · cases ts with
    | nil => exact absurd h.symm hkind
    | cons t ts =>
      rw [current_cons] at h
      rw [expect_of_kind h]
      exact .leaf (.nil ts)
  · rw [expect_of_ne h]
    exact .missing h (.nil ts)

theorem drop (ts : List Token) : Takes stop ts (ts.map .dropped) [] [] := by
  induction ts with
  | nil => exact .nil []
  | cons t ts ih => exact .dropped ih

/-- The token at hand stays the same if the end is written out. -/
theorem extend (h : Takes stop ts es rest ds) :
    Takes stop (ts ++ [.eofAt stop]) es (rest ++ [.eofAt stop]) ds := by
  induction h with
  | nil => exact .nil _
  | leaf _ ih => exact .leaf ih
  | dropped _ ih => exact .dropped ih
  | @missing kind ts _ _ _ hkind _ ih =>
    have hcurrent : current stop (ts ++ [.eofAt stop]) = current stop ts := by cases ts <;> rfl
    rw [← hcurrent] at hkind ⊢
    exact .missing hkind ih

theorem tallies (h : Takes stop ts es rest ds) (hts : ∀ t ∈ ts, ¬ t.IsPlaceholder stop)
    (hend : ∀ t ∈ ts, t.kind = .eof ∨ t.span.pos ≠ stop) : Tallies stop ts es rest ds := by
  induction h with
  | nil => exact ⟨rfl, rfl⟩
  | leaf _ ih =>
    obtain ⟨ht, hts⟩ := List.forall_mem_cons.mp hts
    have htally := ih hts (List.forall_mem_cons.mp hend).2
    constructor
    · simp [Entry.present?, ht, htally.tokens]
    · simp [Entry.leaf?, ht, htally.reports]
  | dropped _ ih =>
    have htally := ih (List.forall_mem_cons.mp hts).2 (List.forall_mem_cons.mp hend).2
    constructor
    · simp [Entry.present?, htally.tokens]
    · exact htally.reports
  | @missing kind ts _ _ _ hkind _ ih =>
    have htally := ih hts hend
    have hplaceholder : (Token.missing kind (current stop ts).span.pos).IsPlaceholder stop := by
      -- only a token of the text can stand where the end was expected
      apply Token.missing_isPlaceholder
      by_cases heof : kind = .eof
      · subst heof
        cases ts with
        | nil => exact absurd rfl hkind
        | cons t ts => exact .inr ((hend t List.mem_cons_self).resolve_left hkind)
      · exact .inl heof
    constructor
    · simp [Entry.present?, hplaceholder, htally.tokens]
    · simp [Entry.leaf?, hplaceholder, expected?, unexpected, htally.reports]
      rfl

end Takes

end

/-! ## Expressions -/

section
variable (stop : Nat)

-- The recursion is that of the grammar, and so is the measure.
mutual

theorem parseExpr_takes (ts : List Token) :
    Takes stop ts (leaves (parseExpr stop ts).value.tokens) (parseExpr stop ts).rest
      (parseExpr stop ts).reports := by
  match ts with
  | [] =>
    rw [parseExpr_nil]
    exact parseBinary_takes 0 []
  | [t] =>
    rw [parseExpr_singleton]
    exact parseBinary_takes 0 [t]
  | ident :: eq :: ts =>
    rw [parseExpr_cons_cons]
    split
    · have hrhs := parseExpr_takes ts
      simpa using (hrhs.leaf (t := eq)).leaf (t := ident)
    · exact parseBinary_takes 0 (ident :: eq :: ts)
termination_by 4 * ts.length + 3

theorem parseBinary_takes (parent : Nat) (ts : List Token) :
    Takes stop ts (leaves (parseBinary stop parent ts).value.tokens)
      (parseBinary stop parent ts).rest (parseBinary stop parent ts).reports := by
  match ts with
  | [] =>
    rw [parseBinary_nil]
    have hlen : (parsePrimary stop []).rest.length ≤ 0 := (parsePrimary_suffix stop []).length_le
    obtain ⟨es, hes, hinfix⟩ := parseInfix_takes parent (parsePrimary stop []).value
      (parsePrimary stop []).rest
    simpa [hes] using (parsePrimary_takes []).append hinfix
  | op :: ts =>
    rw [parseBinary_cons]
    split
    · have hlen := (parseBinary_suffix stop op.kind.unaryPrecedence ts).length_le
      obtain ⟨es, hes, hinfix⟩ := parseInfix_takes parent
        (.unary op (parseBinary stop op.kind.unaryPrecedence ts).value)
        (parseBinary stop op.kind.unaryPrecedence ts).rest
      have hoperand := parseBinary_takes op.kind.unaryPrecedence ts
      simpa [hes] using (hoperand.append hinfix).leaf (t := op)
    · have hlen : (parsePrimary stop (op :: ts)).rest.length ≤ ts.length + 1 :=
        (parsePrimary_suffix stop (op :: ts)).length_le
      obtain ⟨es, hes, hinfix⟩ := parseInfix_takes parent
        (parsePrimary stop (op :: ts)).value (parsePrimary stop (op :: ts)).rest
      simpa [hes] using (parsePrimary_takes (op :: ts)).append hinfix
termination_by 4 * ts.length + 2

/-- The leaves of what is folded are those of `lhs` and then what is read from `ts`. -/
theorem parseInfix_takes (parent : Nat) (lhs : Expr) (ts : List Token) :
    ∃ es, leaves (parseInfix stop parent lhs ts).value.tokens = leaves lhs.tokens ++ es ∧
      Takes stop ts es (parseInfix stop parent lhs ts).rest
        (parseInfix stop parent lhs ts).reports := by
  match ts with
  | [] =>
    rw [parseInfix_nil]
    exact ⟨[], by simp, .nil []⟩
  | op :: ts =>
    rw [parseInfix_cons]
    split
    · have hlen := (parseBinary_suffix stop op.kind.binaryPrecedence ts).length_le
      have hrhs := parseBinary_takes op.kind.binaryPrecedence ts
      obtain ⟨es, hes, hinfix⟩ := parseInfix_takes parent
        (.binary lhs op (parseBinary stop op.kind.binaryPrecedence ts).value)
        (parseBinary stop op.kind.binaryPrecedence ts).rest
      refine ⟨_, ?_, (hrhs.append hinfix).leaf (t := op)⟩
      simp [hes]
    · exact ⟨[], by simp, .nil (op :: ts)⟩
termination_by 4 * ts.length

theorem parsePrimary_takes (ts : List Token) :
    Takes stop ts (leaves (parsePrimary stop ts).value.tokens) (parsePrimary stop ts).rest
      (parsePrimary stop ts).reports := by
  have hname := Takes.expect stop .identifier (by decide) ts
  match ts with
  | [] =>
    rw [parsePrimary_nil]
    simpa using hname
  | t :: ts =>
    have hliteral : Takes stop (t :: ts) [.leaf t] ts [] := .leaf (.nil ts)
    rw [parsePrimary_cons]
    split
    · have hinner := parseExpr_takes ts
      have hclosing := Takes.expect stop .closeParen (by decide)
        (parseExpr stop ts).rest
      simpa using (hinner.append hclosing).leaf (t := t)
    · simpa using hliteral
    · simpa using hliteral
    · simpa using hliteral
    · simpa using hname
termination_by 4 * ts.length + 1

end

end

/-! ## Statements that take no token -/

section
variable (stop : Nat)

theorem parsePrimary_progress (t : Token) (ts : List Token) :
    (parsePrimary stop (t :: ts)).rest <:+ ts ∨
      (parsePrimary stop (t :: ts)).value = .name (.missing .identifier t.span.pos) ∧
        (parsePrimary stop (t :: ts)).rest = t :: ts := by
  rw [parsePrimary_cons]
  split
  · exact .inl ((expect_suffix stop .closeParen _).trans (parseExpr_suffix stop ts))
  · exact .inl (List.suffix_refl ts)
  · exact .inl (List.suffix_refl ts)
  · exact .inl (List.suffix_refl ts)
  · by_cases h : t.kind = .identifier
    · rw [expect_of_kind h]
      exact .inl (List.suffix_refl ts)
    · have hne : (current stop (t :: ts)).kind ≠ .identifier := h
      rw [expect_of_ne hne]
      exact .inr ⟨rfl, rfl⟩

theorem parseBinary_progress (parent : Nat) (t : Token) (ts : List Token) :
    (parseBinary stop parent (t :: ts)).rest <:+ ts ∨
      (parseBinary stop parent (t :: ts)).value = .name (.missing .identifier t.span.pos) ∧
        (parseBinary stop parent (t :: ts)).rest = t :: ts := by
  rw [parseBinary_cons]
  split
  · exact .inl ((parseInfix_suffix stop _ _ _).trans (parseBinary_suffix stop _ ts))
  · rcases parsePrimary_progress stop t ts with h | ⟨hvalue, hrest⟩
    · exact .inl ((parseInfix_suffix stop _ _ _).trans h)
    · simp only [Parsed.bind_value, Parsed.bind_rest, hvalue, hrest]
      rw [parseInfix_cons]
      split
      · exact .inl ((parseInfix_suffix stop _ _ _).trans (parseBinary_suffix stop _ ts))
      · exact .inr ⟨rfl, rfl⟩

theorem parseExpr_progress (t : Token) (ts : List Token) :
    (parseExpr stop (t :: ts)).rest <:+ ts ∨
      (parseExpr stop (t :: ts)).value = .name (.missing .identifier t.span.pos) ∧
        (parseExpr stop (t :: ts)).rest = t :: ts := by
  cases ts with
  | nil =>
    rw [parseExpr_singleton]
    exact parseBinary_progress stop 0 t []
  | cons eq ts =>
    rw [parseExpr_cons_cons]
    split
    · exact .inl ((parseExpr_suffix stop ts).trans (List.suffix_cons _ _))
    · exact parseBinary_progress stop 0 t (eq :: ts)

/-- A statement that takes no token is a placeholder where the next token stands. -/
theorem parseStmt_progress (t : Token) (ts : List Token) :
    (parseStmt stop (t :: ts)).rest <:+ ts ∨
      (parseStmt stop (t :: ts)).value = .expr (.name (.missing .identifier t.span.pos)) ∧
        (parseStmt stop (t :: ts)).rest = t :: ts := by
  have hbody := parseBody_suffix stop ts
  have hident := expect_suffix stop .identifier ts
  have heq := (expect_suffix stop .eq _).trans hident
  have hcond := parseExpr_suffix stop ts
  rw [parseStmt_cons]
  split
  · exact .inl ((expect_suffix stop .closeBrace _).trans hbody)
  · exact .inl ((parseExpr_suffix stop _).trans heq)
  · exact .inl ((parseExpr_suffix stop _).trans heq)
  · exact .inl ((parseElse_suffix stop _ _ _ _).trans ((parseStmt_suffix stop _).trans hcond))
  · exact .inl ((parseStmt_suffix stop _).trans hcond)
  · have hsep := (expect_suffix stop .toKeyword _).trans ((parseExpr_suffix stop _).trans heq)
    exact .inl ((parseStmt_suffix stop _).trans ((parseExpr_suffix stop _).trans hsep))
  · rcases parseExpr_progress stop t ts with h | ⟨hvalue, hrest⟩
    · exact .inl h
    · exact .inr ⟨congrArg Stmt.expr hvalue, hrest⟩

end

/-! ## Statements -/

mutual

inductive Stmt.Ledger (stop : Nat) : Stmt → List Entry → Prop
  | block {o c : Token} {body : List Stmt} {es : List Entry} : Stmt.BodyLedger stop body es →
    Stmt.Ledger stop (.block o body c) (.leaf o :: (es ++ [.leaf c]))
  | expr {e : Expr} : Stmt.Ledger stop (.expr e) (leaves e.tokens)
  | decl {k t eq : Token} {e : Expr} :
    Stmt.Ledger stop (.decl k t eq e) (.leaf k :: .leaf t :: .leaf eq :: leaves e.tokens)
  | ifThen {k : Token} {e : Expr} {s : Stmt} {es : List Entry} : Stmt.Ledger stop s es →
    Stmt.Ledger stop (.ifThen k e s) (.leaf k :: (leaves e.tokens ++ es))
  | ifElse {k k' : Token} {e : Expr} {s s' : Stmt} {es es' : List Entry} :
    Stmt.Ledger stop s es → Stmt.Ledger stop s' es' →
    Stmt.Ledger stop (.ifElse k e s k' s') (.leaf k :: (leaves e.tokens ++ (es ++ .leaf k' :: es')))
  | while {k : Token} {e : Expr} {s : Stmt} {es : List Entry} : Stmt.Ledger stop s es →
    Stmt.Ledger stop (.while k e s) (.leaf k :: (leaves e.tokens ++ es))
  | for {k t eq sep : Token} {lo hi : Expr} {s : Stmt} {es : List Entry} : Stmt.Ledger stop s es →
    Stmt.Ledger stop (.for k t eq lo sep hi s)
      (.leaf k :: .leaf t :: .leaf eq ::
        (leaves lo.tokens ++ .leaf sep :: (leaves hi.tokens ++ es)))

/-- In a block a token may be dropped, directly after a statement that is just a placeholder name
where that token stands. -/
inductive Stmt.BodyLedger (stop : Nat) : List Stmt → List Entry → Prop
  | nil : Stmt.BodyLedger stop [] []
  | cons {s : Stmt} {ss : List Stmt} {es es' : List Entry} : Stmt.Ledger stop s es →
    Stmt.BodyLedger stop ss es' → Stmt.BodyLedger stop (s :: ss) (es ++ es')
  | skip {t : Token} {ss : List Stmt} {es : List Entry} : Stmt.BodyLedger stop ss es →
    Stmt.BodyLedger stop (.expr (.name (.missing .identifier t.span.pos)) :: ss)
      (.leaf (.missing .identifier t.span.pos) :: .dropped t :: es)

end

section
variable (stop : Nat)

mutual

theorem parseStmt_takes (ts : List Token) :
    ∃ es, (parseStmt stop ts).value.Ledger stop es ∧
      Takes stop ts es (parseStmt stop ts).rest (parseStmt stop ts).reports := by
  match ts with
  | [] =>
    rw [parseStmt_nil]
    exact ⟨_, .expr, by simpa using parseExpr_takes stop []⟩
  | t :: ts =>
    have hident := Takes.expect stop .identifier (by decide) ts
    have heq := Takes.expect stop .eq (by decide) (expect stop .identifier ts).rest
    have hinit := parseExpr_takes stop
      (expect stop .eq (expect stop .identifier ts).rest).rest
    have hdecl := (hident.append (heq.append hinit)).leaf (t := t)
    have hcond := parseExpr_takes stop ts
    have hcondLen := (parseExpr_suffix stop ts).length_le
    rw [parseStmt_cons]
    split
    · obtain ⟨es, hbody, htakes⟩ := parseBody_takes ts
      have hclosing := Takes.expect stop .closeBrace (by decide)
        (parseBody stop ts).rest
      exact ⟨_, .block hbody, by simpa using (htakes.append hclosing).leaf (t := t)⟩
    · exact ⟨_, .decl, by simpa using hdecl⟩
    · exact ⟨_, .decl, by simpa using hdecl⟩
    · have hyesLen := (parseStmt_suffix stop (parseExpr stop ts).rest).length_le
      obtain ⟨es, hyes, hyesTakes⟩ := parseStmt_takes (parseExpr stop ts).rest
      obtain ⟨es', hif, helse⟩ := parseElse_takes t (parseExpr stop ts).value hyes
        (parseStmt stop (parseExpr stop ts).rest).rest
      exact ⟨_, hif, by simpa using (hcond.append (hyesTakes.append helse)).leaf (t := t)⟩
    · obtain ⟨es, hbody, htakes⟩ := parseStmt_takes (parseExpr stop ts).rest
      exact ⟨_, .while hbody, by simpa using (hcond.append htakes).leaf (t := t)⟩
    · have hupperLen := ((parseExpr_suffix stop _).trans ((expect_suffix stop .toKeyword _).trans
        ((parseExpr_suffix stop _).trans ((expect_suffix stop .eq _).trans
          (expect_suffix stop .identifier ts))))).length_le
      have hsep := hinit.append (Takes.expect stop .toKeyword (by decide) _)
      have hupper := hsep.append (parseExpr_takes stop _)
      obtain ⟨es, hbody, htakes⟩ := parseStmt_takes (parseExpr stop (expect stop .toKeyword
        (parseExpr stop (expect stop .eq (expect stop .identifier ts).rest).rest).rest).rest).rest
      have hall := (hident.append (heq.append (hupper.append htakes))).leaf (t := t)
      exact ⟨_, .for hbody, by simpa using hall⟩
    · exact ⟨_, .expr, by simpa using parseExpr_takes stop (t :: ts)⟩
termination_by 2 * ts.length

theorem parseElse_takes (keyword : Token) (cond : Expr) {yes : Stmt} {es : List Entry}
    (hyes : yes.Ledger stop es) (ts : List Token) :
    ∃ es', (parseElse stop keyword cond yes ts).value.Ledger stop
        (.leaf keyword :: (leaves cond.tokens ++ (es ++ es'))) ∧
      Takes stop ts es' (parseElse stop keyword cond yes ts).rest
        (parseElse stop keyword cond yes ts).reports := by
  match ts with
  | [] =>
    rw [parseElse_nil]
    exact ⟨[], by simpa using Stmt.Ledger.ifThen hyes, .nil []⟩
  | t :: ts =>
    rw [parseElse_cons]
    split
    · obtain ⟨es', hno, htakes⟩ := parseStmt_takes ts
      exact ⟨_, .ifElse hyes hno, by simpa using htakes.leaf (t := t)⟩
    · exact ⟨[], by simpa using Stmt.Ledger.ifThen hyes, .nil (t :: ts)⟩
termination_by 2 * ts.length

theorem parseBody_takes (ts : List Token) :
    ∃ es, Stmt.BodyLedger stop (parseBody stop ts).value es ∧
      Takes stop ts es (parseBody stop ts).rest (parseBody stop ts).reports := by
  match ts with
  | [] =>
    rw [parseBody_nil]
    exact ⟨[], .nil, .nil []⟩
  | t :: ts =>
    rw [parseBody_cons]
    split
    · exact ⟨[], .nil, .nil (t :: ts)⟩
    · obtain ⟨es, hs, htakes⟩ := parseStmt_takes (t :: ts)
      have hlen : (skipStuck t ts (parseStmt stop (t :: ts)).rest).length < ts.length + 1 :=
        length_skipStuck_lt (parseStmt_suffix stop (t :: ts))
      obtain ⟨es', hss, htakes'⟩ := parseBody_takes
        (skipStuck t ts (parseStmt stop (t :: ts)).rest)
      by_cases hstuck : (parseStmt stop (t :: ts)).rest = t :: ts
      · -- The statement took nothing, so the token at hand is dropped after it.
        have hskip : skipStuck t ts (parseStmt stop (t :: ts)).rest = ts :=
          if_pos (beq_iff_eq.mpr hstuck)
        obtain ⟨hvalue, _⟩ := (parseStmt_progress stop t ts).resolve_left fun h => by
          have hle := h.length_le
          rw [hstuck] at hle
          simp at hle
        rw [hvalue] at hs
        rw [hskip] at hss htakes'
        rw [hstuck] at htakes
        cases hs
        refine ⟨.leaf (.missing .identifier t.span.pos) :: .dropped t :: es', ?_, ?_⟩
        · simpa [hskip, hvalue] using Stmt.BodyLedger.skip (t := t) hss
        · simpa [hskip] using htakes.append htakes'.dropped
      · have hskip : skipStuck t ts (parseStmt stop (t :: ts)).rest =
            (parseStmt stop (t :: ts)).rest := if_neg fun h => hstuck (beq_iff_eq.mp h)
        rw [hskip] at hss htakes'
        refine ⟨es ++ es', ?_, ?_⟩
        · simpa [hskip] using Stmt.BodyLedger.cons hs hss
        · simpa [hskip] using htakes.append htakes'
termination_by 2 * ts.length + 1

end

end

section
variable {stop : Nat}

mutual

theorem Stmt.Ledger.leaves_eq : ∀ {s : Stmt} {es : List Entry}, s.Ledger stop es →
    es.filterMap Entry.leaf? = s.tokens
  | _, _, .block h => by simp [Entry.leaf?, h.leaves_eq]
  | _, _, .expr => by simp [filterMap_leaf?_leaves]
  | _, _, .decl => by simp [Entry.leaf?, filterMap_leaf?_leaves]
  | _, _, .ifThen h => by simp [Entry.leaf?, filterMap_leaf?_leaves, h.leaves_eq]
  | _, _, .ifElse h h' => by
    simp [Entry.leaf?, filterMap_leaf?_leaves, h.leaves_eq, h'.leaves_eq]
  | _, _, .while h => by simp [Entry.leaf?, filterMap_leaf?_leaves, h.leaves_eq]
  | _, _, .for h => by simp [Entry.leaf?, filterMap_leaf?_leaves, h.leaves_eq]

theorem Stmt.BodyLedger.leaves_eq : ∀ {ss : List Stmt} {es : List Entry},
    Stmt.BodyLedger stop ss es → es.filterMap Entry.leaf? = ss.flatMap Stmt.tokens
  | _, _, .nil => rfl
  | _, _, .cons h h' => by simp [h.leaves_eq, h'.leaves_eq]
  | _, _, .skip h => congrArg (_ :: ·) h.leaves_eq

end

/-! ## Units -/

/-- The entries of a unit. If its end is a placeholder, what follows the statement is dropped. -/
inductive SourceUnit.Ledger (stop : Nat) (u : SourceUnit) : List Entry → Prop
  | whole {es : List Entry} : u.stmt.Ledger stop es → u.eof = .eofAt stop →
    SourceUnit.Ledger stop u (es ++ [.leaf u.eof])
  | cut {es : List Entry} (after : List Token) : u.stmt.Ledger stop es →
    u.eof.IsPlaceholder stop → SourceUnit.Ledger stop u (es ++ .leaf u.eof :: after.map .dropped)

theorem SourceUnit.Ledger.leaves_eq {u : SourceUnit} {es : List Entry} (h : u.Ledger stop es) :
    es.filterMap Entry.leaf? = u.tokens := by
  have htokens : u.tokens = u.stmt.tokens ++ [u.eof] := SourceUnit.tokens_mk u.stmt u.eof
  cases h with
  | whole hs _ => rw [List.filterMap_append, hs.leaves_eq, htokens]; rfl
  | cut after hs _ =>
    rw [List.filterMap_append, hs.leaves_eq, htokens, List.append_cancel_left_eq]
    exact congrArg (u.eof :: ·) (filterMap_leaf?_dropped after)

theorem parseUnit_takes {ts : List Token} (hts : ∀ t ∈ ts, t.Genuine stop) :
    ∃ es, (parseUnit stop ts).value.Ledger stop es ∧
      Takes stop (ts ++ [.eofAt stop]) es [] (parseUnit stop ts).reports := by
  obtain ⟨es, hs, htakes⟩ := parseStmt_takes stop ts
  have hall := htakes.extend
  unfold parseUnit
  cases htail : (parseStmt stop ts).rest with
  | nil =>
    have hexpect : expect stop .eof [] = ⟨.eofAt stop, [], []⟩ := rfl
    rw [htail] at hall
    refine ⟨_, .whole (by simpa using hs) (by simp [htail, hexpect]), ?_⟩
    have hend : Takes stop [.eofAt stop] [.leaf (.eofAt stop)] [] [] := .leaf (.nil [])
    simpa [htail, hexpect] using hall.append hend
  | cons t rest =>
    have ht : t.Genuine stop := by
      apply hts
      exact (parseStmt_suffix stop ts).subset (by rw [htail]; exact List.mem_cons_self)
    have hexpect : expect stop .eof (t :: rest) =
        ⟨.missing .eof t.span.pos, t :: rest, [unexpected t .eof]⟩ := expect_of_ne ht.kind_ne
    have hplaceholder : (Token.missing .eof t.span.pos).IsPlaceholder stop :=
      Token.missing_isPlaceholder (.inr ht.pos_ne)
    rw [htail] at hall
    refine ⟨_, .cut (t :: rest ++ [.eofAt stop]) (by simpa using hs)
      (by simpa [htail, hexpect] using hplaceholder), ?_⟩
    have hend : Takes stop (t :: rest ++ [.eofAt stop])
        (.leaf (.missing .eof t.span.pos) :: (t :: rest ++ [Token.eofAt stop]).map .dropped) []
        [unexpected t .eof] := .missing ht.kind_ne (.drop _)
    simpa [htail, hexpect] using hall.append hend

theorem parseUnit_tallies {ts : List Token} (hts : ∀ t ∈ ts, t.Genuine stop) :
    ∃ es, (parseUnit stop ts).value.Ledger stop es ∧
      Tallies stop (ts ++ [.eofAt stop]) es [] (parseUnit stop ts).reports := by
  obtain ⟨es, hledger, htakes⟩ := parseUnit_takes hts
  refine ⟨es, hledger, htakes.tallies ?_ ?_⟩
  · refine List.forall_mem_append.mpr ⟨fun t ht => (hts t ht).not_isPlaceholder, ?_⟩
    simp [Token.eofAt_not_isPlaceholder]
  · refine List.forall_mem_append.mpr ⟨fun t ht => .inr (hts t ht).pos_ne, ?_⟩
    simp [Token.eofAt]

end

end Syntax

end Scriptlet
