import Scriptlet.Chain
import Scriptlet.Proofs.Run.Triple
import Scriptlet.Proofs.Syntax.Accounting
import Scriptlet.Proofs.Syntax.Inverse

/-!
# Arithmetic on words

Numbers, sums, differences, products and signs are computed on words of 32 bits, which wrap at every
step. Since wrapping goes well with all of these, the outcome is the one that arithmetic without
bounds would wrap to in the end.
-/

namespace Scriptlet

open Binding (Bound Layer bindBinary bindExpr bindUnary)
open Run (Store applyBinary applyUnary bind_of_ok eval)
open Syntax (Fragment)
open Token (numeral significantTokens lexicalReports)
open Typed (BinaryRow UnaryRow)

/-! ## Arithmetic without bounds -/

namespace Syntax.Expr

def isArithmetic : Expr → Bool
  | literal t _ => t.kind = .number
  | unary op e => (op.kind = .plus ∨ op.kind = .minus) && e.isArithmetic
  | binary l op r =>
    (op.kind = .plus ∨ op.kind = .minus ∨ op.kind = .star) && l.isArithmetic && r.isArithmetic
  | paren _ e _ => e.isArithmetic
  | name _ | assign _ _ _ => false

/-- The number that a text writes in base ten, perhaps after a sign. -/
def written : List Char → Int
  | '-' :: digits => -(numeral digits : Int)
  | '+' :: digits => numeral digits
  | digits => numeral digits

/-- The value of arithmetic on integers of any size. -/
def exactValue : Expr → Int
  | literal t _ => written t.text.toList
  | unary op e => if op.kind = .minus then -e.exactValue else e.exactValue
  | binary l op r =>
    if op.kind = .star then l.exactValue * r.exactValue
    else if op.kind = .minus then l.exactValue - r.exactValue
    else l.exactValue + r.exactValue
  | paren _ e _ => e.exactValue
  | name _ | assign _ _ _ => 0

end Syntax.Expr

/-! ## Numbers -/

theorem Token.number?_written {cs : List Char} {n : Int32} (h : number? cs = some n) :
    n = .ofInt (Syntax.Expr.written cs) := by
  have hunsigned : ∀ {ds : List Char} {k : Int}, signed?.unsigned? ds = some k →
      k = numeral ds := by
    intro ds k hk
    unfold signed?.unsigned? at hk
    split at hk
    · rw [← Option.some.inj hk, decimal_eq_numeral]
    · cases hk
  have hsigned : ∀ {m : Int}, signed? cs = some m → m = Syntax.Expr.written cs := by
    intro m hm
    unfold signed? at hm
    split at hm
    · obtain ⟨k, hk, rfl⟩ := Option.map_eq_some_iff.mp hm
      rw [hunsigned hk]
      rfl
    · exact hunsigned hm
    · rename_i hminus hplus
      rw [hunsigned hm]
      unfold Syntax.Expr.written
      split
      · exact absurd rfl (hminus _)
      · exact absurd rfl (hplus _)
      · rfl
  unfold number? at h
  split at h
  · rename_i m hm
    split at h
    · rw [← Option.some.inj h, hsigned hm]
    · cases h
  · cases h

/-- A number that is read without fault has the value that its text writes. -/
theorem Token.value_of_number {text : String} (hclean : lexicalReports text = []) {t : Token}
    (ht : t ∈ significantTokens text) (hkind : t.kind = .number) :
    t.value = some (.int (.ofInt (Syntax.Expr.written t.text.toList))) := by
  obtain ⟨l, hl, rfl⟩ := List.mem_map.mp (List.mem_of_mem_filter ht)
  have hreport : l.report = none := List.filterMap_eq_nil_iff.mp hclean l hl
  have hvalue : l.token.kind = .number → l.report = none →
      ∃ n, number? l.token.text.toList = some n ∧ l.token.value = some (.int n) := by
    refine Lexeme.forall_mem_all (P := fun l => l.token.kind = .number → l.report = none →
      ∃ n, number? l.token.text.toList = some n ∧ l.token.value = some (.int n))
      (fun _ _ => Lexeme.ofRun_number) (fun p run d l hpair hkind _ => ?_) _ _ l hl
    obtain ⟨kind, hoperator, rfl⟩ := Option.map_eq_some_iff.mp hpair
    exact absurd hkind (ne_of_mem_of_not_mem (mem_signs_of_ofPair? hoperator) (by decide))
  obtain ⟨n, hn, hvalue⟩ := hvalue hkind hreport
  rw [hvalue, number?_written hn]

/-! ## Words -/

/-- The bound expression is without fault, and runs to the word that `n` wraps to. -/
structure Computes (b : Bound Typed.Expr) (n : Int) : Prop where
  reports : b.reports = []
  type : b.tree.type = .int
  eval : ∀ σ, eval b.tree σ = .ok (.int (.ofInt n)) σ

namespace Computes

theorem unary {operand : Bound Typed.Expr} {m n : Int} (h : Computes operand m) {op : Token}
    (row : UnaryRow) (hrow : UnaryRow.find? op.kind .int = some row) (htype : row.type = .int)
    (happly : applyUnary row.op (.int (.ofInt m)) = .ok (.int (.ofInt n))) :
    Computes (bindUnary op operand) n := by
  have hbind : bindUnary op operand = ⟨.unary row operand.tree, operand.reports⟩ := by
    simp only [bindUnary, h.type, hrow]
  rw [hbind]
  refine ⟨h.reports, htype, fun σ => ?_⟩
  unfold Run.eval
  rw [bind_of_ok (h.eval σ), happly]
  rfl

theorem binary {lhs rhs : Bound Typed.Expr} {l r n : Int} (hl : Computes lhs l)
    (hr : Computes rhs r) {op : Token} (row : BinaryRow)
    (hrow : BinaryRow.find? op.kind .int .int = some row) (htype : row.type = .int)
    (happly : applyBinary row.op (.int (.ofInt l)) (.int (.ofInt r)) = .ok (.int (.ofInt n))) :
    Computes (bindBinary lhs op rhs) n := by
  have hbind : bindBinary lhs op rhs = ⟨.binary lhs.tree row rhs.tree, []⟩ := by
    simp only [bindBinary, hl.type, hr.type, hrow, hl.reports, hr.reports, List.append_nil]
  rw [hbind]
  refine ⟨rfl, htype, fun σ => ?_⟩
  unfold Run.eval
  rw [bind_of_ok (hl.eval σ), bind_of_ok (hr.eval σ), happly]
  rfl

end Computes

/-- Wrapping after every step is wrapping once at the end. -/
theorem bindExpr_computes (scopes : ScopeStack) : ∀ {e : Syntax.Expr}, e.isArithmetic = true →
    e.Canonical → (∀ t ∈ e.tokens, t.kind = .number →
      t.value = some (.int (.ofInt (Syntax.Expr.written t.text.toList)))) →
    Computes (bindExpr scopes e) e.exactValue
  | .literal t v, harith, hcanonical, hnumbers => by
    have hkind : t.kind = .number := by simpa [Syntax.Expr.isArithmetic] using harith
    have hv : v = t.value := by
      simpa [Syntax.Expr.Canonical, Syntax.literal?, hkind, eq_comm] using hcanonical
    rw [hnumbers t (by simp) hkind] at hv
    subst hv
    exact ⟨rfl, rfl, fun _ => rfl⟩
  | .unary op e, harith, hcanonical, hnumbers => by
    simp only [Syntax.Expr.isArithmetic, Bool.and_eq_true, decide_eq_true_eq] at harith
    have he := bindExpr_computes scopes harith.2 hcanonical.2.2 fun t ht =>
      hnumbers t (by simp [ht])
    unfold bindExpr
    rcases harith.1 with hop | hop
    · have hexact : (Syntax.Expr.unary op e).exactValue = e.exactValue := by
        simp [Syntax.Expr.exactValue, hop]
      refine he.unary ⟨.plus, .identity, .int, .int⟩ (by rw [hop]; rfl) rfl ?_
      rw [hexact]
      rfl
    · have hexact : (Syntax.Expr.unary op e).exactValue = -e.exactValue := by
        simp [Syntax.Expr.exactValue, hop]
      refine he.unary ⟨.minus, .negation, .int, .int⟩ (by rw [hop]; rfl) rfl ?_
      rw [hexact, Int32.ofInt_neg]
      rfl
  | .binary l op r, harith, hcanonical, hnumbers => by
    simp only [Syntax.Expr.isArithmetic, Bool.and_eq_true, decide_eq_true_eq] at harith
    obtain ⟨⟨hop, hl⟩, hr⟩ := harith
    have hlhs := bindExpr_computes scopes hl hcanonical.2.2.2.1 fun t ht =>
      hnumbers t (by simp [ht])
    have hrhs := bindExpr_computes scopes hr hcanonical.2.2.2.2 fun t ht =>
      hnumbers t (by simp [ht])
    unfold bindExpr
    rcases hop with hop | hop | hop
    · have hexact : (Syntax.Expr.binary l op r).exactValue = l.exactValue + r.exactValue := by
        simp [Syntax.Expr.exactValue, hop]
      refine hlhs.binary hrhs ⟨.plus, .addition, .int, .int, .int⟩ (by rw [hop]; rfl) rfl ?_
      rw [hexact, Int32.ofInt_add]
      rfl
    · have hexact : (Syntax.Expr.binary l op r).exactValue = l.exactValue - r.exactValue := by
        simp [Syntax.Expr.exactValue, hop]
      refine hlhs.binary hrhs ⟨.minus, .subtraction, .int, .int, .int⟩ (by rw [hop]; rfl) rfl ?_
      rw [hexact, Int32.ofInt_sub]
      rfl
    · have hexact : (Syntax.Expr.binary l op r).exactValue = l.exactValue * r.exactValue := by
        simp [Syntax.Expr.exactValue, hop]
      refine hlhs.binary hrhs ⟨.star, .multiplication, .int, .int, .int⟩ (by rw [hop]; rfl) rfl ?_
      rw [hexact, Int32.ofInt_mul]
      rfl
  | .paren o e c, harith, hcanonical, hnumbers => by
    have he := bindExpr_computes scopes (e := e) harith hcanonical.2.1 fun t ht =>
      hnumbers t (by simp [ht])
    exact ⟨he.reports, he.type, he.eval⟩
  | .name _, harith, _, _ => by cases harith
  | .assign _ _ _, harith, _, _ => by cases harith

/-! ## Texts -/

/-- What a clean text with an expression for its statement says of the expression. -/
theorem Syntax.Fragment.expr_of_clean {text : String}
    (hclean : (Fragment.parse text).diagnostics = []) {e : Syntax.Expr}
    (he : (Fragment.parse text).unit.stmt = .expr e) :
    lexicalReports text = [] ∧ e.Canonical ∧ e.tokens = significantTokens text := by
  obtain ⟨hlexical, hunit⟩ := List.append_eq_nil_iff.mp hclean
  have hkinds : ∀ t ∈ significantTokens text, t.kind ≠ .eof := fun t ht =>
    Token.tokens_kind_ne (List.mem_of_mem_filter ht)
  obtain ⟨hcanonical, htokens⟩ : (Fragment.parse text).unit.stmt.Canonical ∧
      (Fragment.parse text).unit.stmt.tokens = significantTokens text :=
    Syntax.parseUnit_reads hkinds hunit
  rw [he] at hcanonical htokens
  rw [Syntax.Stmt.tokens_expr] at htokens
  exact ⟨hlexical, hcanonical, htokens⟩

/-- A text that is read without fault as arithmetic evaluates without diagnostics, in every store
and after every chain that was bound without fault, to the word that the exact value wraps to. The
store stays as it was. -/
theorem arithmetic_wraps_once (text : String) (hclean : (Fragment.parse text).diagnostics = [])
    {e : Syntax.Expr} (he : (Fragment.parse text).unit.stmt = .expr e)
    (harith : e.isArithmetic = true) (chain : Chain)
    (hchain : Layer.diagnosticsOf (chain.map (·.layer)) = []) (limit : Nat) (store : Store) :
    ∃ r : Int32, (Link.after chain (Fragment.parse text)).evaluate limit store =
        .ok ⟨[], some (.int r)⟩ store ∧
      -2 ^ 31 ≤ r.toInt ∧ r.toInt < 2 ^ 31 ∧ r.toInt % 2 ^ 32 = e.exactValue % 2 ^ 32 := by
  obtain ⟨hlexical, hcanonical, htokens⟩ := Fragment.expr_of_clean hclean he
  have hcomputes :
      Computes (bindExpr ({} :: Layer.scopes (chain.map (·.layer))) e) e.exactValue := by
    refine bindExpr_computes _ harith hcanonical fun t ht hkind => ?_
    rw [htokens] at ht
    exact Token.value_of_number hlexical ht hkind
  have hlayer : (Link.after chain (Fragment.parse text)).layer.stmt =
      .expr (bindExpr ({} :: Layer.scopes (chain.map (·.layer))) e).tree := by
    simp only [Link.after, Layer.bind, he, Binding.bindStmt]
  have hdiagnostics : (Link.after chain (Fragment.parse text)).diagnostics = [] := by
    simp only [Link.diagnostics, Link.after, Layer.bind, he, Binding.bindStmt, hclean, hchain,
      hcomputes.reports, List.append_nil]
  refine ⟨.ofInt e.exactValue, ?_, Int32.le_toInt _, Int32.toInt_lt _, ?_⟩
  · have hrun : (Link.after chain (Fragment.parse text)).run limit store =
        .ok (some (.int (.ofInt e.exactValue))) store := by
      unfold Link.run Run.run
      rw [hlayer]
      unfold Run.exec
      rw [bind_of_ok (hcomputes.eval store)]
      rfl
    simp only [Link.evaluate, hdiagnostics, List.isEmpty_nil, if_true, hrun]
  · rw [Int32.toInt_ofInt]
    exact Int.bmod_emod

/-- Products far beyond a word wrap to a small number. -/
theorem large_products_wrap :
    let f := Fragment.parse "-(2147483647 * 2147483647 + 7) * 3 - +5"
    ∃ e, f.unit.stmt = .expr e ∧ e.isArithmetic = true ∧ e.exactValue = -13835058042397261853 ∧
      ∀ limit store, (Link.after [] f).evaluate limit store =
        .ok ⟨[], some (.int (-29))⟩ store := by
  intro f
  have hclean : f.diagnostics = [] := by decide +kernel
  have hexpr : (match f.unit.stmt with
      | .expr e => e.isArithmetic && e.exactValue == -13835058042397261853
      | _ => false) = true := by decide +kernel
  cases he : f.unit.stmt with
  | expr e =>
    simp only [he, Bool.and_eq_true, beq_iff_eq] at hexpr
    obtain ⟨harith, hexact⟩ := hexpr
    refine ⟨e, rfl, harith, hexact, fun limit store => ?_⟩
    obtain ⟨r, hr, hlower, hupper, hmod⟩ :=
      arithmetic_wraps_once _ hclean he harith [] rfl limit store
    rw [hexact] at hmod
    have hr29 : r = -29 := by
      apply Int32.toInt_inj.mp
      show r.toInt = -29
      omega
    rw [← hr29]
    exact hr
  | _ =>
    rw [he] at hexpr
    cases hexpr

end Scriptlet
