import Scriptlet.Proofs.Binding.Safe
import Scriptlet.Proofs.Binding.Sites
import Scriptlet.Proofs.Chain
import Scriptlet.Proofs.Lexical.Agreement
import Scriptlet.Proofs.Run.Limit
import Scriptlet.Proofs.Syntax.Inverse
import Scriptlet.Proofs.Token.Lexer

/-!
# Binding and running refine the interpreter with frames

A program that is bound without a fault, and in which no declaration takes up a slot of a variable
that is still open, comes out as the interpreter with frames says. Both runs go hand in hand, under
the same limit, and the store stands for the frames throughout.
-/

namespace Scriptlet.Lexical

open Binding
open Run (Exec Halt Store Coupled applyUnary applyBinary)
open Typed (Variable UnaryRow BinaryRow)

/-! ## Runs that mirror each other -/

inductive SameStop : Halt → Stop → Prop
  | divisionByZero (dividend : Int32) :
    SameStop (.divisionByZero dividend) (.divisionByZero dividend)
  | cutOff : SameStop .cutOff .cutOff

/-- From a store that stands for the frames, both runs end with one value, of which `p` holds, and
with a store that stands for the frames again; or both are stopped for the same reason. The open
scopes are `stack` before and `stack'` after. -/
def Mirrors {α : Type} (stack stack' : ScopeStack) (p : α → Prop) (m : Exec α) (m' : Interp α) :
    Prop :=
  Coupled (fun σ frames => Agrees σ stack frames) m m'
    (fun a a' σ frames => a = a' ∧ p a ∧ Agrees σ stack' frames) (fun h h' _ _ => SameStop h h')

namespace Mirrors

variable {α β : Type} {stack stack' stack'' : ScopeStack} {p : α → Prop} {q : β → Prop}

theorem pure {a : α} (ha : p a) : Mirrors stack stack p (Pure.pure a) (Pure.pure a) :=
  fun _ _ h => ⟨rfl, ha, h⟩

theorem bind {m : Exec α} {m' : Interp α} {f : α → Exec β} {f' : α → Interp β}
    (hm : Mirrors stack stack' p m m') (hf : ∀ a, p a → Mirrors stack' stack'' q (f a) (f' a)) :
    Mirrors stack stack'' q (m >>= f) (m' >>= f') := by
  refine Coupled.bind hm fun a a' => Coupled.of_imp fun ha => ?_
  subst ha
  exact Coupled.of_imp fun ha => hf a ha

/-- A run with a frame of its own, which holds what the innermost scope declares. -/
theorem within {P : Store → List Frame → Prop} {scope scope' : Scope} {frame : Frame}
    {m : Exec α} {m' : Interp α} (h : Mirrors (scope :: stack) (scope' :: stack) p m m')
    (hstart : ∀ σ frames, P σ frames → Agrees σ (scope :: stack) (frame :: frames)) :
    Coupled P m (within frame m') (fun a a' σ frames => a = a' ∧ p a ∧ Agrees σ stack frames)
      (fun h h' _ _ => SameStop h h') := by
  intro σ frames hP
  have hrun := h σ (frame :: frames) (hstart σ frames hP)
  have hwithin : Lexical.within frame m' frames = match m' (frame :: frames) with
      | .ok a frames' => .ok a frames'.tail
      | .error stop frames' => .error stop frames' := by
    show EStateM.bind m' (fun a => do modify List.tail; return a) (frame :: frames) = _
    unfold EStateM.bind
    cases m' (frame :: frames) with
    | ok a frames' => rfl
    | error stop frames' => rfl
  rw [hwithin]
  cases hm : m σ with
  | ok a σ' =>
    cases hm' : m' (frame :: frames) with
    | ok a' frames' =>
      rw [hm, hm'] at hrun
      obtain ⟨ha, hp, hagrees⟩ := hrun
      cases hagrees with
      | cons _ houter => exact ⟨ha, hp, houter⟩
    | error stop frames' => rw [hm, hm'] at hrun; exact hrun
  | error halt σ' =>
    cases hm' : m' (frame :: frames) with
    | ok a' frames' => rw [hm, hm'] at hrun; exact hrun
    | error stop frames' => rw [hm, hm'] at hrun; exact hrun

theorem within_empty {scope' : Scope} {m : Exec α} {m' : Interp α}
    (h : Mirrors ({} :: stack) (scope' :: stack) p m m') :
    Mirrors stack stack p m (Lexical.within [] m') :=
  within h fun σ _ hagrees => .cons (FrameAgrees.empty σ) hagrees

end Mirrors

/-! ## Operators -/

def relay {α : Type} : Except Halt α → Interp α
  | .ok a => pure a
  | .error (.divisionByZero dividend) => throw (.divisionByZero dividend)
  | .error _ => throw .meaningless

theorem unary_eq {row : UnaryRow} (hrow : row ∈ UnaryRow.all) {v : Value}
    (hv : v.type = row.operand) : unary row.sign v = relay (applyUnary row.op v) := by
  simp only [UnaryRow.all, List.mem_cons, List.not_mem_nil, or_false] at hrow
  rcases hrow with rfl | rfl | rfl <;> cases v <;> cases hv <;> rfl

theorem onBools_eq : ∀ row ∈ BinaryRow.all, row.lhs = .bool → ∀ a b,
    onBools a b row.sign = relay (applyBinary row.op (.bool a) (.bool b)) := by
  intro row hrow hl a b
  simp only [BinaryRow.all, List.mem_cons, List.not_mem_nil, or_false] at hrow
  rcases hrow with rfl | rfl | rfl | rfl | rfl | rfl | rfl | rfl | rfl | rfl | rfl | rfl | rfl |
    rfl | rfl | rfl | rfl | rfl | rfl | rfl <;> cases hl <;> cases a <;> cases b <;> rfl

theorem onInts_slash (a b : Int32) :
    onInts a b .slash = relay (Run.divide (.int a) (.int b)) := by
  rw [Run.divide_ints]
  unfold onInts
  by_cases hb : b = 0
  · rw [if_pos hb, if_pos hb]
    rfl
  · rw [if_neg hb, if_neg hb]
    rfl

theorem onInts_eqEq (a b : Int32) :
    onInts a b .eqEq = pure (.bool (Value.int a = Value.int b)) := by
  have h : (Value.int a = Value.int b) = (a = b) := by simp
  simp only [h]
  rfl

theorem onInts_bangEq (a b : Int32) :
    onInts a b .bangEq = pure (.bool (Value.int a ≠ Value.int b)) := by
  have h : (Value.int a ≠ Value.int b) = (a ≠ b) := by simp
  simp only [h]
  rfl

theorem onInts_eq : ∀ row ∈ BinaryRow.all, row.lhs = .int → ∀ a b,
    onInts a b row.sign = relay (applyBinary row.op (.int a) (.int b)) := by
  intro row hrow hl a b
  simp only [BinaryRow.all, List.mem_cons, List.not_mem_nil, or_false] at hrow
  rcases hrow with rfl | rfl | rfl | rfl | rfl | rfl | rfl | rfl | rfl | rfl | rfl | rfl | rfl |
    rfl | rfl | rfl | rfl | rfl | rfl | rfl <;> cases hl
  -- only division looks at its operands, and equality is that of values there
  all_goals try rfl
  · exact onInts_slash a b
  · exact onInts_eqEq a b
  · exact onInts_bangEq a b

theorem binary_eq {row : BinaryRow} (hrow : row ∈ BinaryRow.all) {a b : Value}
    (ha : a.type = row.lhs) (hb : b.type = row.rhs) :
    binary row.sign a b = relay (applyBinary row.op a b) := by
  rw [← Run.lhs_eq_rhs row hrow] at hb
  cases hl : row.lhs with
  | int =>
    rw [hl] at ha hb
    cases a with | bool _ => cases ha | int x =>
    cases b with | bool _ => cases hb | int y =>
    exact onInts_eq row hrow hl x y
  | bool =>
    rw [hl] at ha hb
    cases a with | int _ => cases ha | bool x =>
    cases b with | int _ => cases hb | bool y =>
    exact onBools_eq row hrow hl x y

theorem unary_mirrors {stack : ScopeStack} {row : UnaryRow} (hrow : row ∈ UnaryRow.all) {v : Value}
    (hv : v.type = row.operand) :
    Mirrors stack stack (·.type = row.type) (Run.ofExcept (applyUnary row.op v))
      (unary row.sign v) := by
  rw [unary_eq hrow hv]
  obtain ⟨w, hw, htype⟩ := Run.applyUnary_typed hrow hv
  rw [hw]
  exact Mirrors.pure htype

theorem binary_mirrors {stack : ScopeStack} {row : BinaryRow} (hrow : row ∈ BinaryRow.all)
    {a b : Value} (ha : a.type = row.lhs) (hb : b.type = row.rhs) :
    Mirrors stack stack (·.type = row.type) (Run.ofExcept (applyBinary row.op a b))
      (binary row.sign a b) := by
  rw [binary_eq hrow ha hb]
  rcases Run.applyBinary_typed hrow ha hb with ⟨w, hw, htype⟩ | ⟨n, hn⟩
  · rw [hw]
    exact Mirrors.pure htype
  · rw [hn]
    exact fun _ _ _ => SameStop.divisionByZero n

/-! ## Expressions -/

/-- The name that a token is to binding: a placeholder is none. -/
def present? (t : Token) : Option String := if t.isMissing then none else some t.text

theorem present?_of_missing {t : Token} (h : t.isMissing = true) : present? t = none := by
  simp [present?, h]

theorem present?_of_present {t : Token} (h : t.isMissing = false) : present? t = some t.text := by
  simp [present?, h]

section
variable {stack : ScopeStack}

theorem read_mirrors {name : String} {v : Variable} (hv : stack.find? name = some v) :
    Mirrors stack stack (·.type = v.type) (Run.eval (.read v)) (read name) := by
  intro σ frames hagrees
  obtain ⟨value, hread, hget, htype⟩ := hagrees.read? hv
  have hrun : read name frames = .ok value frames := by
    show orMeaningless (read? name frames) frames = _
    rw [hread]
    rfl
  rw [Run.eval_read, hget, hrun]
  exact ⟨rfl, htype, hagrees⟩

theorem assign_mirrors (hapart : stack.Apart) {name : String} {v : Variable}
    (hv : stack.find? name = some v) {value : Value} (htype : value.type = v.type) :
    Mirrors stack stack (fun _ => True) (Run.assign v.slot value) (assign name value) := by
  intro σ frames hagrees
  obtain ⟨frames', hwrite, hagrees'⟩ := hagrees.write? hapart hv htype
  have hrun : assign name value frames = .ok () frames' := by
    show (do set (← orMeaningless (write? name value frames)) : Interp Unit) frames = _
    rw [hwrite]
    rfl
  rw [hrun]
  exact ⟨rfl, trivial, hagrees'⟩

theorem eval_mirrors (hapart : stack.Apart) : ∀ {e : Syntax.Expr}, (bindExpr stack e).reports = [] →
    Mirrors stack stack (·.type = (bindExpr stack e).tree.type)
      (Run.eval (bindExpr stack e).tree) (eval present? e)
  | .literal _ value, _ => Mirrors.pure rfl
  | .unary op operand, h => by
    obtain ⟨hoperand, row, hrow, htree⟩ := bindUnary_clean h
    obtain ⟨hmem, hsign, htype⟩ := unaryRow_find? hrow
    have hbound : (bindExpr stack (.unary op operand)).tree =
        .unary row (bindExpr stack operand).tree := htree
    rw [hbound]
    unfold Run.eval eval
    refine (eval_mirrors hapart hoperand).bind fun v hv => ?_
    rw [← hsign]
    exact unary_mirrors hmem (hv.trans htype.symm)
  | .binary lhs op rhs, h => by
    obtain ⟨hlhs, hrhs, row, hrow, htree⟩ := bindBinary_clean h
    obtain ⟨hmem, hsign, hl, hr⟩ := binaryRow_find? hrow
    have hbound : (bindExpr stack (.binary lhs op rhs)).tree =
        .binary (bindExpr stack lhs).tree row (bindExpr stack rhs).tree := htree
    rw [hbound]
    unfold Run.eval eval
    refine (eval_mirrors hapart hlhs).bind fun a ha => ?_
    refine (eval_mirrors hapart hrhs).bind fun b hb => ?_
    rw [← hsign]
    exact binary_mirrors hmem (ha.trans hl.symm) (hb.trans hr.symm)
  | .paren _ inner _, h => by
    exact eval_mirrors hapart (e := inner) h
  | .name ident, h => by
    cases hm : ident.isMissing with
    | true =>
      have hbound : (bindExpr stack (.name ident)).tree = zero := by
        unfold bindExpr bindName
        rw [hm]
        rfl
      rw [hbound]
      unfold eval
      rw [present?_of_missing hm]
      exact Mirrors.pure rfl
    | false =>
      obtain ⟨v, hv, htree⟩ := bindName_clean hm h
      have hbound : (bindExpr stack (.name ident)).tree = .read v := htree
      rw [hbound]
      unfold eval
      rw [present?_of_present hm]
      exact read_mirrors hv
  | .assign ident eq rhs, h => by
    obtain ⟨hrhs, v, hv, _, htype, htree⟩ := bindAssign_clean h
    have hbound : (bindExpr stack (.assign ident eq rhs)).tree =
        .assign v (bindExpr stack rhs).tree := htree
    rw [hbound]
    unfold Run.eval eval
    refine (eval_mirrors hapart hrhs).bind fun value hvalue => ?_
    refine (assign_mirrors hapart hv (hvalue.trans htype)).bind fun _ _ => ?_
    exact Mirrors.pure hvalue

theorem evalInt_mirrors (hapart : stack.Apart) {e : Syntax.Expr}
    (h : (bindExprAs stack .int e).reports = []) :
    Mirrors stack stack (fun _ => True) (Run.evalInt (bindExprAs stack .int e).tree)
      (evalInt present? e) := by
  obtain ⟨he, htype⟩ := bindExprAs_clean h
  rw [bindExprAs_tree]
  refine (eval_mirrors hapart he).bind fun v hv => ?_
  cases v with
  | int n => exact Mirrors.pure trivial
  | bool b => rw [htype] at hv; cases hv

theorem evalBool_mirrors (hapart : stack.Apart) {e : Syntax.Expr}
    (h : (bindExprAs stack .bool e).reports = []) :
    Mirrors stack stack (fun _ => True) (Run.evalBool (bindExprAs stack .bool e).tree)
      (evalBool present? e) := by
  obtain ⟨he, htype⟩ := bindExprAs_clean h
  rw [bindExprAs_tree]
  refine (eval_mirrors hapart he).bind fun v hv => ?_
  cases v with
  | bool b => exact Mirrors.pure trivial
  | int n => rw [htype] at hv; cases hv

/-! ## Loops -/

theorem whileLoop_mirrors {cond : Exec Bool} {cond' : Interp Bool}
    {body : Option Value → Exec (Option Value)} {body' : Option Value → Interp (Option Value)}
    (hcond : Mirrors stack stack (fun _ => True) cond cond')
    (hbody : ∀ last, Mirrors stack stack (fun _ => True) (body last) (body' last)) :
    ∀ n last, Mirrors stack stack (fun _ => True) (Run.whileLoop cond body n last)
      (whileLoop cond' body' n last)
  | 0, _ => fun _ _ _ => SameStop.cutOff
  | n + 1, last => by
    unfold Run.whileLoop whileLoop
    refine hcond.bind fun b _ => ?_
    cases b with
    | true => exact (hbody last).bind fun last _ => whileLoop_mirrors hcond hbody n last
    | false => exact Mirrors.pure trivial

theorem forLoop_mirrors {slot : Typed.Slot} {body : Option Value → Exec (Option Value)}
    {body' : Value → Option Value → Interp (Option Value)}
    (hround : ∀ k last, Mirrors stack stack (fun _ => True)
      (do Run.assign slot (.int k); body last) (body' (.int k) last)) :
    ∀ n k last, Mirrors stack stack (fun _ => True) (Run.forLoop slot body n k last)
      (forLoop body' n k last)
  | 0, _, _ => Mirrors.pure trivial
  | n + 1, k, last => by
    unfold Run.forLoop forLoop
    rw [← bind_assoc]
    exact (hround (.ofInt k) last).bind fun last _ => forLoop_mirrors hround n (k + 1) last

end

/-! ## Statements -/

section
variable {outer : ScopeStack} {scope : Scope} {ident : Token} {v : Variable}

theorem declareIn_apart (hapart : ScopeStack.Apart (scope :: outer))
    (hv : ScopeStack.Avoids (scope :: outer) v.slot) (ident : Token) :
    ScopeStack.Apart ((declareIn scope ident v).1 :: outer) := by
  rcases declareIn_scope scope ident v with h | ⟨_, h⟩
  · rw [h]
    exact hapart
  · rw [h]
    exact hapart.declare hv

theorem declareIn_agrees {σ : Store} {frame : Frame} {frames : List Frame}
    (hagrees : Agrees σ (scope :: outer) (frame :: frames))
    (hclean : (declareIn scope ident v).2 = []) (hname : v.name = ident.text)
    (hv : ScopeStack.Avoids (scope :: outer) v.slot) {value : Value} (htype : value.type = v.type) :
    Agrees (σ.set v.slot value) ((declareIn scope ident v).1 :: outer)
      ((single present? ident value ++ frame) :: frames) := by
  obtain ⟨hscope, houter⟩ := List.forall_mem_cons.mp hv
  cases hm : ident.isMissing with
  | true =>
    have hkept : (declareIn scope ident v).1 = scope := by
      unfold declareIn
      rw [hm]
      rfl
    rw [hkept]
    simp only [single, present?_of_missing hm, Option.toList_none, List.map_nil, List.nil_append]
    exact hagrees.set_avoided hv value
  | false =>
    obtain ⟨hnew, hscope'⟩ := declareIn_clean hclean hm
    rw [hscope']
    simp only [single, present?_of_present hm, Option.toList_some, List.map_cons, List.map_nil,
      List.singleton_append, ← hname]
    cases hagrees with
    | cons hframe hframes =>
      exact .cons (hframe.declare hnew hscope htype) (hframes.set_avoided houter value)

end

end Scriptlet.Lexical

namespace Scriptlet.Binding

/-- What is declared at the site takes up no slot of a variable that is open there. In a program
without a fault only scopes further out can hold such a variable. -/
def Site.Fresh (site : Site) : Prop := ∀ v ∈ site.declares?, site.scopes.Avoids v.slot

instance (site : Site) : Decidable site.Fresh :=
  inferInstanceAs (Decidable (∀ v ∈ site.declares?, site.scopes.Avoids v.slot))

theorem bindStmt_apart {outer : ScopeStack} {scope : Scope} (hapart : ScopeStack.Apart (scope :: outer))
    {s : Syntax.Stmt} (hfresh : Site.Fresh ⟨scope :: outer, .stmt s⟩) :
    ScopeStack.Apart ((bindStmt outer scope s).scope :: outer) := by
  cases s with
  | decl keyword ident eq init => exact Lexical.declareIn_apart hapart (hfresh _ rfl) ident
  | _ => exact hapart

end Scriptlet.Binding

namespace Scriptlet.Lexical

open Binding
open Run (Exec Halt Store)

theorem decl_mirrors {outer : ScopeStack} {scope : Scope} {keyword ident eq : Token}
    {init : Syntax.Expr} (hapart : ScopeStack.Apart (scope :: outer))
    (hclean : (bindStmt outer scope (.decl keyword ident eq init)).reports = [])
    (hfresh : Site.Fresh ⟨scope :: outer, .stmt (.decl keyword ident eq init)⟩) (limit : Nat)
    (last : Option Value) :
    Mirrors (scope :: outer) ((bindStmt outer scope (.decl keyword ident eq init)).scope :: outer)
      (fun _ => True) (Run.exec limit (bindStmt outer scope (.decl keyword ident eq init)).tree last)
      (exec present? limit (.decl keyword ident eq init) last) := by
  obtain ⟨hinit, hdeclare⟩ := bindDecl_clean hclean
  unfold exec bindStmt Run.exec
  refine (eval_mirrors hapart hinit).bind fun value hvalue => ?_
  intro σ frames hagrees
  cases hagrees with
  | @cons _ frame _ frames hframe hframes =>
    have hopen : Agrees σ (scope :: outer) (frame :: frames) := .cons hframe hframes
    exact ⟨rfl, trivial, declareIn_agrees hopen hdeclare rfl (hfresh _ rfl) hvalue⟩

theorem round_mirrors {stack : ScopeStack} {ident : Token}
    (hclean : (declareIn {} ident ⟨ident.text, false, .int⟩).2 = [])
    (hfresh : stack.Avoids ⟨ident.text, .int⟩) {scope' : Scope} {m : Exec (Option Value)}
    {m' : Interp (Option Value)}
    (h : Mirrors ((declareIn {} ident ⟨ident.text, false, .int⟩).1 :: stack) (scope' :: stack)
      (fun _ => True) m m') (k : Int32) :
    Mirrors stack stack (fun _ => True) (do Run.assign ⟨ident.text, .int⟩ (.int k); m)
      (within (single present? ident (.int k)) m') := by
  let v : Typed.Variable := ⟨ident.text, false, .int⟩
  intro σ frames hagrees
  have hopen : Agrees σ ({} :: stack) ([] :: frames) := .cons (FrameAgrees.empty σ) hagrees
  have havoids : ScopeStack.Avoids ({} :: stack) v.slot :=
    List.forall_mem_cons.mpr ⟨fun _ hw => absurd hw List.not_mem_nil, hfresh⟩
  have hstart : Agrees (σ.set v.slot (.int k)) ((declareIn {} ident v).1 :: stack)
      ((single present? ident (.int k) ++ []) :: frames) :=
    declareIn_agrees hopen hclean rfl havoids rfl
  rw [List.append_nil] at hstart
  refine Mirrors.within (P := fun σ' frames' => σ' = σ.set v.slot (.int k) ∧ frames' = frames) h ?_
    (σ.set v.slot (.int k)) frames ⟨rfl, rfl⟩
  intro σ' frames' hstate
  obtain ⟨hσ, hframes⟩ := hstate
  rw [hσ, hframes]
  exact hstart

-- By induction on the syntax tree. The scopes that binding opens and the frames that the interpreter
-- pushes go in step, and both runs make the same rounds, so one limit serves both.

mutual

theorem exec_mirrors (limit : Nat) : ∀ {outer : ScopeStack} {scope : Scope} {s : Syntax.Stmt},
    ScopeStack.Apart (scope :: outer) → (bindStmt outer scope s).reports = [] →
      (∀ site ∈ stmtSites outer scope s, site.Fresh) → ∀ last,
        Mirrors (scope :: outer) ((bindStmt outer scope s).scope :: outer) (fun _ => True)
          (Run.exec limit (bindStmt outer scope s).tree last) (exec present? limit s last)
  | _, _, .block _ body _, hapart, hclean, hfresh, last => by
    unfold stmtSites at hfresh
    unfold exec bindStmt Run.exec
    have hbody := (List.forall_mem_cons.mp hfresh).2
    exact (execBody_mirrors limit body hapart.enter hclean hbody last).within_empty
  | outer, scope, .expr e, hapart, hclean, _, last => by
    unfold exec bindStmt Run.exec
    have he : (bindExpr (scope :: outer) e).reports = [] := hclean
    exact (eval_mirrors hapart he).bind fun _ _ => Mirrors.pure trivial
  | _, _, .decl keyword ident eq init, hapart, hclean, hfresh, last => by
    unfold stmtSites at hfresh
    exact decl_mirrors hapart hclean (List.forall_mem_cons.mp hfresh).1 limit last
  | _, _, .ifThen _ cond yes, hapart, hclean, hfresh, last => by
    unfold stmtSites at hfresh
    unfold exec bindStmt Run.exec
    obtain ⟨hcond, hyes⟩ := bindIfThen_clean hclean
    have hyes' := (List.forall_mem_append.mp (List.forall_mem_cons.mp hfresh).2).2
    refine (evalBool_mirrors hapart hcond).bind fun b _ => ?_
    cases b with
    | true => exact (exec_mirrors limit hapart.enter hyes hyes' last).within_empty
    | false => exact Mirrors.pure trivial
  | _, _, .ifElse _ cond yes _ no, hapart, hclean, hfresh, last => by
    unfold stmtSites at hfresh
    unfold exec bindStmt Run.exec
    obtain ⟨hcond, hyes, hno⟩ := bindIfElse_clean hclean
    have hbranches := (List.forall_mem_append.mp (List.forall_mem_cons.mp hfresh).2).2
    obtain ⟨hyes', hno'⟩ := List.forall_mem_append.mp hbranches
    refine (evalBool_mirrors hapart hcond).bind fun b _ => ?_
    cases b with
    | true => exact (exec_mirrors limit hapart.enter hyes hyes' last).within_empty
    | false => exact (exec_mirrors limit hapart.enter hno hno' last).within_empty
  | _, _, .while _ cond body, hapart, hclean, hfresh, last => by
    unfold stmtSites at hfresh
    unfold exec bindStmt Run.exec
    obtain ⟨hcond, hbody⟩ := bindWhile_clean hclean
    have hbody' := (List.forall_mem_append.mp (List.forall_mem_cons.mp hfresh).2).2
    refine whileLoop_mirrors (evalBool_mirrors hapart hcond) (fun last => ?_) limit last
    exact (exec_mirrors limit hapart.enter hbody hbody' last).within_empty
  | outer, scope, .for _ ident _ lower _ upper body, hapart, hclean, hfresh, last => by
    unfold stmtSites at hfresh
    unfold exec bindStmt Run.exec
    obtain ⟨hlower, hupper, hdeclare, hbody⟩ := bindFor_clean hclean
    obtain ⟨hself, hparts⟩ := List.forall_mem_cons.mp hfresh
    have hbody' := (List.forall_mem_append.mp (List.forall_mem_append.mp hparts).2).2
    have havoids : ScopeStack.Avoids (scope :: outer) ⟨ident.text, .int⟩ := hself _ rfl
    have hinner : ScopeStack.Apart
        ((declareIn {} ident ⟨ident.text, false, .int⟩).1 :: scope :: outer) := by
      refine declareIn_apart hapart.enter ?_ ident
      exact List.forall_mem_cons.mpr ⟨fun _ hw => absurd hw List.not_mem_nil, havoids⟩
    refine (evalInt_mirrors hapart hlower).bind fun lo _ => ?_
    refine (evalInt_mirrors hapart hupper).bind fun hi _ => ?_
    refine forLoop_mirrors (fun k last => ?_) _ _ last
    exact round_mirrors hdeclare havoids (exec_mirrors limit hinner hbody hbody' last) k

theorem execBody_mirrors (limit : Nat) : ∀ {outer : ScopeStack} {scope : Scope}
    (ss : List Syntax.Stmt), ScopeStack.Apart (scope :: outer) →
      (bindBody outer scope ss).reports = [] → (∀ site ∈ bodySites outer scope ss, site.Fresh) →
        ∀ last, Mirrors (scope :: outer) ((bindBody outer scope ss).scope :: outer) (fun _ => True)
          (Run.execBody limit (bindBody outer scope ss).tree last) (execBody present? limit ss last)
  | _, _, [], _, _, _, last => Mirrors.pure trivial
  | outer, scope, s :: ss, hapart, hclean, hfresh, last => by
    unfold bodySites at hfresh
    unfold execBody bindBody Run.execBody
    obtain ⟨hs, hss⟩ := bindBody_clean hclean
    obtain ⟨hs', hss'⟩ := List.forall_mem_append.mp (List.forall_mem_cons.mp hfresh).2
    have hself : Site.Fresh ⟨scope :: outer, .stmt s⟩ := by
      unfold stmtSites at hs'
      exact (List.forall_mem_cons.mp hs').1
    refine (exec_mirrors limit hapart hs hs' last).bind fun last _ => ?_
    exact execBody_mirrors limit ss (bindStmt_apart hapart hself) hss hss' last

end

/-! ## Programs -/

open Syntax (Fragment)

def SameOutcome : EStateM.Result Halt Store Evaluation → Except Stop (Option Value) → Prop
  | .ok evaluation _, .ok value => evaluation = ⟨[], value⟩
  | .error halt _, .error stop => SameStop halt stop
  | _, _ => False

theorem SameOutcome.ok_iff {r : EStateM.Result Halt Store Evaluation}
    {outcome : Except Stop (Option Value)} (h : SameOutcome r outcome) (value : Option Value) :
    (∃ store, r = .ok ⟨[], value⟩ store) ↔ outcome = .ok value := by
  cases r with
  | ok evaluation store =>
    cases outcome with
    | ok value' =>
      have hevaluation : evaluation = ⟨[], value'⟩ := h
      simp [hevaluation]
    | error stop => exact h.elim
  | error halt store =>
    cases outcome with
    | ok value' => exact h.elim
    | error stop => simp

theorem SameOutcome.division_iff {r : EStateM.Result Halt Store Evaluation}
    {outcome : Except Stop (Option Value)} (h : SameOutcome r outcome) (dividend : Int32) :
    (∃ store, r = .error (.divisionByZero dividend) store) ↔
      outcome = .error (.divisionByZero dividend) := by
  cases r with
  | ok evaluation store =>
    cases outcome with
    | ok value' => simp
    | error stop => exact h.elim
  | error halt store =>
    cases outcome with
    | ok value' => exact h.elim
    | error stop =>
      have hstop : SameStop halt stop := h
      cases hstop with
      | divisionByZero n => simp
      | cutOff => simp

theorem evaluate_mirrors {text : String}
    (hclean : (Link.after [] (Fragment.parse text)).diagnostics = [])
    (hfresh : ∀ site ∈ stmtSites [] {} (Fragment.parse text).unit.stmt, site.Fresh) (limit : Nat) :
    SameOutcome ((Link.after [] (Fragment.parse text)).evaluate limit {})
      (run present? limit (Fragment.parse text).unit.stmt) := by
  have hreports : (bindStmt [] {} (Fragment.parse text).unit.stmt).reports = [] :=
    (List.append_eq_nil_iff.mp hclean).2
  have hapart : ScopeStack.Apart [{}] := ScopeStack.Apart.enter List.Pairwise.nil
  have hmirrors := exec_mirrors limit hapart hreports hfresh none {} [[]]
    (.cons (FrameAgrees.empty {}) .nil)
  have htree : (Link.after [] (Fragment.parse text)).layer.stmt =
      (bindStmt [] {} (Fragment.parse text).unit.stmt).tree := rfl
  unfold Link.evaluate Link.run Run.run run
  rw [if_pos (List.isEmpty_iff.mpr hclean), htree]
  cases hr : Run.exec limit (bindStmt [] {} (Fragment.parse text).unit.stmt).tree none {} with
  | ok value store =>
    cases hr' : exec present? limit (Fragment.parse text).unit.stmt none [[]] with
    | ok value' frames =>
      rw [hr, hr'] at hmirrors
      exact congrArg (Evaluation.mk []) hmirrors.1
    | error stop frames => rw [hr, hr'] at hmirrors; exact hmirrors
  | error halt store =>
    cases hr' : exec present? limit (Fragment.parse text).unit.stmt none [[]] with
    | ok value' frames => rw [hr, hr'] at hmirrors; exact hmirrors
    | error stop frames => rw [hr, hr'] at hmirrors; exact hmirrors

/-! ## Names -/

section
variable {names names' : Token → Option String}

theorem eval_congr : ∀ {e : Syntax.Expr}, (∀ t ∈ e.tokens, names t = names' t) →
    eval names e = eval names' e
  | .literal _ _, _ => rfl
  | .unary op operand, h => by
    rw [Syntax.Expr.tokens_unary, List.forall_mem_cons] at h
    unfold eval
    rw [eval_congr h.2]
  | .binary lhs op rhs, h => by
    rw [Syntax.Expr.tokens_binary, List.forall_mem_append, List.forall_mem_cons] at h
    unfold eval
    rw [eval_congr h.1, eval_congr h.2.2]
  | .paren _ inner _, h => by
    rw [Syntax.Expr.tokens_paren, List.forall_mem_cons, List.forall_mem_append] at h
    unfold eval
    exact eval_congr h.2.1
  | .name ident, h => by
    unfold eval
    rw [h ident (by simp)]
  | .assign ident eq rhs, h => by
    rw [Syntax.Expr.tokens_assign, List.forall_mem_cons, List.forall_mem_cons] at h
    unfold eval
    rw [eval_congr h.2.2]

theorem evalInt_congr {e : Syntax.Expr} (h : ∀ t ∈ e.tokens, names t = names' t) :
    evalInt names e = evalInt names' e := by
  rw [evalInt, evalInt, eval_congr h]

theorem evalBool_congr {e : Syntax.Expr} (h : ∀ t ∈ e.tokens, names t = names' t) :
    evalBool names e = evalBool names' e := by
  rw [evalBool, evalBool, eval_congr h]

mutual

/-- A run depends on the names of the tokens in the tree alone. -/
theorem exec_congr (limit : Nat) : ∀ {s : Syntax.Stmt}, (∀ t ∈ s.tokens, names t = names' t) →
    exec names limit s = exec names' limit s
  | .block _ body _, h => by
    simp only [Syntax.Stmt.tokens_block, List.forall_mem_cons, List.forall_mem_append] at h
    funext last
    unfold exec
    rw [execBody_congr limit h.2.1]
  | .expr e, h => by
    rw [Syntax.Stmt.tokens_expr] at h
    funext last
    unfold exec
    rw [eval_congr h]
  | .decl _ ident _ init, h => by
    simp only [Syntax.Stmt.tokens_decl, List.forall_mem_cons] at h
    obtain ⟨_, hident, _, hinit⟩ := h
    funext last
    unfold exec single
    rw [hident, eval_congr hinit]
  | .ifThen _ cond yes, h => by
    simp only [Syntax.Stmt.tokens_ifThen, List.forall_mem_cons, List.forall_mem_append] at h
    obtain ⟨_, hcond, hyes⟩ := h
    funext last
    unfold exec
    rw [evalBool_congr hcond, exec_congr limit hyes]
  | .ifElse _ cond yes _ no, h => by
    simp only [Syntax.Stmt.tokens_ifElse, List.forall_mem_cons, List.forall_mem_append] at h
    obtain ⟨_, hcond, hyes, _, hno⟩ := h
    funext last
    unfold exec
    rw [evalBool_congr hcond, exec_congr limit hyes, exec_congr limit hno]
  | .while _ cond body, h => by
    simp only [Syntax.Stmt.tokens_while, List.forall_mem_cons, List.forall_mem_append] at h
    obtain ⟨_, hcond, hbody⟩ := h
    funext last
    unfold exec
    rw [evalBool_congr hcond, exec_congr limit hbody]
  | .for _ ident _ lower _ upper body, h => by
    simp only [Syntax.Stmt.tokens_for, List.forall_mem_cons, List.forall_mem_append] at h
    obtain ⟨_, hident, _, hlower, _, hupper, hbody⟩ := h
    funext last
    unfold exec single
    rw [hident, evalInt_congr hlower, evalInt_congr hupper, exec_congr limit hbody]

theorem execBody_congr (limit : Nat) : ∀ {ss : List Syntax.Stmt},
    (∀ t ∈ ss.flatMap Syntax.Stmt.tokens, names t = names' t) →
    execBody names limit ss = execBody names' limit ss
  | [], _ => rfl
  | s :: ss, h => by
    rw [List.flatMap_cons, List.forall_mem_append] at h
    funext last
    unfold execBody
    rw [exec_congr limit h.1, execBody_congr limit h.2]

end

theorem endsIn_congr {s : Syntax.Stmt} (h : ∀ t ∈ s.tokens, names t = names' t)
    (outcome : Except Stop (Option Value)) : EndsIn names s outcome ↔ EndsIn names' s outcome := by
  simp only [EndsIn, run, exec_congr _ h]

end

/-- A text without a fault has no placeholder, unless it is so long that lengths wrap. -/
theorem tokens_spelled {text : String} (hlen : Text.byteLength text.toList < Span.lengthBound)
    (hclean : (Fragment.parse text).diagnostics = []) :
    ∀ t ∈ (Fragment.parse text).unit.stmt.tokens, present? t = some t.text := by
  have hkinds : ∀ t ∈ Token.significantTokens text, t.kind ≠ .eof := fun t ht =>
    Token.tokens_kind_ne (List.mem_of_mem_filter ht)
  have htokens : (Fragment.parse text).unit.stmt.tokens = Token.significantTokens text :=
    (Syntax.parseUnit_reads hkinds (List.append_eq_nil_iff.mp hclean).2).2
  intro t ht
  rw [htokens] at ht
  exact present?_of_present (Token.tokens_present hlen (List.mem_of_mem_filter ht))

/-- The program ends with a value, or dividing by zero, just if the interpreter with frames does,
and with the same value or dividend. -/
structure Refines (l : Link) (names : Token → Option String) : Prop where
  value : ∀ value, (∃ store, l.EndsIn {} (.ok ⟨[], value⟩ store)) ↔
    EndsIn names l.fragment.unit.stmt (.ok value)
  division : ∀ dividend, (∃ store, l.EndsIn {} (.error (.divisionByZero dividend) store)) ↔
    EndsIn names l.fragment.unit.stmt (.error (.divisionByZero dividend))

/-- A program without a fault, in which no declaration takes up a slot of a variable that is still
open, refines the interpreter with frames. In a text where lengths do not wrap every token is the
name that it spells; elsewhere one of no length is none, as it is to binding. -/
theorem evaluate_refines_frames (text : String)
    (hclean : (Link.after [] (Fragment.parse text)).diagnostics = [])
    (hfresh : ∀ site ∈ stmtSites [] {} (Fragment.parse text).unit.stmt, site.Fresh) :
    let l := Link.after [] (Fragment.parse text)
    Refines l present? ∧
      (Text.byteLength text.toList < 2 ^ 32 → Refines l fun t => some t.text) := by
  intro l
  have hsame : ∀ n, SameOutcome (l.evaluate n {}) (run present? n l.fragment.unit.stmt) :=
    evaluate_mirrors hclean hfresh
  have hpresent : Refines l present? := by
    constructor
    · intro value
      rw [l.exists_endsIn_iff {} fun _ _ h => by cases h]
      simp only [fun n => (hsame n).ok_iff value]
      rfl
    · intro dividend
      rw [l.exists_endsIn_iff {} fun _ _ h => by cases h]
      simp only [fun n => (hsame n).division_iff dividend]
      rfl
  refine ⟨hpresent, fun hlen => ?_⟩
  have hnames := tokens_spelled hlen (List.append_eq_nil_iff.mp hclean).1
  exact ⟨fun value => (hpresent.value value).trans (endsIn_congr hnames _),
    fun dividend => (hpresent.division dividend).trans (endsIn_congr hnames _)⟩

/-- A loop whose body has a `t` of another type in a block of its own. -/
theorem loops_and_shadow_end :
    let text :=
      "{ var s = 0 for i = 1 to 3 { let t = i { let t = true } s = s + t } while s > 2 s = s - 2 }"
    EndsIn (fun t => some t.text) (Fragment.parse text).unit.stmt (.ok (some (.int 2))) := by
  intro text
  have hclean : (Link.after [] (Fragment.parse text)).diagnostics = [] := by decide +kernel
  have hfresh : ∀ site ∈ stmtSites [] {} (Fragment.parse text).unit.stmt, site.Fresh := by
    decide +kernel
  have hvalue : (run present? 3 (Fragment.parse text).unit.stmt).toOption =
      some (some (.int 2)) := by
    decide +kernel
  have hrun : run present? 3 (Fragment.parse text).unit.stmt = .ok (some (.int 2)) := by
    cases hr : run present? 3 (Fragment.parse text).unit.stmt with
    | ok value => rw [hr] at hvalue; cases hvalue; rfl
    | error stop => rw [hr] at hvalue; cases hvalue
  obtain ⟨store, hstore⟩ := ((evaluate_mirrors hclean hfresh 3).ok_iff _).mpr hrun
  have hrefines := (evaluate_refines_frames text hclean hfresh).2 (by decide)
  refine (hrefines.value (some (.int 2))).mp ⟨store, ?_⟩
  rw [← hstore]
  exact Link.endsIn_of_evaluate fun t h => by rw [hstore] at h; cases h

end Scriptlet.Lexical
