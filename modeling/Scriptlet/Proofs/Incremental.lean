import Mathlib.Data.List.Basic
import Scriptlet.Binding.Layer
import Scriptlet.Proofs.Run.Triple
import Scriptlet.Proofs.Scope
import Scriptlet.Run.Exec
import Scriptlet.Syntax.Fragment

/-!
# One fragment after the other, or all in one block

Statements that are submitted one by one are bound in scopes of their own, each inside those of the
statements before it; in a block they share a scope. As long as no two of them declare the same
name, every name stands for the same variable both ways, and they run alike.
-/

namespace Scriptlet

/-! ## Stacks in which names stand for the same -/

namespace ScopeStack

def Alike (stack stack' : ScopeStack) : Prop := ∀ name, stack.find? name = stack'.find? name

theorem Alike.cons {stack stack' : ScopeStack} (h : stack.Alike stack') (s : Scope) :
    Alike (s :: stack) (s :: stack') := by
  intro name
  rw [find?_cons, find?_cons, h name]

end ScopeStack

namespace Binding

open Typed (Variable)

theorem bindExpr_alike {stack stack' : ScopeStack} (h : stack.Alike stack') :
    ∀ e : Syntax.Expr, bindExpr stack e = bindExpr stack' e
  | .literal _ _ => rfl
  | .unary op operand => by
    unfold bindExpr
    rw [bindExpr_alike h operand]
  | .binary lhs op rhs => by
    unfold bindExpr
    rw [bindExpr_alike h lhs, bindExpr_alike h rhs]
  | .paren _ inner _ => by
    unfold bindExpr
    rw [bindExpr_alike h inner]
  | .name ident => by
    unfold bindExpr bindName
    rw [h ident.text]
  | .assign ident eq rhs => by
    unfold bindExpr bindAssign
    rw [bindExpr_alike h rhs, h ident.text]

theorem bindExprAs_alike {stack stack' : ScopeStack} (h : stack.Alike stack') (target : Ty)
    (e : Syntax.Expr) : bindExprAs stack target e = bindExprAs stack' target e := by
  unfold bindExprAs
  rw [bindExpr_alike h e]

mutual

theorem bindStmt_alike : ∀ {outer outer' : ScopeStack}, outer.Alike outer' →
    ∀ (scope : Scope) (s : Syntax.Stmt), bindStmt outer scope s = bindStmt outer' scope s
  | _, _, h, scope, .block _ body _ => by
    unfold bindStmt
    rw [bindBody_alike (h.cons scope) {} body]
  | _, _, h, scope, .expr e => by
    unfold bindStmt
    rw [bindExpr_alike (h.cons scope) e]
  | _, _, h, scope, .decl _ _ _ init => by
    unfold bindStmt
    rw [bindExpr_alike (h.cons scope) init]
  | _, _, h, scope, .ifThen _ cond yes => by
    unfold bindStmt
    rw [bindExprAs_alike (h.cons scope) .bool cond, bindStmt_alike (h.cons scope) {} yes]
  | _, _, h, scope, .ifElse _ cond yes _ no => by
    unfold bindStmt
    rw [bindExprAs_alike (h.cons scope) .bool cond, bindStmt_alike (h.cons scope) {} yes,
      bindStmt_alike (h.cons scope) {} no]
  | _, _, h, scope, .while _ cond body => by
    unfold bindStmt
    rw [bindExprAs_alike (h.cons scope) .bool cond, bindStmt_alike (h.cons scope) {} body]
  | _, _, h, scope, .for _ ident _ lower _ upper body => by
    unfold bindStmt
    rw [bindExprAs_alike (h.cons scope) .int lower, bindExprAs_alike (h.cons scope) .int upper]
    simp only [bindStmt_alike (h.cons scope) _ body]

theorem bindBody_alike : ∀ {outer outer' : ScopeStack}, outer.Alike outer' →
    ∀ (scope : Scope) (ss : List Syntax.Stmt), bindBody outer scope ss = bindBody outer' scope ss
  | _, _, _, _, [] => rfl
  | _, _, h, scope, s :: ss => by
    unfold bindBody
    rw [bindStmt_alike h scope s]
    simp only [bindBody_alike h _ ss]

end

end Binding

/-! ## Declaring in a scope of its own -/

def Syntax.Stmt.declared? : Syntax.Stmt → Option String
  | .decl _ ident _ _ => some ident.text
  | _ => none

theorem ScopeStack.Alike.declare {scope : Scope} {outer stack : ScopeStack}
    (h : Alike (scope :: outer) stack) {vs : List Typed.Variable}
    (hvs : ∀ v ∈ vs, scope.find? v.name = none) :
    Alike (⟨scope.declared ++ vs⟩ :: outer) (⟨vs⟩ :: stack) := by
  intro name
  have hold := h name
  rw [find?_cons] at hold
  rw [find?_cons, find?_cons, Scope.find?_append, ← hold]
  cases hfound : Scope.find? ⟨vs⟩ name with
  | none => simp
  | some v =>
    have hnone : scope.find? name = none := by
      rw [← Scope.name_of_find? hfound]
      exact hvs v (List.mem_of_find?_eq_some hfound)
    simp [hnone]

namespace Binding

open Typed (Variable)
open ScopeStack (Alike)

theorem declareIn_of_find? {scope : Scope} {v : Variable} (h : scope.find? v.name = none)
    (ident : Token) :
    declareIn scope ident v = (⟨scope.declared ++ if ident.isMissing then [] else [v]⟩, []) := by
  unfold declareIn Scope.declare?
  rw [h]
  split <;> simp [*]

/-- A statement whose name is new in `scope` is bound in a scope of its own as it is bound in
`scope`, and declares there what it would add to `scope`. -/
theorem bindStmt_own_scope {scope : Scope} {outer stack : ScopeStack}
    (h : Alike (scope :: outer) stack) {s : Syntax.Stmt}
    (hnew : ∀ name ∈ s.declared?, scope.find? name = none) :
    (bindStmt stack {} s).tree = (bindStmt outer scope s).tree ∧
      (bindStmt stack {} s).reports = (bindStmt outer scope s).reports ∧
      (bindStmt outer scope s).scope =
        ⟨scope.declared ++ (bindStmt stack {} s).scope.declared⟩ ∧
      ∀ v ∈ (bindStmt stack {} s).scope.declared, s.declared? = some v.name := by
  have hempty : Alike ({} :: stack) (scope :: outer) := fun name => (h name).symm
  cases s with
  | block o body c =>
    unfold bindStmt
    rw [bindBody_alike hempty {} body]
    simp
  | expr e =>
    unfold bindStmt
    rw [bindExpr_alike hempty e]
    simp
  | decl keyword ident eq init =>
    unfold bindStmt
    rw [bindExpr_alike hempty init]
    dsimp only
    generalize hv : Variable.mk ident.text (keyword.kind = .letKeyword)
      (bindExpr (scope :: outer) init).tree.type = v
    have hname : v.name = ident.text := by rw [← hv]
    have hfree : scope.find? v.name = none := hname ▸ hnew ident.text rfl
    have hown : Scope.find? {} v.name = none := rfl
    simp only [declareIn_of_find? hfree, declareIn_of_find? hown, List.nil_append, true_and]
    intro w hw
    split at hw
    · cases hw
    · rw [List.mem_singleton.mp hw, hname]
      rfl
  | ifThen k cond yes =>
    unfold bindStmt
    rw [bindExprAs_alike hempty .bool cond, bindStmt_alike hempty {} yes]
    simp
  | ifElse k cond yes k' no =>
    unfold bindStmt
    rw [bindExprAs_alike hempty .bool cond, bindStmt_alike hempty {} yes,
      bindStmt_alike hempty {} no]
    simp
  | «while» k cond body =>
    unfold bindStmt
    rw [bindExprAs_alike hempty .bool cond, bindStmt_alike hempty {} body]
    simp
  | «for» k ident eq lower sep upper body =>
    unfold bindStmt
    rw [bindExprAs_alike hempty .int lower, bindExprAs_alike hempty .int upper]
    simp [bindStmt_alike hempty _ body]

/-! ## All units -/

namespace Layer

/-- Binds units one after the other, each after `history` and those before it. The newest layer
comes first. -/
def bindAll (history : List Layer) : List Syntax.SourceUnit → List Layer
  | [] => history
  | u :: us => bindAll (bind history u :: history) us

theorem bindAll_eq_bindBody {outer : ScopeStack} : ∀ {history : List Layer} {scope : Scope},
    Alike (scope :: outer) (scopes history) → ∀ units : List Syntax.SourceUnit,
    (units.flatMap (·.stmt.declared?.toList)).Nodup →
    (∀ name ∈ units.flatMap (·.stmt.declared?.toList), scope.find? name = none) →
    (bindAll history units).reverse.map (·.stmt) =
        history.reverse.map (·.stmt) ++ (bindBody outer scope (units.map (·.stmt))).tree ∧
      diagnosticsOf (bindAll history units) =
        diagnosticsOf history ++ (bindBody outer scope (units.map (·.stmt))).reports
  | history, scope, h, [], _, _ => by simp [bindAll, bindBody]
  | history, scope, h, u :: us, hnodup, hnew => by
    rw [List.flatMap_cons, List.nodup_append] at hnodup
    rw [List.flatMap_cons, List.forall_mem_append] at hnew
    have hu : ∀ name ∈ u.stmt.declared?, scope.find? name = none :=
      fun name hname => hnew.1 name (Option.mem_toList.mpr hname)
    obtain ⟨htree, hreports, hscope, hdeclared⟩ := bindStmt_own_scope h hu
    have halike : Alike ((bindStmt outer scope u.stmt).scope :: outer)
        (scopes (bind history u :: history)) := by
      rw [hscope]
      exact h.declare fun v hv => hu v.name (hdeclared v hv)
    have hlater : ∀ name ∈ us.flatMap (·.stmt.declared?.toList),
        (bindStmt outer scope u.stmt).scope.find? name = none := by
      intro name hname
      rw [hscope, Scope.find?_append, hnew.2 name hname, Option.none_or]
      cases hfound : Scope.find? ⟨(bindStmt (scopes history) {} u.stmt).scope.declared⟩ name with
      | none => rfl
      | some v =>
        have hv := hdeclared v (List.mem_of_find?_eq_some hfound)
        rw [Scope.name_of_find? hfound] at hv
        exact absurd rfl (hnodup.2.2 name (Option.mem_toList.mpr hv) name hname)
    obtain ⟨hstmts, hdiagnostics⟩ := bindAll_eq_bindBody halike us hnodup.2.1 hlater
    have hstmt : (bind history u).stmt = (bindStmt outer scope u.stmt).tree := htree
    have hown : diagnosticsOf (bind history u :: history) =
        diagnosticsOf history ++ (bindStmt outer scope u.stmt).reports :=
      congrArg (diagnosticsOf history ++ ·) hreports
    constructor
    · rw [bindAll, hstmts]
      simp [bindBody, hstmt]
    · rw [bindAll, hdiagnostics, hown]
      simp [bindBody]

end Layer

end Binding

/-! ## Running -/

namespace Run

open Typed (Slot Stmt)

-- What a statement yields without a value of its own is what came before it, and nothing else
-- depends on that.

theorem whileLoop_last {cond : Exec Bool} {body : Option Value → Exec (Option Value)}
    (hbody : ∀ last, body last = (·.or last) <$> body none) :
    ∀ n last, whileLoop cond body n last = (·.or last) <$> whileLoop cond body n none
  | 0, _ => rfl
  | n + 1, last => by
    unfold whileLoop
    rw [map_bind]
    congr 1
    funext b
    cases b with
    | false => simp
    | true =>
      simp only [if_true]
      rw [hbody last, bind_map_left, map_bind]
      congr 1
      funext v
      rw [whileLoop_last hbody n (v.or last), whileLoop_last hbody n v]
      simp [Option.or_assoc]

theorem forLoop_last {slot : Slot} {body : Option Value → Exec (Option Value)}
    (hbody : ∀ last, body last = (·.or last) <$> body none) :
    ∀ n k last, forLoop slot body n k last = (·.or last) <$> forLoop slot body n k none
  | 0, _, last => by simp [forLoop]
  | n + 1, k, last => by
    unfold forLoop
    rw [map_bind]
    congr 1
    funext _
    rw [hbody last, bind_map_left, map_bind]
    congr 1
    funext v
    rw [forLoop_last hbody n (k + 1) (v.or last), forLoop_last hbody n (k + 1) v]
    simp [Option.or_assoc]

mutual

theorem exec_last (limit : Nat) : ∀ (s : Stmt) (last : Option Value),
    exec limit s last = (·.or last) <$> exec limit s none
  | .block body, last => by
    unfold exec
    exact execBody_last limit body last
  | .expr e, last => by simp [exec]
  | .decl v init, last => by simp [exec]
  | .ifThen cond yes, last => by
    unfold exec
    rw [map_bind]
    congr 1
    funext b
    cases b with
    | true => exact exec_last limit yes last
    | false => simp
  | .ifElse cond yes no, last => by
    unfold exec
    rw [map_bind]
    congr 1
    funext b
    cases b with
    | true => exact exec_last limit yes last
    | false => exact exec_last limit no last
  | .while cond body, last => by
    unfold exec
    exact whileLoop_last (exec_last limit body) limit last
  | .for v lower upper body, last => by
    unfold exec
    simp only [map_bind]
    congr 1
    funext lo
    congr 1
    funext hi
    exact forLoop_last (exec_last limit body) _ _ last

theorem execBody_last (limit : Nat) : ∀ (ss : List Stmt) (last : Option Value),
    execBody limit ss last = (·.or last) <$> execBody limit ss none
  | [], last => by simp [execBody]
  | s :: ss, last => by
    unfold execBody
    rw [exec_last limit s last, bind_map_left, map_bind]
    congr 1
    funext v
    rw [execBody_last limit ss (v.or last), execBody_last limit ss v]
    simp [Option.or_assoc]

end

def runEach (limit : Nat) : List Stmt → Exec (List (Option Value))
  | [] => pure []
  | s :: ss => do
    let value ← (run limit s : Exec (Option Value))
    return value :: (← runEach limit ss)

def lastValue (values : List (Option Value)) : Option Value := (values.filterMap id).getLast?

theorem lastValue_cons (v : Option Value) (vs : List (Option Value)) :
    lastValue (v :: vs) = (lastValue vs).or v := by
  unfold lastValue
  cases v with
  | none => simp
  | some x =>
    have hcons : (some x :: vs).filterMap id = x :: vs.filterMap id := rfl
    rw [hcons, List.getLast?_cons]
    cases (vs.filterMap id).getLast? <;> rfl

theorem execBody_eq_runEach (limit : Nat) :
    ∀ ss : List Stmt, execBody limit ss none = lastValue <$> runEach limit ss
  | [] => by simp [execBody, runEach, lastValue]
  | s :: ss => by
    unfold execBody runEach
    have hrun : (run limit s : Exec (Option Value)) = exec limit s none := rfl
    rw [hrun, map_bind]
    congr 1
    funext v
    rw [execBody_last, execBody_eq_runEach limit ss]
    simp [lastValue_cons]

end Run

namespace Binding

/-- Units of which no two declare the same name are bound one after the other as the statements of
one block are, with the same diagnostics. Run one after the other on one store they leave the store
that the block leaves, and are stopped for the reason for which it is stopped; else the block yields
the last value that one of them yields. -/
theorem units_like_block (units : List Syntax.SourceUnit) (opening closing eof : Token)
    (hnames : (units.filterMap (·.stmt.declared?)).Nodup) :
    let layers := (Layer.bindAll [] units).reverse
    let block := Layer.bind [] ⟨.block opening (units.map (·.stmt)) closing, eof⟩
    block.stmt = .block (layers.map (·.stmt)) ∧
      Layer.diagnosticsOf (Layer.bindAll [] units) = block.diagnostics ∧
      ∀ limit store, Run.run limit block.stmt store =
        match Run.runEach limit (layers.map (·.stmt)) store with
        | .ok values store' => .ok (Run.lastValue values) store'
        | .error halt store' => .error halt store' := by
  intro layers block
  rw [List.filterMap_eq_flatMap_toList] at hnames
  have halike : ScopeStack.Alike ({} :: [{}]) (Layer.scopes []) := fun name => rfl
  obtain ⟨hstmts, hdiagnostics⟩ :=
    Layer.bindAll_eq_bindBody halike units hnames fun name _ => rfl
  have hblock : block.stmt = .block (layers.map (·.stmt)) := congrArg Typed.Stmt.block hstmts.symm
  refine ⟨hblock, hdiagnostics, fun limit store => ?_⟩
  rw [hblock]
  unfold Run.run Run.exec
  rw [Run.execBody_eq_runEach]
  show EStateM.map Run.lastValue _ store = _
  unfold EStateM.map
  cases Run.runEach limit (layers.map (·.stmt)) store <;> rfl

/-- An undefined name is reported once both ways, and the loop stops after two rounds both ways. -/
theorem loop_and_fault_like_block :
    let units := ["var x = 6", "while x > 2 \x7b let y = x x = y - y / 2 \x7d", "z",
      "let b = x > 1"].map fun text => (Syntax.Fragment.parse text).unit
    let block := Layer.bind [] ⟨.block default (units.map (·.stmt)) default, default⟩
    (units.filterMap (·.stmt.declared?)).Nodup ∧
      block.diagnostics.map (·.fault) = [.undefinedName "z"] ∧
      (Run.stateAfter (Run.run 3 block.stmt {})).entries =
        [(⟨"x", .int⟩, .int 2), (⟨"y", .int⟩, .int 3), (⟨"b", .bool⟩, .bool true)] := by
  intro units block
  have hnames : (units.filterMap (·.stmt.declared?)).Nodup := by decide +kernel
  obtain ⟨_, hdiagnostics, hrun⟩ := units_like_block units default default default hnames
  refine ⟨hnames, ?_, ?_⟩
  · rw [← hdiagnostics]
    decide +kernel
  · rw [hrun 3 {}]
    decide +kernel

end Binding

end Scriptlet
