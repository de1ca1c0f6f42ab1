import Scriptlet.Chain
import Scriptlet.Proofs.Binding.Safe
import Scriptlet.Proofs.Binding.Sites
import Scriptlet.Proofs.Run.Reach

/-!
# Running trees with faults

Binding goes on after every fault, and the tree it makes is fit to be run all the same. What can stop
a run is a condition or a bound of the wrong type, and these have been reported.
-/

namespace Scriptlet.Binding

open Run (Reaches Stuck Store Task)
open Syntax (Fragment)
open Typed (misfit)

/-! ## Where conditions and bounds come from -/

def Site.demands : Site → List (Syntax.Expr × Ty)
  | ⟨_, .stmt (.ifThen _ cond _)⟩ | ⟨_, .stmt (.ifElse _ cond _ _ _)⟩
  | ⟨_, .stmt (.while _ cond _)⟩ => [(cond, .bool)]
  | ⟨_, .stmt (.for _ _ _ lower _ upper _)⟩ => [(lower, .int), (upper, .int)]
  | _ => []

def misfitReport (cond : Syntax.Expr) (e : Typed.Expr) (target : Ty) : Diagnostic :=
  ⟨cond.span, .cannotConvert e.type.name target.name⟩

/-- `e` is what a condition or a bound at one of the sites was bound to, and is reported if it is not
of the type it has to be of. -/
def Accounted (sites : List Site) (reports : List Diagnostic) (e : Typed.Expr) (target : Ty) :
    Prop :=
  ∃ site ∈ sites, ∃ cond, (cond, target) ∈ site.demands ∧ (bindExpr site.scopes cond).tree = e ∧
    (e.type ≠ target → misfitReport cond e target ∈ reports)

theorem Accounted.mono {sites sites' : List Site} {reports reports' : List Diagnostic}
    {e : Typed.Expr} {target : Ty} (h : Accounted sites reports e target) (hsites : sites ⊆ sites')
    (hreports : reports ⊆ reports') : Accounted sites' reports' e target := by
  obtain ⟨site, hsite, cond, hcond, he, hreport⟩ := h
  exact ⟨site, hsites hsite, cond, hcond, he, fun hne => hreports (hreport hne)⟩

theorem Accounted.of_bindExprAs {site : Site} {sites : List Site} {reports : List Diagnostic}
    {cond : Syntax.Expr} {target : Ty} (hcond : (cond, target) ∈ site.demands)
    (hreports : (bindExprAs site.scopes target cond).reports ⊆ reports) :
    Accounted (site :: sites) reports (bindExprAs site.scopes target cond).tree target := by
  refine ⟨site, List.mem_cons_self, cond, hcond, (bindExprAs_tree _ _ _).symm, fun hne => ?_⟩
  apply hreports
  rw [bindExprAs_tree] at hne ⊢
  unfold bindExprAs
  simp only [if_neg hne]
  exact List.mem_append_right _ List.mem_cons_self

-- By recursion on the tree: what a part has at its sites and among its reports, the whole has too.

mutual

theorem stmtDemands_accounted : ∀ {outer : ScopeStack} {scope : Scope} (s : Syntax.Stmt)
    {e : Typed.Expr} {target : Ty}, (e, target) ∈ (bindStmt outer scope s).tree.demands →
      Accounted (stmtSites outer scope s) (bindStmt outer scope s).reports e target
  | _, _, .block _ body _, e, target, h => by
    refine (bodyDemands_accounted body h).mono (fun _ hx => ?_) fun _ hx => hx
    simp [stmtSites, hx]
  | _, _, .expr _, e, target, h => by cases h
  | _, _, .decl _ _ _ _, e, target, h => by cases h
  | _, _, .ifThen _ cond yes, e, target, h => by
    simp only [bindStmt, Typed.Stmt.demands, List.mem_cons, Prod.mk.injEq] at h
    rcases h with ⟨rfl, rfl⟩ | hy
    · unfold stmtSites
      exact .of_bindExprAs List.mem_cons_self (List.subset_append_left _ _)
    · refine (stmtDemands_accounted yes hy).mono (fun _ hx => ?_) fun _ hx => ?_
      · simp [stmtSites, hx]
      · simp [bindStmt, hx]
  | _, _, .ifElse _ cond yes _ no, e, target, h => by
    simp only [bindStmt, Typed.Stmt.demands, List.mem_cons, List.mem_append, Prod.mk.injEq] at h
    rcases h with ⟨rfl, rfl⟩ | hy | hn
    · unfold stmtSites
      refine .of_bindExprAs List.mem_cons_self fun _ hx => ?_
      simp [bindStmt, hx]
    · refine (stmtDemands_accounted yes hy).mono (fun _ hx => ?_) fun _ hx => ?_
      · simp [stmtSites, hx]
      · simp [bindStmt, hx]
    · refine (stmtDemands_accounted no hn).mono (fun _ hx => ?_) fun _ hx => ?_
      · simp [stmtSites, hx]
      · simp [bindStmt, hx]
  | _, _, .while _ cond body, e, target, h => by
    simp only [bindStmt, Typed.Stmt.demands, List.mem_cons, Prod.mk.injEq] at h
    rcases h with ⟨rfl, rfl⟩ | hb
    · unfold stmtSites
      exact .of_bindExprAs List.mem_cons_self (List.subset_append_left _ _)
    · refine (stmtDemands_accounted body hb).mono (fun _ hx => ?_) fun _ hx => ?_
      · simp [stmtSites, hx]
      · simp [bindStmt, hx]
  | _, _, .for _ ident _ lower _ upper body, e, target, h => by
    simp only [bindStmt, Typed.Stmt.demands, List.mem_cons, Prod.mk.injEq] at h
    rcases h with ⟨rfl, rfl⟩ | ⟨rfl, rfl⟩ | hb
    · unfold stmtSites
      refine .of_bindExprAs List.mem_cons_self fun _ hx => ?_
      simp [bindStmt, hx]
    · unfold stmtSites
      refine .of_bindExprAs (List.mem_cons_of_mem _ List.mem_cons_self) fun _ hx => ?_
      simp [bindStmt, hx]
    · refine (stmtDemands_accounted body hb).mono (fun _ hx => ?_) fun _ hx => ?_
      · simp [stmtSites, hx]
      · simp [bindStmt, hx]

theorem bodyDemands_accounted : ∀ {outer : ScopeStack} {scope : Scope} (ss : List Syntax.Stmt)
    {e : Typed.Expr} {target : Ty},
    (e, target) ∈ Typed.Stmt.bodyDemands (bindBody outer scope ss).tree →
      Accounted (bodySites outer scope ss) (bindBody outer scope ss).reports e target
  | _, _, [], e, target, h => by cases h
  | _, _, s :: ss, e, target, h => by
    rcases List.mem_append.mp h with hs | hss
    · refine (stmtDemands_accounted s hs).mono (fun _ hx => ?_) fun _ hx => ?_
      · simp [bodySites, hx]
      · simp [bindBody, hx]
    · refine (bodyDemands_accounted ss hss).mono (fun _ hx => ?_) fun _ hx => ?_
      · simp [bodySites, hx]
      · simp [bindBody, hx]

end

/-! ## The whole run -/

/-- Whatever a text is like and whatever a store holds, running what the text binds to evaluates
every expression it comes to without getting stuck, and to a value of the expression's type if it
has one. The run itself is stuck just if it comes to a condition or a bound of the wrong type, which
binding reported. -/
theorem faulty_text_run (text : String) (limit : Nat) (store : Store) :
    let fragment := Fragment.parse text
    let link := Link.after [] fragment
    let start : Task × Store := (.exec link.layer.stmt none, store)
    (∀ e σ, Reaches limit start (.eval e, σ) →
      match Run.eval e σ with
      | .ok value _ => value.type = e.type
      | .error halt _ => ∀ cause, halt ≠ .stuck cause) ∧
    ∀ cause, (∃ τ, link.run limit store = .error (.stuck cause) τ) ↔
      ∃ site ∈ stmtSites [] {} fragment.unit.stmt, ∃ cond target, (cond, target) ∈ site.demands ∧
        let e := (bindExpr site.scopes cond).tree
        e.type ≠ target ∧ misfitReport cond e target ∈ link.layer.diagnostics ∧
        ∃ σ value τ, Reaches limit start (.demand e target, σ) ∧ Run.eval e σ = .ok value τ ∧
          value.type = e.type ∧ cause = misfit target value := by
  intro fragment link start
  have hknows : Knows [] [{}] := by
    intro name v hv
    cases hv
  have hready : start.1.Ready start.2 :=
    ⟨[], (bindStmt_safe hknows fragment.unit.stmt).1, fun _ h => absurd h List.not_mem_nil⟩
  refine ⟨fun e σ hreach => (hreach.ready hready).eval, fun cause => ?_⟩
  have hstuck : (∃ τ, link.run limit store = .error (.stuck cause) τ) ↔
    start.1.halt? limit start.2 = some (.stuck cause) := Run.haltOf?_eq_some.symm
  rw [hstuck, hready.stuck_iff]
  constructor
  · rintro ⟨e, target, σ, value, τ, hreach, heval, hvalue, hne, hcause⟩
    have hdemand : (e, target) ∈ link.layer.stmt.demands := hreach.demands List.mem_cons_self
    obtain ⟨site, hsite, cond, hcond, rfl, hreport⟩ :=
      stmtDemands_accounted fragment.unit.stmt hdemand
    exact ⟨site, hsite, cond, target, hcond, hne, hreport hne, σ, value, τ, hreach, heval, hvalue,
      hcause⟩
  · rintro ⟨site, _, cond, target, _, hne, _, σ, value, τ, hreach, heval, hvalue, hcause⟩
    exact ⟨_, target, σ, value, τ, hreach, heval, hvalue, hne, hcause⟩

-- The name and the sign without a meaning do no harm; the condition does.
example : Run.haltOf? ((Link.after [] (Fragment.parse "\x7b a + !1 while 1 / 2 a \x7d")).run 9 {}) =
    some (.stuck (.notBool (.int 0))) := by
  decide +kernel

end Scriptlet.Binding
