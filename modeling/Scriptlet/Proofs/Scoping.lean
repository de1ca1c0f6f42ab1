import Mathlib
import Scriptlet.Proofs.Binding.Sites
import Scriptlet.Proofs.Chain
import Scriptlet.Proofs.Run.Frame
import Scriptlet.Proofs.Run.Reach

/-!
# What a statement does to the variables around it

Names are resolved by scopes, but values are kept by slots. A variable keeps its value while a
statement runs unless an assignment in the statement is resolved to it, or a variable further in
that has its name and its type gets in the way. Other variables of its name do not matter.
-/

namespace Scriptlet.Binding

open Typed (Variable Slot)

/-! ## Slots that sites write to -/

namespace Site

def inside : Site → List Site
  | ⟨scopes, .expr e⟩ => exprSites scopes e
  | ⟨scope :: outer, .stmt s⟩ => stmtSites outer scope s
  | ⟨scope :: outer, .body ss⟩ => bodySites outer scope ss
  | ⟨[], _⟩ => []

def tree : Site → List Typed.Stmt
  | ⟨scopes, .expr e⟩ => [.expr (bindExpr scopes e).tree]
  | ⟨scope :: outer, .stmt s⟩ => [(bindStmt outer scope s).tree]
  | ⟨scope :: outer, .body ss⟩ => (bindBody outer scope ss).tree
  | ⟨[], _⟩ => []

def sets? : Site → Option Variable
  | ⟨scopes, .expr (.assign ident _ _)⟩ => scopes.find? ident.text
  | site => site.declares?

end Site

def Sets (sites : List Site) (slot : Slot) : Prop :=
  ∃ site ∈ sites, ∃ w, site.sets? = some w ∧ w.slot = slot

section
variable {sites : List Site} {slot : Slot} (h : Sets sites slot)
include h

theorem Sets.cons (site : Site) : Sets (site :: sites) slot := by
  obtain ⟨site', hsite', hw⟩ := h
  exact ⟨site', List.mem_cons_of_mem _ hsite', hw⟩

theorem Sets.append_right (sites' : List Site) : Sets (sites ++ sites') slot := by
  obtain ⟨site, hsite, hw⟩ := h
  exact ⟨site, List.mem_append_left _ hsite, hw⟩

theorem Sets.append_left (sites' : List Site) : Sets (sites' ++ sites) slot := by
  obtain ⟨site, hsite, hw⟩ := h
  exact ⟨site, List.mem_append_right _ hsite, hw⟩

end

theorem exprSites_sets {scopes : ScopeStack} {slot : Slot} : ∀ {e : Syntax.Expr},
    slot ∈ (bindExpr scopes e).tree.writes → Sets (exprSites scopes e) slot
  | .literal _ _, h => by cases h
  | .name ident, h => by
    unfold bindExpr bindName at h
    split at h
    · cases h
    · cases hv : scopes.find? ident.text with
      | none => rw [hv] at h; cases h
      | some v => rw [hv] at h; cases h
  | .unary op operand, h => by
    unfold bindExpr bindUnary at h
    unfold exprSites
    have hoperand : slot ∈ (bindExpr scopes operand).tree.writes := by
      simp only at h
      cases hrow : Typed.UnaryRow.find? op.kind (bindExpr scopes operand).tree.type with
      | none => rw [hrow] at h; exact h
      | some row => rw [hrow] at h; exact h
    exact (exprSites_sets hoperand).cons _
  | .binary lhs op rhs, h => by
    unfold bindExpr bindBinary at h
    unfold exprSites
    have hor : slot ∈ (bindExpr scopes lhs).tree.writes ∨
        slot ∈ (bindExpr scopes rhs).tree.writes := by
      simp only at h
      cases hrow : Typed.BinaryRow.find? op.kind (bindExpr scopes lhs).tree.type
          (bindExpr scopes rhs).tree.type with
      | none => rw [hrow] at h; exact .inl h
      | some row => rw [hrow] at h; exact List.mem_append.mp h
    rcases hor with hl | hr
    · exact (exprSites_sets hl).append_right _ |>.cons _
    · exact (exprSites_sets hr).append_left _ |>.cons _
  | .paren _ inner _, h => by
    unfold exprSites
    have hinner : slot ∈ (bindExpr scopes inner).tree.writes := h
    exact (exprSites_sets hinner).cons _
  | .assign ident eq rhs, h => by
    unfold bindExpr bindAssign at h
    unfold exprSites
    have hor : slot ∈ (bindExpr scopes rhs).tree.writes ∨
        ∃ w, scopes.find? ident.text = some w ∧ w.slot = slot := by
      cases hv : scopes.find? ident.text with
      | none => rw [hv] at h; exact .inl h
      | some v =>
        rw [hv] at h
        simp only at h
        split at h
        · rcases List.mem_cons.mp h with hslot | h
          · exact .inr ⟨v, rfl, hslot.symm⟩
          · exact .inl h
        · exact .inl h
    rcases hor with hrhs | hw
    · exact (exprSites_sets hrhs).cons _
    · exact ⟨_, List.mem_cons_self, hw⟩

theorem exprSites_sets_as {scopes : ScopeStack} {target : Ty} {slot : Slot} {e : Syntax.Expr}
    (h : slot ∈ (bindExprAs scopes target e).tree.writes) : Sets (exprSites scopes e) slot := by
  rw [bindExprAs_tree] at h
  exact exprSites_sets h

mutual

theorem stmtSites_sets {slot : Slot} : ∀ {outer : ScopeStack} {scope : Scope} {s : Syntax.Stmt},
    slot ∈ (bindStmt outer scope s).tree.writes → Sets (stmtSites outer scope s) slot
  | _, _, .block _ body _, h => by
    unfold stmtSites
    exact (bodySites_sets body h).cons _
  | outer, scope, .expr e, h => by
    unfold stmtSites
    have he : slot ∈ (bindExpr (scope :: outer) e).tree.writes := h
    exact (exprSites_sets he).cons _
  | outer, scope, .decl keyword ident eq init, h => by
    unfold stmtSites
    rcases List.mem_cons.mp h with hslot | hinit
    · exact ⟨_, List.mem_cons_self, _, rfl, hslot.symm⟩
    · exact (exprSites_sets hinit).cons _
  | _, _, .ifThen _ cond yes, h => by
    unfold stmtSites
    rcases List.mem_append.mp h with hcond | hyes
    · exact (exprSites_sets_as hcond).append_right _ |>.cons _
    · exact (stmtSites_sets hyes).append_left _ |>.cons _
  | _, _, .ifElse _ cond yes _ no, h => by
    unfold stmtSites
    rcases List.mem_append.mp h with hcond | h
    · exact (exprSites_sets_as hcond).append_right _ |>.cons _
    · rcases List.mem_append.mp h with hyes | hno
      · exact (stmtSites_sets hyes).append_right _ |>.append_left _ |>.cons _
      · exact (stmtSites_sets hno).append_left _ |>.append_left _ |>.cons _
  | _, _, .while _ cond body, h => by
    unfold stmtSites
    rcases List.mem_append.mp h with hcond | hbody
    · exact (exprSites_sets_as hcond).append_right _ |>.cons _
    · exact (stmtSites_sets hbody).append_left _ |>.cons _
  | _, _, .for _ ident _ lower _ upper body, h => by
    unfold stmtSites
    rcases List.mem_cons.mp h with hslot | h
    · exact ⟨_, List.mem_cons_self, _, rfl, hslot.symm⟩
    · rcases List.mem_append.mp h with hlower | h
      · exact (exprSites_sets_as hlower).append_right _ |>.cons _
      · rcases List.mem_append.mp h with hupper | hbody
        · exact (exprSites_sets_as hupper).append_right _ |>.append_left _ |>.cons _
        · exact (stmtSites_sets hbody).append_left _ |>.append_left _ |>.cons _

theorem bodySites_sets {slot : Slot} : ∀ {outer : ScopeStack} {scope : Scope}
    (ss : List Syntax.Stmt), slot ∈ Typed.Stmt.writesAll (bindBody outer scope ss).tree →
      Sets (bodySites outer scope ss) slot
  | _, _, [], h => by cases h
  | _, _, s :: ss, h => by
    unfold bodySites
    rcases List.mem_append.mp h with hs | hss
    · exact (stmtSites_sets hs).append_right _ |>.cons _
    · exact (bodySites_sets ss hss).append_left _ |>.cons _

end

theorem Site.inside_sets {site : Site} {slot : Slot}
    (h : slot ∈ Typed.Stmt.writesAll site.tree) : Sets site.inside slot := by
  obtain ⟨scopes, part⟩ := site
  cases part with
  | expr e =>
    have he : slot ∈ (bindExpr scopes e).tree.writes ++ [] := h
    rw [List.append_nil] at he
    exact exprSites_sets he
  | stmt s =>
    cases scopes with
    | nil => cases h
    | cons scope outer =>
      have hs : slot ∈ (bindStmt outer scope s).tree.writes ++ [] := h
      rw [List.append_nil] at hs
      exact stmtSites_sets hs
  | body ss =>
    cases scopes with
    | nil => cases h
    | cons scope outer => exact bodySites_sets ss h

theorem Site.inside_grows (site : Site) : ∀ inner ∈ site.inside,
    ScopeStack.Grows (DeclaredAt site.inside) site.scopes inner.scopes := by
  obtain ⟨scopes, part⟩ := site
  cases part with
  | expr e => exact exprSites_grows
  | stmt s =>
    cases scopes with
    | nil => intro _ h; cases h
    | cons scope outer => exact stmtSites_grows (List.Subset.refl _)
  | body ss =>
    cases scopes with
    | nil => intro _ h; cases h
    | cons scope outer => exact bodySites_grows (List.Subset.refl _)

theorem Site.inside_reports {site : Site} (h : site.reports = []) :
    ∀ inner ∈ site.inside, inner.reports = [] := by
  obtain ⟨scopes, part⟩ := site
  cases part with
  | expr e => exact exprSites_reports h
  | stmt s =>
    cases scopes with
    | nil => intro _ h; cases h
    | cons scope outer => exact stmtSites_reports h
  | body ss =>
    cases scopes with
    | nil => intro _ h; cases h
    | cons scope outer => exact bodySites_reports ss h

/-! ## Variables that keep their values -/

/-- The statement, or a part of it that is run under a condition or again and again, has a scope of
its own. -/
def Site.opensScope (site : Site) : Bool :=
  match site.part with
  | .stmt (.block _ _ _) | .stmt (.ifThen _ _ _) | .stmt (.ifElse _ _ _ _ _)
  | .stmt (.while _ _ _) | .stmt (.for _ _ _ _ _ _ _) => true
  | _ => false

/-- Of the variables of `v`'s name and type that are declared further in than `v`, at level `k`,
none is declared or assigned to inside the site. -/
def Site.SparesNamesakes (site : Site) (k : Nat) (v : Variable) : Prop :=
  (∀ inner ∈ site.inside, inner.declares?.map (·.slot) ≠ some v.slot) ∧
    ∀ k' w, k < k' → site.scopes.Declares k' w → w.slot = v.slot →
      ∀ inner ∈ site.inside, inner.target? ≠ some (k', w.name)

def Site.Assigns (site : Site) (k : Nat) (v : Variable) : Prop :=
  ∃ inner ∈ site.inside, inner.target? = some (k, v.name)

theorem Site.not_sets {site : Site} {k : Nat} {v : Variable} (hv : site.scopes.Declares k v)
    (hspares : site.SparesNamesakes k v) (hassigns : ¬ site.Assigns k v) :
    ¬ Sets site.inside v.slot := by
  intro hsets
  obtain ⟨inner, hinner, w, hw, hslot⟩ := hsets
  have hgrows := site.inside_grows inner hinner
  unfold Site.sets? at hw
  split at hw
  · rename_i scopes ident eq rhs
    have hname : w.name = ident.text := ScopeStack.name_of_find? hw
    have hvname : v.name = ident.text := by rw [← hname]; exact (congrArg Slot.name hslot).symm
    rcases hgrows.find? hw with hdecl | ⟨hfind, hlevel⟩
    · -- the assignment is to a variable that is declared inside the site
      obtain ⟨site', hsite', hdecl⟩ := hdecl
      exact hspares.1 site' hsite' (by rw [hdecl, Option.map_some, hslot])
    · -- it is to a variable outside, which is not further out than `v`
      obtain ⟨k', hk', hw', hmax⟩ := ScopeStack.level?_of_find? hfind
      have hle : k ≤ k' := hmax k v hv hvname
      have htarget : Site.target? ⟨scopes, .expr (.assign ident eq rhs)⟩ = some (k', ident.text) := by
        simp only [Site.target?]
        rw [hlevel, hk']
        rfl
      rcases Nat.eq_or_lt_of_le hle with hk | hk
      · exact hassigns ⟨_, hinner, by rw [htarget, hk, hvname]⟩
      · exact hspares.2 k' w hk hw' hslot _ hinner (by rw [htarget, hname])
  · exact hspares.1 inner hinner (by rw [hw, Option.map_some, hslot])

theorem Site.not_assigns {site : Site} (hclean : site.reports = []) {k : Nat} {v : Variable}
    (hv : site.scopes.Declares k v) (hreadOnly : v.readOnly = true) : ¬ site.Assigns k v := by
  intro hassigns
  obtain ⟨inner, hinner, htarget⟩ := hassigns
  have hgrows := site.inside_grows inner hinner
  have hreports := Site.inside_reports hclean inner hinner
  unfold Site.target? at htarget
  split at htarget
  · rename_i scopes ident eq rhs
    obtain ⟨_, w, hw, hwritable, _⟩ := bindAssign_clean hreports
    obtain ⟨k', hk', ⟨s, hs, hfind⟩, _⟩ := ScopeStack.level?_of_find? hw
    rw [hk'] at htarget
    simp only [Option.map_some, Option.some.injEq, Prod.mk.injEq] at htarget
    obtain ⟨hk, hname⟩ := htarget
    subst hk
    -- `v` is still what its scope declares where the assignment stands
    obtain ⟨s', hs', hfind'⟩ := hgrows.declares hv
    have hsame : s' = s := Option.some.inj (hs'.symm.trans hs)
    rw [hsame, ← hname, ← ScopeStack.name_of_find? hw] at hfind'
    have hvw : v = w := Option.some.inj (hfind'.symm.trans hfind)
    rw [← hvw, hreadOnly] at hwritable
    cases hwritable
  · cases htarget

end Scriptlet.Binding

namespace Scriptlet.Chain

open Binding (Site stmtSites)
open Run (Reaches Store execBody stateAfter)
open Syntax (Fragment)
open Typed (Variable)

/-- In a fragment that is bound without a fault, a variable keeps its value through any part of the
fragment that does not assign to it and spares its namesakes, and every read of it there gives this
value. To variables that are read only, nothing is assigned. -/
theorem part_keeps_variable (chain : Chain) (text : String)
    (hclean : (Link.after chain (Fragment.parse text)).layer.diagnostics = [])
    (site : Site) (hsite : site ∈ stmtSites chain.scopes {} (Fragment.parse text).unit.stmt)
    (k : Nat) (v : Variable) (hv : site.scopes.Declares k v) (hspares : site.SparesNamesakes k v)
    (hset : v.readOnly = true ∨ ¬ site.Assigns k v) (limit : Nat) (last : Option Value)
    (store : Store) (value : Value) (hvalue : store.get? v.slot = some value) :
    (stateAfter (execBody limit site.tree last store)).get? v.slot = some value ∧
      execBody limit (Typed.Stmt.pinAll v.slot value site.tree) last store =
        execBody limit site.tree last store := by
  have hreports : (Binding.bindStmt chain.scopes {} (Fragment.parse text).unit.stmt).reports = [] :=
    (List.append_eq_nil_iff.mp hclean).2
  have hassigns : ¬ site.Assigns k v := by
    rcases hset with hreadOnly | hassigns
    · exact Site.not_assigns (Binding.stmtSites_reports hreports site hsite) hv hreadOnly
    · exact hassigns
  have hwrites : v.slot ∉ Typed.Stmt.writesAll site.tree := fun hmem =>
    Site.not_sets hv hspares hassigns (Site.inside_sets hmem)
  have halike : Run.Alike (Store.Holds v.slot value) (execBody limit site.tree last)
      (execBody limit (Typed.Stmt.pinAll v.slot value site.tree) last) :=
    Run.execBody_pin limit hwrites last
  exact ⟨halike.keeps.stateAfter store hvalue, halike.same store hvalue⟩

def siteOf (text : String) (n : Nat) : Site :=
  (stmtSites [] {} (Fragment.parse text).unit.stmt)[n]?.getD ⟨[], .body []⟩

theorem siteOf_mem {text : String} {n : Nat}
    (h : n < (stmtSites [] {} (Fragment.parse text).unit.stmt).length) :
    siteOf text n ∈ stmtSites [] {} (Fragment.parse text).unit.stmt := by
  unfold siteOf
  rw [List.getElem?_eq_getElem h]
  exact List.getElem_mem h

/-- What follows the declaration of `x` has a block with an `x` of another type. -/
theorem let_kept_beside_other_type :
    let rest := siteOf "{ let x = 1 { var x = true x = false } x }" 4
    (stateAfter (execBody 1 rest.tree none ⟨[(⟨"x", .int⟩, .int 1)]⟩)).get? ⟨"x", .int⟩ =
        some (.int 1) ∧
      execBody 1 (Typed.Stmt.pinAll ⟨"x", .int⟩ (.int 1) rest.tree) none ⟨[(⟨"x", .int⟩, .int 1)]⟩ =
        execBody 1 rest.tree none ⟨[(⟨"x", .int⟩, .int 1)]⟩ := by
  intro rest
  have hdeclares : rest.scopes.Declares 1 ⟨"x", true, .int⟩ :=
    ⟨⟨[⟨"x", true, .int⟩]⟩, by decide +kernel, by decide +kernel⟩
  have hspares : rest.SparesNamesakes 1 ⟨"x", true, .int⟩ := by
    refine ⟨by decide +kernel, ?_⟩
    intro k w hk hw
    obtain ⟨s, hs, _⟩ := hw
    have hlength : rest.scopes.length = 2 := by decide +kernel
    have hlt := ScopeStack.lt_of_scopeAt? hs
    omega
  exact part_keeps_variable [] "{ let x = 1 { var x = true x = false } x }" (by decide +kernel) rest
    (siteOf_mem (by decide +kernel)) 1 ⟨"x", true, .int⟩ hdeclares hspares (.inl rfl) 1 none
    ⟨[(⟨"x", .int⟩, .int 1)]⟩ (.int 1) (by decide)

theorem tree_of_namesakes :
    (Link.after [] (Fragment.parse "{ var x = 1 { var x = 2 } x }")).layer.stmt =
      .block [.decl ⟨"x", false, .int⟩ (.literal (.int 1)),
        .block [.decl ⟨"x", false, .int⟩ (.literal (.int 2))],
        .expr (.read ⟨"x", false, .int⟩)] := by cbv

theorem inner_of_namesakes : (siteOf "{ var x = 1 { var x = 2 } x }" 5).tree =
    [.block [.decl ⟨"x", false, .int⟩ (.literal (.int 2))]] := by cbv

/-- A block that declares a variable of the same name and type alters the one outside, in the run of
the program itself. -/
theorem namesake_alters_outer :
    ¬ ∀ text : String, (Link.after [] (Fragment.parse text)).layer.diagnostics = [] →
      ∀ site ∈ stmtSites [] {} (Fragment.parse text).unit.stmt, site.opensScope = true →
        ∀ k v, site.scopes.Declares k v → ¬ site.Assigns k v → ∀ s ∈ site.tree,
          ∀ limit last store value,
            Reaches limit (.exec (Link.after [] (Fragment.parse text)).layer.stmt none, {})
              (.exec s last, store) →
            store.get? v.slot = some value →
              (stateAfter (Run.exec limit s last store)).get? v.slot = some value := by
  intro h
  let text := "{ var x = 1 { var x = 2 } x }"
  let x : Variable := ⟨"x", false, .int⟩
  let inner : Typed.Stmt := .block [.decl x (.literal (.int 2))]
  have hdeclares : (siteOf text 5).scopes.Declares 1 x :=
    ⟨⟨[x]⟩, by decide +kernel, by decide +kernel⟩
  have hassigns : ¬ (siteOf text 5).Assigns 1 x := by
    unfold Site.Assigns
    decide +kernel
  have hinner : (siteOf text 5).tree = [inner] := inner_of_namesakes
  have hreaches : Reaches 0 (.exec (Link.after [] (Fragment.parse text)).layer.stmt none, {})
      (.exec inner (some (.int 1)), ⟨[(x.slot, .int 1)]⟩) := by
    rw [tree_of_namesakes]
    exact .tail (.tail (.tail .refl .block) (.rest rfl)) .first
  have hkept := h text (by decide +kernel) (siteOf text 5) (siteOf_mem (by decide +kernel))
    (by decide +kernel) 1 x hdeclares hassigns inner (hinner ▸ List.mem_cons_self) 0
    (some (.int 1)) ⟨[(x.slot, .int 1)]⟩ (.int 1) hreaches (by decide)
  revert hkept
  decide +kernel

end Scriptlet.Chain
