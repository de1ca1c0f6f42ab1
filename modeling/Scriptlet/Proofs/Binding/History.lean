import Scriptlet.Proofs.Binding.Sites
import Scriptlet.Proofs.Binding.Stacked
import Scriptlet.Proofs.Incremental

/-!
# What earlier fragments leave behind

Fragments are bound one after the other, faulty ones too. A name that a fragment does not declare
itself stands for what the latest earlier fragment that declares it has declared. The diagnostics of
a layer are those found in each fragment so far, in order.
-/

namespace Scriptlet

open Typed (Variable)

theorem ScopeStack.find?_append (stack stack' : ScopeStack) (name : String) :
    find? (stack ++ stack') name = (find? stack name).or (find? stack' name) :=
  List.findSome?_append

/-- Growing leaves alone the scopes outside the one it starts from. -/
theorem ScopeStack.Grows.exists_own {P : Variable → Prop} {scope : Scope}
    {outer stack : ScopeStack} (h : Grows P (scope :: outer) stack) :
    ∃ first own, stack = first :: own ++ outer := by
  generalize hstart : scope :: outer = start at h
  induction h with
  | refl => exact ⟨scope, [], hstart.symm⟩
  | enter _ ih =>
    obtain ⟨first, own, rfl⟩ := ih
    exact ⟨{}, first :: own, rfl⟩
  | declare _ _ ih =>
    obtain ⟨first, own, hown⟩ := ih
    cases hown
    exact ⟨_, own, rfl⟩

namespace Binding

namespace Layer

/-! ## Rebuilding the scopes -/

def redeclare? (stack : ScopeStack) (v : Variable) : Option ScopeStack :=
  match stack.declare v with
  | .added stack => some stack
  | .duplicate => some stack
  | .outside => none

/-- The scopes of a history, entered and filled again from the oldest layer on. -/
def rebuilt? (history : List Layer) : Option ScopeStack :=
  history.reverse.foldlM (fun stack l => l.declared.foldlM redeclare? stack.enter) []

theorem foldlM_redeclare? {outer : ScopeStack} : ∀ {scope : Scope} {vs : List Variable},
    (scope.declared ++ vs).Pairwise (·.name ≠ ·.name) →
    vs.foldlM redeclare? (scope :: outer) = some (⟨scope.declared ++ vs⟩ :: outer)
  | scope, [], _ => by simp
  | scope, v :: vs, h => by
    have hnew : scope.find? v.name = none := by
      rw [Scope.find?, List.find?_eq_none]
      intro w hw
      simpa using (List.pairwise_append.mp h).2.2 w hw v List.mem_cons_self
    have hstep : redeclare? (scope :: outer) v = some (⟨scope.declared ++ [v]⟩ :: outer) := by
      simp [redeclare?, ScopeStack.declare, Scope.declare?, hnew]
    have hrest := @foldlM_redeclare? outer ⟨scope.declared ++ [v]⟩ vs (by simpa using h)
    simpa [hstep] using hrest

theorem rebuilt?_eq : ∀ {history : List Layer},
    (∀ l ∈ history, l.declared.Pairwise (·.name ≠ ·.name)) →
    rebuilt? history = some (scopes history)
  | [], _ => rfl
  | l :: history, h => by
    obtain ⟨hl, hhistory⟩ := List.forall_mem_cons.mp h
    have hbefore := rebuilt?_eq hhistory
    have hlayer := @foldlM_redeclare? (scopes history) {} l.declared (by simpa using hl)
    unfold rebuilt? at hbefore ⊢
    rw [List.reverse_cons, List.foldlM_append, hbefore]
    simpa [ScopeStack.enter, scopes] using hlayer

/-! ## The latest declaration -/

/-- Among layers, oldest first, the latest that declares `name` declares it as `v`. -/
def Latest (layers : List Layer) (name : String) (v : Variable) : Prop :=
  ∃ before l after, layers = before ++ l :: after ∧ (v ∈ l.declared ∧ v.name = name) ∧
    ∀ l' ∈ after, ∀ w ∈ l'.declared, w.name ≠ name

theorem find?_scopes_eq_none_iff {history : List Layer} {name : String} :
    (scopes history).find? name = none ↔ ∀ l ∈ history, ∀ w ∈ l.declared, w.name ≠ name := by
  simp [ScopeStack.find?, scopes, Scope.find?]

theorem find?_scopes_eq_some_iff {history : List Layer}
    (h : ∀ l ∈ history, l.declared.Pairwise (·.name ≠ ·.name)) {name : String} {v : Variable} :
    (scopes history).find? name = some v ↔ Latest history.reverse name v := by
  have hfind : (scopes history).find? name =
      history.findSome? fun l => Scope.find? ⟨l.declared⟩ name := by
    simp [ScopeStack.find?, scopes, List.findSome?_map, Function.comp_def]
  rw [hfind, List.findSome?_eq_some_iff]
  constructor
  · rintro ⟨after, l, before, rfl, hl, hafter⟩
    refine ⟨before.reverse, l, after.reverse, by simp, ?_, ?_⟩
    · exact (Scope.find?_eq_some_iff_of_pairwise (h l (by simp))).mp hl
    · intro l' hl'
      simpa [Scope.find?] using hafter l' (List.mem_reverse.mp hl')
  · rintro ⟨before, l, after, hlayers, hl, hafter⟩
    have hhistory : history = after.reverse ++ l :: before.reverse := by
      rw [← List.reverse_reverse history, hlayers]
      simp
    refine ⟨after.reverse, l, before.reverse, hhistory, ?_, ?_⟩
    · exact (Scope.find?_eq_some_iff_of_pairwise (h l (by simp [hhistory]))).mpr hl
    · intro l' hl'
      simpa [Scope.find?] using hafter l' (List.mem_reverse.mp hl')

/-! ## Units bound one after the other -/

theorem bind_declared_pairwise (history : List Layer) (unit : Syntax.SourceUnit) :
    (bind history unit).declared.Pairwise (·.name ≠ ·.name) := by
  simp only [bind, bindStmt_scope, List.nil_append]
  cases added? (scopes history) {} unit.stmt <;> simp

theorem bindAll_declared_pairwise : ∀ {history : List Layer} (units : List Syntax.SourceUnit),
    (∀ l ∈ history, l.declared.Pairwise (·.name ≠ ·.name)) →
    ∀ l ∈ bindAll history units, l.declared.Pairwise (·.name ≠ ·.name)
  | _, [], h => h
  | history, u :: us, h => bindAll_declared_pairwise us
      (List.forall_mem_cons.mpr ⟨bind_declared_pairwise history u, h⟩)

def ownReports (history : List Layer) : List Syntax.SourceUnit → List (List Diagnostic)
  | [] => []
  | u :: us =>
    (bindStmt (scopes history) {} u.stmt).reports :: ownReports (bind history u :: history) us

theorem length_bindAll : ∀ {history : List Layer} (units : List Syntax.SourceUnit),
    (bindAll history units).length = history.length + units.length
  | _, [] => rfl
  | history, u :: us => by
    rw [bindAll, length_bindAll us]
    simp only [List.length_cons]
    omega

theorem suffix_bindAll : ∀ (history : List Layer) (units : List Syntax.SourceUnit),
    history <:+ bindAll history units
  | history, [] => List.suffix_refl history
  | history, u :: us => (List.suffix_cons _ _).trans (suffix_bindAll (bind history u :: history) us)

theorem bindAll_diagnostics : ∀ {history : List Layer} {units : List Syntax.SourceUnit} {k : Nat}
    {l : Layer}, (bindAll history units).reverse[history.length + k]? = some l →
    l.diagnostics = diagnosticsOf history ++ ((ownReports history units).take (k + 1)).flatten
  | history, [], k, l, hl => by
    simp [bindAll] at hl
  | history, u :: us, 0, l, hl => by
    obtain ⟨newer, hnewer⟩ := suffix_bindAll (bind history u :: history) us
    have hbound : l = bind history u := by
      rw [bindAll, ← hnewer] at hl
      simpa using hl.symm
    simp [hbound, ownReports, bind]
  | history, u :: us, k + 1, l, hl => by
    have hlen : history.length + (k + 1) = (bind history u :: history).length + k := by
      simp only [List.length_cons]
      omega
    rw [bindAll, hlen] at hl
    have hl := bindAll_diagnostics hl
    have hown : diagnosticsOf (bind history u :: history) =
        diagnosticsOf history ++ (bindStmt (scopes history) {} u.stmt).reports := rfl
    rw [hl, hown]
    simp [ownReports]

end Layer

/-! ## The next unit -/

/-- Whatever units are bound one after the other, the scopes that the next unit finds are those of
the layers, entered and filled again from the oldest on. At each site in that unit a name that none
of its own scopes declares stands for the variable of the latest layer that declares it, and for
nothing if there is none; nothing else about the layers has a say in how the unit is bound. Each
layer's diagnostics are those found in every unit up to its own, in order. -/
theorem names_stand_for_latest (units : List Syntax.SourceUnit) (unit : Syntax.SourceUnit) :
    let history := Layer.bindAll [] units
    Layer.rebuilt? history = some (Layer.scopes history) ∧
    (∀ site ∈ stmtSites (Layer.scopes history) {} unit.stmt, ∃ own : ScopeStack,
      site.scopes = own ++ Layer.scopes history ∧ ∀ name, own.find? name = none →
        (∀ v, site.scopes.find? name = some v ↔ Layer.Latest history.reverse name v) ∧
        (site.scopes.find? name = none ↔ ∀ l ∈ history, ∀ w ∈ l.declared, w.name ≠ name)) ∧
    (∀ stack : ScopeStack,
      (∀ name v, stack.find? name = some v ↔ Layer.Latest history.reverse name v) →
      bindStmt stack {} unit.stmt = bindStmt (Layer.scopes history) {} unit.stmt) ∧
    history.length = units.length ∧ ∀ k l, history.reverse[k]? = some l →
      l.diagnostics = ((Layer.ownReports [] units).take (k + 1)).flatten := by
  intro history
  have hdistinct : ∀ l ∈ history, l.declared.Pairwise (·.name ≠ ·.name) :=
    Layer.bindAll_declared_pairwise units (by simp)
  refine ⟨Layer.rebuilt?_eq hdistinct, fun site hsite => ?_, fun stack hstack => ?_, ?_, ?_⟩
  · obtain ⟨first, own, hscopes⟩ :=
      (stmtSites_grows (List.Subset.refl _) site hsite).exists_own
    refine ⟨first :: own, hscopes, fun name hname => ?_⟩
    have hfind : site.scopes.find? name = (Layer.scopes history).find? name := by
      rw [hscopes, ScopeStack.find?_append, hname, Option.none_or]
    rw [hfind]
    exact ⟨fun v => Layer.find?_scopes_eq_some_iff hdistinct, Layer.find?_scopes_eq_none_iff⟩
  · apply bindStmt_alike
    intro name
    apply Option.ext
    intro v
    rw [hstack, Layer.find?_scopes_eq_some_iff hdistinct]
  · exact (Layer.length_bindAll units).trans (Nat.zero_add _)
  · intro k l hl
    exact @Layer.bindAll_diagnostics [] units k l (by simpa using hl)

/-- A name redeclared with another type, after which a faulty unit declares nothing. -/
theorem redeclared_name_stands_for_latest :
    let units := ["var x = 10", "let x = true", "x + y"].map fun text =>
      (Syntax.Fragment.parse text).unit
    let history := Layer.bindAll [] units
    let next := (Syntax.Fragment.parse "x = 1").unit
    (∃ site ∈ stmtSites (Layer.scopes history) {} next.stmt,
      site.scopes.find? "x" = some ⟨"x", true, .bool⟩) ∧
    Layer.Latest history.reverse "x" ⟨"x", true, .bool⟩ ∧
    ∃ l, history.reverse[2]? = some l ∧ l.diagnostics.map (·.fault) =
      [.undefinedName "y", .undefinedBinary "+" "Bool" "Int"] := by
  intro units history next
  obtain ⟨_, hsites, _, hlength, hdiagnostics⟩ := names_stand_for_latest units next
  let site : Site := ⟨{} :: Layer.scopes history, .stmt next.stmt⟩
  have hsite : site ∈ stmtSites (Layer.scopes history) {} next.stmt := by
    unfold stmtSites
    exact List.mem_cons_self
  have hfind : site.scopes.find? "x" = some ⟨"x", true, .bool⟩ := by decide +kernel
  obtain ⟨own, hown, hnames⟩ := hsites site hsite
  obtain rfl : [{}] = own := List.append_cancel_right hown
  refine ⟨⟨site, hsite, hfind⟩, ((hnames "x" rfl).1 _).mp hfind, ?_⟩
  have hthree : 2 < history.reverse.length := by
    rw [List.length_reverse, hlength]
    decide
  refine ⟨_, List.getElem?_eq_getElem hthree, ?_⟩
  rw [hdiagnostics 2 _ (List.getElem?_eq_getElem hthree)]
  decide +kernel

end Binding

end Scriptlet
