import Scriptlet.Binding.Layer
import Scriptlet.Proofs.Binding.Safe
import Scriptlet.Syntax.Fragment

/-!
# What a store keeps from finished scopes

Nothing is ever taken out of a store, so it holds the values of variables that no name stands for
any more. A fragment cannot tell: from two stores that agree on the variables it can name, it runs
to the same outcome, and the stores agree on these variables again.
-/

namespace Scriptlet.Run

open Typed (Slot Expr Stmt)

/-! ## Stores that agree -/

def Store.Agree (known : List Slot) (s s' : Store) : Prop :=
  ∀ slot ∈ known, s.get? slot = s'.get? slot

namespace Store.Agree

variable {known known' : List Slot} {s s' : Store}

theorem mono (h : Store.Agree known s s') (hsub : known' ⊆ known) : Store.Agree known' s s' :=
  fun slot hslot => h slot (hsub hslot)

theorem set (h : Store.Agree known s s') (slot : Slot) (value : Value) :
    Store.Agree (slot :: known) (s.set slot value) (s'.set slot value) := by
  intro slot' hslot'
  by_cases he : slot = slot'
  · subst he
    rw [get?_set_self, get?_set_self]
  · rw [get?_set_of_ne he, get?_set_of_ne he]
    exact h slot' ((List.mem_cons.mp hslot').resolve_left (Ne.symm he))

end Store.Agree

/-! ## Runs that do not see the rest -/

section
variable {α β : Type} {known mid after : List Slot}

/-- The run does not see what is outside `known`: from stores that agree there it comes to the same
end, with stores that agree on `after`, or is stopped for the same reason, with stores that still
agree on `known`. -/
def Oblivious (known after : List Slot) (m : Exec α) : Prop :=
  Coupled (Store.Agree known) m m (fun a a' s s' => a = a' ∧ Store.Agree after s s')
    (fun h h' s s' => h = h' ∧ Store.Agree known s s')

namespace Oblivious

theorem pure (a : α) : Oblivious known known (Pure.pure a) := fun _ _ h => ⟨rfl, h⟩

theorem ofExcept (r : Except Halt α) : Oblivious known known (ofExcept r) := by
  cases r with
  | ok a => exact pure a
  | error e => exact fun _ _ h => ⟨rfl, h⟩

theorem assign (slot : Slot) (value : Value) :
    Oblivious known (slot :: known) (assign slot value) :=
  fun _ _ h => ⟨rfl, h.set slot value⟩

theorem forget {m : Exec α} (h : Oblivious known after m) (hsub : mid ⊆ after) :
    Oblivious known mid m :=
  h.conseq (fun _ _ hs => hs) (fun _ _ _ _ hs => ⟨hs.1, hs.2.mono hsub⟩) fun _ _ _ _ hs => hs

/-- A run that is stopped later on was not stopped before, so `known` has to be among what is known
in the middle. -/
theorem bind {m : Exec α} {f : α → Exec β} (hm : Oblivious known mid m)
    (hf : ∀ a, Oblivious mid after (f a)) (hsub : known ⊆ mid) :
    Oblivious known after (m >>= f) := by
  refine Coupled.bind hm fun a a' => Coupled.of_imp fun ha => ?_
  subst ha
  refine (hf a).conseq (fun _ _ hs => hs) (fun _ _ _ _ hs => hs) ?_
  exact fun _ _ _ _ hs => ⟨hs.1, hs.2.mono hsub⟩

theorem bind_same {m : Exec α} {f : α → Exec β} (hm : Oblivious known known m)
    (hf : ∀ a, Oblivious known after (f a)) : Oblivious known after (m >>= f) :=
  hm.bind hf (List.Subset.refl known)

theorem whileLoop {cond : Exec Bool} {body : Option Value → Exec (Option Value)}
    (hcond : Oblivious known known cond) (hbody : ∀ last, Oblivious known known (body last)) :
    ∀ n last, Oblivious known known (whileLoop cond body n last)
  | 0, _ => fun _ _ h => ⟨rfl, h⟩
  | n + 1, last => by
    unfold Run.whileLoop
    refine hcond.bind_same fun b => ?_
    cases b with
    | true => exact (hbody last).bind_same fun last => whileLoop hcond hbody n last
    | false => exact pure last

theorem forLoop {slot : Slot} {body : Option Value → Exec (Option Value)}
    (hbody : ∀ last, Oblivious (slot :: known) known (body last)) :
    ∀ n k last, Oblivious known known (forLoop slot body n k last)
  | 0, _, last => pure last
  | n + 1, k, last => by
    unfold Run.forLoop
    rw [← bind_assoc]
    have hround : Oblivious known known (do Run.assign slot (.int (.ofInt k)); body last) :=
      (assign slot _).bind (fun _ => hbody last) (List.subset_cons_self slot known)
    exact hround.bind_same fun last => forLoop hbody n (k + 1) last

theorem error_iff {m : Exec α} (h : Oblivious known after m) {s s' : Store}
    (hs : Store.Agree known s s') (halt : Halt) :
    (∃ t, m s = .error halt t) ↔ ∃ t, m s' = .error halt t := by
  have hboth := h s s' hs
  cases hr : m s with
  | ok a t =>
    cases hr' : m s' with
    | ok a' t' => simp
    | error e' t' => rw [hr, hr'] at hboth; exact hboth.elim
  | error e t =>
    cases hr' : m s' with
    | ok a' t' => rw [hr, hr'] at hboth; exact hboth.elim
    | error e' t' => rw [hr, hr'] at hboth; simp [hboth.1]

end Oblivious

end

/-! ## Safe trees -/

theorem eval_oblivious {known : List Slot} : ∀ {e : Expr}, e.Safe known →
    Oblivious known known (eval e)
  | .literal value, _ => Oblivious.pure value
  | .unary row operand, ⟨_, _, hsafe⟩ => by
    unfold eval
    exact (eval_oblivious hsafe).bind_same fun v => Oblivious.ofExcept _
  | .binary lhs row rhs, ⟨_, _, _, hlhs, hrhs⟩ => by
    unfold eval
    refine (eval_oblivious hlhs).bind_same fun l => ?_
    exact (eval_oblivious hrhs).bind_same fun r => Oblivious.ofExcept _
  | .read v, hv => by
    intro s s' hs
    have hget : s.get? v.slot = s'.get? v.slot := hs v.slot hv
    rw [eval_read, eval_read, hget]
    cases s'.get? v.slot with
    | some value => exact ⟨rfl, hs⟩
    | none => exact ⟨rfl, hs⟩
  | .assign v rhs, ⟨_, hsafe⟩ => by
    unfold eval
    refine (eval_oblivious hsafe).bind_same fun value => ?_
    have hassign : Oblivious known known (assign v.slot value) :=
      (Oblivious.assign v.slot value).forget (List.subset_cons_self _ _)
    exact hassign.bind_same fun _ => Oblivious.pure value
  | .paren inner, hsafe => by
    unfold eval
    exact eval_oblivious (e := inner) hsafe

theorem evalInt_oblivious {known : List Slot} {e : Expr} (h : e.Safe known) :
    Oblivious known known (evalInt e) :=
  (eval_oblivious h).bind_same fun _ => Oblivious.ofExcept _

theorem evalBool_oblivious {known : List Slot} {e : Expr} (h : e.Safe known) :
    Oblivious known known (evalBool e) :=
  (eval_oblivious h).bind_same fun _ => Oblivious.ofExcept _

-- A branch, a loop's body or a block may declare variables; what they are worth is not counted on
-- after it, so that only `known` is left to agree on.

mutual

theorem exec_oblivious (limit : Nat) : ∀ {known : List Slot} {s : Stmt}, s.Safe known → ∀ last,
    Oblivious known (s.after known) (exec limit s last)
  | _, .block body, hsafe, last => by
    unfold exec
    exact execBody_oblivious limit hsafe last
  | _, .expr e, hsafe, last => by
    unfold exec
    exact (eval_oblivious hsafe).bind_same fun v => Oblivious.pure _
  | known, .decl v init, ⟨_, hsafe⟩, last => by
    unfold exec
    refine (eval_oblivious hsafe).bind_same fun value => ?_
    refine (Oblivious.assign v.slot value).bind (fun _ => ?_) (List.subset_cons_self _ _)
    exact Oblivious.pure (some value)
  | known, .ifThen cond yes, ⟨hcond, hyes⟩, last => by
    unfold exec
    refine (evalBool_oblivious hcond).bind_same fun b => ?_
    cases b with
    | true => exact (exec_oblivious limit hyes last).forget (yes.subset_after known)
    | false => exact Oblivious.pure last
  | known, .ifElse cond yes no, ⟨hcond, hyes, hno⟩, last => by
    unfold exec
    refine (evalBool_oblivious hcond).bind_same fun b => ?_
    cases b with
    | true => exact (exec_oblivious limit hyes last).forget (yes.subset_after known)
    | false => exact (exec_oblivious limit hno last).forget (no.subset_after known)
  | known, .while cond body, ⟨hcond, hbody⟩, last => by
    unfold exec
    refine Oblivious.whileLoop (evalBool_oblivious hcond) (fun last => ?_) limit last
    exact (exec_oblivious limit hbody last).forget (body.subset_after known)
  | known, .for v lower upper body, ⟨_, hlower, hupper, hbody⟩, last => by
    unfold exec
    refine (evalInt_oblivious hlower).bind_same fun lo => ?_
    refine (evalInt_oblivious hupper).bind_same fun hi => ?_
    refine Oblivious.forLoop (fun last => ?_) _ _ last
    refine (exec_oblivious limit hbody last).forget ?_
    exact List.Subset.trans (List.subset_cons_self v.slot known) (body.subset_after _)

theorem execBody_oblivious (limit : Nat) : ∀ {known : List Slot} {ss : List Stmt},
    Stmt.AllSafe known ss → ∀ last, Oblivious known known (execBody limit ss last)
  | _, [], _, last => Oblivious.pure last
  | known, s :: ss, ⟨hs, hss⟩, last => by
    unfold execBody
    have hsub := s.subset_after known
    refine (exec_oblivious limit hs last).bind (fun last => ?_) hsub
    exact (execBody_oblivious limit hss last).forget hsub

end

end Scriptlet.Run

/-! ## Fragments -/

namespace Scriptlet.ScopeStack

open Run (Store)
open Typed (Slot Variable)

def visible (scopes : ScopeStack) : List Slot :=
  ((scopes.flatMap Scope.declared).filter fun v => scopes.find? v.name = some v).map Variable.slot

def SameValues (scopes : ScopeStack) (s s' : Store) : Prop :=
  ∀ name v, scopes.find? name = some v → s.get? v.slot = s'.get? v.slot

theorem knows_visible (scopes : ScopeStack) : Binding.Knows scopes.visible scopes := by
  intro name v hv
  have hname : v.name = name := name_of_find? hv
  refine List.mem_map_of_mem (List.mem_filter.mpr ⟨List.mem_flatMap.mpr (mem_of_find? hv), ?_⟩)
  rw [hname, hv]
  exact decide_eq_true rfl

theorem sameValues_iff {scopes : ScopeStack} {s s' : Store} :
    scopes.SameValues s s' ↔ Store.Agree scopes.visible s s' := by
  constructor
  · intro h slot hslot
    obtain ⟨v, hv, rfl⟩ := List.mem_map.mp hslot
    exact h v.name v (of_decide_eq_true (List.mem_filter.mp hv).2)
  · intro h name v hv
    exact h v.slot (scopes.knows_visible name v hv)

end Scriptlet.ScopeStack

namespace Scriptlet.Binding

open Run (Store)
open Syntax (Fragment)
open Typed (Slot)

theorem declared_mem_after {known : List Slot} (outer : ScopeStack) (s : Syntax.Stmt) :
    ∀ v ∈ (bindStmt outer {} s).scope.declared,
      v.slot ∈ (bindStmt outer {} s).tree.after known := by
  cases s with
  | decl keyword ident eq init =>
    intro w hw
    rcases declareIn_scope {} ident ⟨ident.text, keyword.kind = .letKeyword,
      (bindExpr ({} :: outer) init).tree.type⟩ with h | ⟨_, h⟩
    · have hnone : (bindStmt outer {} (.decl keyword ident eq init)).scope.declared = [] :=
        congrArg Scope.declared h
      rw [hnone] at hw
      cases hw
    · have hone : (bindStmt outer {} (.decl keyword ident eq init)).scope.declared = _ :=
        congrArg Scope.declared h
      rw [hone] at hw
      rw [List.mem_singleton.mp hw]
      exact List.mem_cons_self
  | _ => exact fun _ hw => absurd hw List.not_mem_nil

/-- Two stores that agree on what the names of earlier fragments stand for cannot be told apart by a
fragment, whatever is wrong with it: under every limit it comes to the same value or is stopped for
the same reason, and the stores agree again, after an end also on what the fragment declares. So it
goes on for ever from both stores or from neither. -/
theorem leftovers_unobservable (history : List Layer) (unit : Syntax.SourceUnit)
    (store store' : Store) (h : (Layer.scopes history).SameValues store store') :
    let layer := Layer.bind history unit
    (∀ limit, match Run.run limit layer.stmt store, Run.run limit layer.stmt store' with
      | .ok value s, .ok value' s' => value = value' ∧ (Layer.scopes history).SameValues s s' ∧
        ∀ v ∈ layer.declared, s.get? v.slot = s'.get? v.slot
      | .error halt s, .error halt' s' => halt = halt' ∧ (Layer.scopes history).SameValues s s'
      | _, _ => False) ∧
    ((∀ limit, ∃ s, Run.run limit layer.stmt store = .error .cutOff s) ↔
      ∀ limit, ∃ s, Run.run limit layer.stmt store' = .error .cutOff s) := by
  intro layer
  let known := (Layer.scopes history).visible
  have hknows : Knows known ({} :: Layer.scopes history) := (ScopeStack.knows_visible _).enter
  have hsafe : layer.stmt.Safe known := (bindStmt_safe hknows unit.stmt).1
  have hdeclared : ∀ v ∈ layer.declared, v.slot ∈ layer.stmt.after known :=
    declared_mem_after (Layer.scopes history) unit.stmt
  have hagree : Store.Agree known store store' := ScopeStack.sameValues_iff.mp h
  have hrun limit := Run.exec_oblivious limit hsafe none
  refine ⟨fun limit => ?_, forall_congr' fun limit => (hrun limit).error_iff hagree .cutOff⟩
  have hboth := hrun limit store store' hagree
  unfold Run.run
  cases hr : Run.exec limit layer.stmt none store with
  | ok value s =>
    cases hr' : Run.exec limit layer.stmt none store' with
    | ok value' s' =>
      rw [hr, hr'] at hboth
      obtain ⟨hvalue, hafter⟩ := hboth
      refine ⟨hvalue, ?_, fun v hv => hafter v.slot (hdeclared v hv)⟩
      exact ScopeStack.sameValues_iff.mpr (hafter.mono (layer.stmt.subset_after known))
    | error halt' s' => rw [hr, hr'] at hboth; exact hboth
  | error halt s =>
    cases hr' : Run.exec limit layer.stmt none store' with
    | ok value' s' => rw [hr, hr'] at hboth; exact hboth
    | error halt' s' =>
      rw [hr, hr'] at hboth
      exact ⟨hboth.1, ScopeStack.sameValues_iff.mpr hboth.2⟩

/-- A block with a `y` of its own divides by zero, also where a store has been left with two others
of that name. -/
theorem namesakes_left_unobservable :
    let history := [Layer.bind [] (Fragment.parse "var x = 2").unit]
    let unit := (Fragment.parse "\x7b var y = x x = x + y 8 / (x - 4) \x7d").unit
    let store : Store := ⟨[(⟨"x", .int⟩, .int 2)]⟩
    let store' : Store :=
      ⟨[(⟨"y", .int⟩, .int 7), (⟨"x", .int⟩, .int 2), (⟨"y", .bool⟩, .bool true)]⟩
    (Layer.scopes history).SameValues store store' ∧
      ∃ s, Run.run 0 (Layer.bind history unit).stmt store' = .error (.divisionByZero 8) s := by
  intro history unit store store'
  have hsame : (Layer.scopes history).SameValues store store' := by
    rw [ScopeStack.sameValues_iff]
    unfold Store.Agree
    decide +kernel
  have hhalt : Run.haltOf? (Run.run 0 (Layer.bind history unit).stmt store) =
      some (.divisionByZero 8) := by decide +kernel
  have hboth := (leftovers_unobservable history unit store store' hsame).1 0
  refine ⟨hsame, ?_⟩
  cases hr : Run.run 0 (Layer.bind history unit).stmt store with
  | ok value s => rw [hr] at hhalt; cases hhalt
  | error halt s =>
    rw [hr] at hhalt
    cases hhalt
    cases hr' : Run.run 0 (Layer.bind history unit).stmt store' with
    | ok value' s' => rw [hr, hr'] at hboth; exact hboth.elim
    | error halt' s' =>
      rw [hr, hr'] at hboth
      exact ⟨s', by rw [hboth.1]⟩

end Scriptlet.Binding
