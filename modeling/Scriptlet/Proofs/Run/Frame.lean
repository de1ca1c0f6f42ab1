import Scriptlet.Proofs.Run.Triple

/-!
# Slots that are not written

A tree leaves a slot alone that it neither assigns to nor declares in. While such a slot keeps its
value, every read of it gives that value, so that the tree runs like the one in which the reads are
replaced by it.
-/

namespace Scriptlet.Typed

namespace Expr

def writes : Expr → List Slot
  | literal _ | read _ => []
  | unary _ operand => operand.writes
  | binary lhs _ rhs => lhs.writes ++ rhs.writes
  | assign v rhs => v.slot :: rhs.writes
  | paren inner => inner.writes

def pin (slot : Slot) (value : Value) : Expr → Expr
  | literal constant => literal constant
  | unary row operand => unary row (operand.pin slot value)
  | binary lhs row rhs => binary (lhs.pin slot value) row (rhs.pin slot value)
  | read v => if v.slot = slot then literal value else read v
  | assign v rhs => assign v (rhs.pin slot value)
  | paren inner => paren (inner.pin slot value)

end Expr

namespace Stmt

mutual

def writes : Stmt → List Slot
  | .block body => writesAll body
  | .expr e => e.writes
  | .decl v init => v.slot :: init.writes
  | .ifThen cond yes => cond.writes ++ yes.writes
  | .ifElse cond yes no => cond.writes ++ (yes.writes ++ no.writes)
  | .while cond body => cond.writes ++ body.writes
  | .for v lower upper body => v.slot :: (lower.writes ++ (upper.writes ++ body.writes))

def writesAll : List Stmt → List Slot
  | [] => []
  | s :: ss => s.writes ++ writesAll ss

end

mutual

def pin (slot : Slot) (value : Value) : Stmt → Stmt
  | .block body => .block (pinAll slot value body)
  | .expr e => .expr (e.pin slot value)
  | .decl v init => .decl v (init.pin slot value)
  | .ifThen cond yes => .ifThen (cond.pin slot value) (yes.pin slot value)
  | .ifElse cond yes no => .ifElse (cond.pin slot value) (yes.pin slot value) (no.pin slot value)
  | .while cond body => .while (cond.pin slot value) (body.pin slot value)
  | .for v lower upper body =>
    .for v (lower.pin slot value) (upper.pin slot value) (body.pin slot value)

def pinAll (slot : Slot) (value : Value) : List Stmt → List Stmt
  | [] => []
  | s :: ss => s.pin slot value :: pinAll slot value ss

end

end Stmt

end Scriptlet.Typed

namespace Scriptlet.Run

open Typed (Slot Expr Stmt)

/-! ## Runs that are alike -/

section
variable {I : Store → Prop} {α β : Type}

structure Alike (I : Store → Prop) (m m' : Exec α) : Prop where
  keeps : Triple I m (fun _ => I) (fun _ => I)
  same : ∀ s, I s → m' s = m s

namespace Alike

theorem of_keeps {m : Exec α} (h : Triple I m (fun _ => I) (fun _ => I)) : Alike I m m :=
  ⟨h, fun _ _ => rfl⟩

theorem pure (a : α) : Alike I (Pure.pure a) (Pure.pure a) := of_keeps fun _ hs => hs

theorem bind {m m' : Exec α} {f f' : α → Exec β} (hm : Alike I m m')
    (hf : ∀ a, Alike I (f a) (f' a)) : Alike I (m >>= f) (m' >>= f') := by
  refine ⟨hm.keeps.bind fun a => (hf a).keeps, fun s hs => ?_⟩
  show EStateM.bind m' f' s = EStateM.bind m f s
  have hkeeps := hm.keeps s hs
  unfold EStateM.bind
  rw [hm.same s hs]
  cases h : m s with
  | ok a t =>
    rw [h] at hkeeps
    exact (hf a).same t hkeeps
  | error e t => rfl

theorem ofExcept (r : Except Halt α) : Alike I (ofExcept r) (Run.ofExcept r) := by
  cases r with
  | ok a => exact pure a
  | error e => exact of_keeps fun _ hs => hs

theorem whileLoop {cond cond' : Exec Bool} {body body' : Option Value → Exec (Option Value)}
    (hcond : Alike I cond cond') (hbody : ∀ last, Alike I (body last) (body' last)) :
    ∀ n last, Alike I (whileLoop cond body n last) (Run.whileLoop cond' body' n last)
  | 0, _ => of_keeps fun _ hs => hs
  | n + 1, last => by
    unfold Run.whileLoop
    refine hcond.bind fun b => ?_
    cases b with
    | true => exact (hbody last).bind fun last => whileLoop hcond hbody n last
    | false => exact pure last

theorem forLoop {slot : Slot} {body body' : Option Value → Exec (Option Value)}
    (hassign : ∀ value, Alike I (assign slot value) (assign slot value))
    (hbody : ∀ last, Alike I (body last) (body' last)) :
    ∀ n k last, Alike I (forLoop slot body n k last) (Run.forLoop slot body' n k last)
  | 0, _, last => pure last
  | n + 1, k, last => by
    unfold Run.forLoop
    refine (hassign _).bind fun _ => ?_
    exact (hbody last).bind fun last => forLoop hassign hbody n (k + 1) last

end Alike

end

/-! ## Pinned trees -/

section
variable {slot : Slot} {value : Value}

def Store.Holds (slot : Slot) (value : Value) (s : Store) : Prop := s.get? slot = some value

theorem assign_alike {slot' : Slot} (h : slot' ≠ slot) (value' : Value) :
    Alike (Store.Holds slot value) (assign slot' value') (assign slot' value') := by
  refine Alike.of_keeps fun s hs => ?_
  show (s.set slot' value').get? slot = some value
  rw [Store.get?_set_of_ne h]
  exact hs

theorem eval_pin : ∀ {e : Expr}, slot ∉ e.writes →
    Alike (Store.Holds slot value) (eval e) (eval (e.pin slot value))
  | .literal _, _ => Alike.pure _
  | .unary row operand, h => by
    unfold Expr.pin eval
    exact (eval_pin (e := operand) h).bind fun v => Alike.ofExcept _
  | .binary lhs row rhs, h => by
    unfold Expr.pin eval
    have hboth : slot ∉ lhs.writes ∧ slot ∉ rhs.writes := by
      simpa only [Expr.writes, List.mem_append, not_or] using h
    refine (eval_pin hboth.1).bind fun l => ?_
    exact (eval_pin hboth.2).bind fun r => Alike.ofExcept _
  | .read v, _ => by
    unfold Expr.pin
    by_cases hv : v.slot = slot
    · rw [if_pos hv]
      have hread : ∀ s : Store, s.Holds slot value → eval (.read v) s = .ok value s := by
        intro s hs
        have hget : s.get? v.slot = some value := by rw [hv]; exact hs
        rw [eval_read, hget]
      refine ⟨fun s hs => ?_, fun s hs => (hread s hs).symm⟩
      rw [hread s hs]
      exact hs
    · rw [if_neg hv]
      refine Alike.of_keeps fun s hs => ?_
      rw [eval_read]
      cases s.get? v.slot with
      | some _ => exact hs
      | none => exact hs
  | .assign v rhs, h => by
    unfold Expr.pin eval
    have hboth : slot ≠ v.slot ∧ slot ∉ rhs.writes := by
      simpa only [Expr.writes, List.mem_cons, not_or] using h
    refine (eval_pin hboth.2).bind fun w => ?_
    exact (assign_alike (Ne.symm hboth.1) w).bind fun _ => Alike.pure w
  | .paren inner, h => by
    unfold Expr.pin eval
    exact eval_pin (e := inner) h

theorem evalInt_pin {e : Expr} (h : slot ∉ e.writes) :
    Alike (Store.Holds slot value) (evalInt e) (evalInt (e.pin slot value)) :=
  (eval_pin h).bind fun _ => Alike.ofExcept _

theorem evalBool_pin {e : Expr} (h : slot ∉ e.writes) :
    Alike (Store.Holds slot value) (evalBool e) (evalBool (e.pin slot value)) :=
  (eval_pin h).bind fun _ => Alike.ofExcept _

mutual

theorem exec_pin (limit : Nat) : ∀ {s : Stmt}, slot ∉ s.writes → ∀ last,
    Alike (Store.Holds slot value) (exec limit s last) (exec limit (s.pin slot value) last)
  | .block body, h, last => by
    unfold Stmt.pin exec
    have hbody : slot ∉ Stmt.writesAll body := h
    exact execBody_pin limit hbody last
  | .expr e, h, last => by
    unfold Stmt.pin exec
    exact (eval_pin h).bind fun v => Alike.pure _
  | .decl v init, h, last => by
    unfold Stmt.pin exec
    have hboth : slot ≠ v.slot ∧ slot ∉ init.writes := by
      simpa only [Stmt.writes, List.mem_cons, not_or] using h
    refine (eval_pin hboth.2).bind fun w => ?_
    exact (assign_alike (Ne.symm hboth.1) w).bind fun _ => Alike.pure _
  | .ifThen cond yes, h, last => by
    unfold Stmt.pin exec
    have hboth : slot ∉ cond.writes ∧ slot ∉ yes.writes := by
      simpa only [Stmt.writes, List.mem_append, not_or] using h
    refine (evalBool_pin hboth.1).bind fun b => ?_
    cases b with
    | true => exact exec_pin limit hboth.2 last
    | false => exact Alike.pure last
  | .ifElse cond yes no, h, last => by
    unfold Stmt.pin exec
    have hall : slot ∉ cond.writes ∧ slot ∉ yes.writes ∧ slot ∉ no.writes := by
      simpa only [Stmt.writes, List.mem_append, not_or] using h
    refine (evalBool_pin hall.1).bind fun b => ?_
    cases b with
    | true => exact exec_pin limit hall.2.1 last
    | false => exact exec_pin limit hall.2.2 last
  | .while cond body, h, last => by
    unfold Stmt.pin exec
    have hboth : slot ∉ cond.writes ∧ slot ∉ body.writes := by
      simpa only [Stmt.writes, List.mem_append, not_or] using h
    exact Alike.whileLoop (evalBool_pin hboth.1) (exec_pin limit hboth.2) limit last
  | .for v lower upper body, h, last => by
    unfold Stmt.pin exec
    have hall : slot ≠ v.slot ∧ slot ∉ lower.writes ∧ slot ∉ upper.writes ∧ slot ∉ body.writes := by
      simpa only [Stmt.writes, List.mem_cons, List.mem_append, not_or] using h
    obtain ⟨hv, hlower, hupper, hbody⟩ := hall
    refine (evalInt_pin hlower).bind fun lo => (evalInt_pin hupper).bind fun hi => ?_
    exact Alike.forLoop (assign_alike (Ne.symm hv)) (exec_pin limit hbody) _ _ last

theorem execBody_pin (limit : Nat) : ∀ {ss : List Stmt}, slot ∉ Stmt.writesAll ss → ∀ last,
    Alike (Store.Holds slot value) (execBody limit ss last)
      (execBody limit (Stmt.pinAll slot value ss) last)
  | [], _, last => Alike.pure last
  | s :: ss, h, last => by
    unfold Stmt.pinAll execBody
    have hboth : slot ∉ s.writes ∧ slot ∉ Stmt.writesAll ss := by
      simpa only [Stmt.writesAll, List.mem_append, not_or] using h
    exact (exec_pin limit hboth.1 last).bind fun last => execBody_pin limit hboth.2 last

end

end

end Scriptlet.Run
