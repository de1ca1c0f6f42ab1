import Scriptlet.Proofs.Run.Triple

/-!
# Trees that are safe to run

A tree is safe for a list of slots if it reads no slot outside the list before it has written to
it, and operators, assignments and declarations get what they ask for. From a store that has values
of the right types in these slots, a safe tree can only get stuck at a condition or a bound of the
wrong type.
-/

namespace Scriptlet.Typed

open Run (Stuck)

/-! ## Safe trees -/

/-- Whether an expression fits together where the slots in `known` hold values of their types. -/
def Expr.Safe (known : List Slot) : Expr → Prop
  | literal _ => True
  | unary row operand =>
    row ∈ UnaryRow.all ∧ operand.type = row.operand ∧ operand.Safe known
  | binary lhs row rhs =>
    row ∈ BinaryRow.all ∧ lhs.type = row.lhs ∧ rhs.type = row.rhs ∧ lhs.Safe known ∧ rhs.Safe known
  | read v => v.slot ∈ known
  | assign v rhs => rhs.type = v.type ∧ rhs.Safe known
  | paren inner => inner.Safe known

namespace Stmt

/-- The slots known after a statement; what blocks, branches and loops declare is not counted. -/
def after (known : List Slot) : Stmt → List Slot
  | .decl v _ => v.slot :: known
  | _ => known

mutual

/-- Conditions and bounds may be of any type. -/
def Safe (known : List Slot) : Stmt → Prop
  | .block body => AllSafe known body
  | .expr e => e.Safe known
  | .decl v init => init.type = v.type ∧ init.Safe known
  | .ifThen cond yes => cond.Safe known ∧ yes.Safe known
  | .ifElse cond yes no => cond.Safe known ∧ yes.Safe known ∧ no.Safe known
  | .while cond body => cond.Safe known ∧ body.Safe known
  | .for v lower upper body =>
    v.type = .int ∧ lower.Safe known ∧ upper.Safe known ∧ body.Safe (v.slot :: known)

def AllSafe (known : List Slot) : List Stmt → Prop
  | [] => True
  | s :: ss => s.Safe known ∧ AllSafe (s.after known) ss

end

theorem subset_after (known : List Slot) (s : Stmt) : known ⊆ s.after known := by
  cases s with
  | decl v init => exact List.subset_cons_self v.slot known
  | _ => exact List.Subset.refl known

end Stmt

/-! ## What a tree can be stuck at -/

def misfit : Ty → Value → Stuck
  | .int, value => .notInt value
  | .bool, value => .notBool value

def Expr.Misfits (e : Expr) (target : Ty) (cause : Stuck) : Prop :=
  e.type ≠ target ∧ ∃ value : Value, value.type = e.type ∧ cause = misfit target value

namespace Stmt

mutual

def Blames : Stmt → Stuck → Prop
  | .block body, cause => AnyBlames body cause
  | .expr _, _ | .decl _ _, _ => False
  | .ifThen cond yes, cause => cond.Misfits .bool cause ∨ yes.Blames cause
  | .ifElse cond yes no, cause =>
    cond.Misfits .bool cause ∨ yes.Blames cause ∨ no.Blames cause
  | .while cond body, cause => cond.Misfits .bool cause ∨ body.Blames cause
  | .for _ lower upper body, cause =>
    lower.Misfits .int cause ∨ upper.Misfits .int cause ∨ body.Blames cause

def AnyBlames : List Stmt → Stuck → Prop
  | [], _ => False
  | s :: ss, cause => s.Blames cause ∨ AnyBlames ss cause

end

end Stmt

end Scriptlet.Typed

namespace Scriptlet.Run

open Typed (Slot Expr Stmt UnaryRow BinaryRow)

/-! ## Stores -/

namespace Store

def Covers (s : Store) (known : List Slot) : Prop :=
  ∀ slot ∈ known, ∃ value, s.get? slot = some value ∧ value.type = slot.type

theorem Covers.mono {s : Store} {known known' : List Slot} (h : s.Covers known)
    (hsub : known' ⊆ known) : s.Covers known' := fun slot hslot => h slot (hsub hslot)

theorem Covers.set {s : Store} {known : List Slot} (h : s.Covers known) {slot : Slot}
    {value : Value} (hv : value.type = slot.type) : (s.set slot value).Covers (slot :: known) := by
  intro slot' hslot'
  by_cases he : slot = slot'
  · subst he
    exact ⟨value, get?_set_self s slot value, hv⟩
  · rw [get?_set_of_ne he]
    exact h slot' ((List.mem_cons.mp hslot').resolve_left (Ne.symm he))

end Store

def Halt.Excused (blame : Stuck → Prop) : Halt → Prop
  | .stuck cause => blame cause
  | _ => True

theorem Halt.Excused.mono {blame blame' : Stuck → Prop} {h : Halt} (hh : h.Excused blame)
    (hsub : ∀ cause, blame cause → blame' cause) : h.Excused blame' := by
  cases h with
  | stuck cause => exact hsub cause hh
  | _ => trivial

/-! ## Operators -/

theorem applyUnary_typed {row : UnaryRow} (hrow : row ∈ UnaryRow.all) {v : Value}
    (hv : v.type = row.operand) : ∃ w, applyUnary row.op v = .ok w ∧ w.type = row.type := by
  simp only [UnaryRow.all, List.mem_cons, List.not_mem_nil, or_false] at hrow
  rcases hrow with rfl | rfl | rfl <;> cases v <;> cases hv <;> exact ⟨_, rfl, rfl⟩

theorem lhs_eq_rhs : ∀ row ∈ BinaryRow.all, row.lhs = row.rhs := by decide

theorem division_row : ∀ row ∈ BinaryRow.all, row.op = .division →
    row.lhs = .int ∧ row.type = .int := by decide

theorem divide_ints (a b : Int32) : divide (.int a) (.int b) =
    if b = 0 then .error (.divisionByZero a) else .ok (.int (a / b)) := rfl

theorem applyBinary_bools : ∀ row ∈ BinaryRow.all, row.lhs = .bool → ∀ a b,
    (applyBinary row.op (.bool a) (.bool b)).toOption.map Value.type = some row.type := by decide

theorem applyBinary_ints {row : BinaryRow} (hrow : row ∈ BinaryRow.all) (hl : row.lhs = .int)
    (hop : row.op ≠ .division) (a b : Int32) :
    ∃ w, applyBinary row.op (.int a) (.int b) = .ok w ∧ w.type = row.type := by
  simp only [BinaryRow.all, List.mem_cons, List.not_mem_nil, or_false] at hrow
  rcases hrow with rfl | rfl | rfl | rfl | rfl | rfl | rfl | rfl | rfl | rfl | rfl | rfl | rfl |
    rfl | rfl | rfl | rfl | rfl | rfl | rfl <;> cases hl <;> simp at hop <;> exact ⟨_, rfl, rfl⟩

theorem applyBinary_typed {row : BinaryRow} (hrow : row ∈ BinaryRow.all) {a b : Value}
    (ha : a.type = row.lhs) (hb : b.type = row.rhs) :
    (∃ w, applyBinary row.op a b = .ok w ∧ w.type = row.type) ∨
      ∃ n, applyBinary row.op a b = .error (.divisionByZero n) := by
  rw [← lhs_eq_rhs row hrow] at hb
  cases hl : row.lhs with
  | bool =>
    rw [hl] at ha hb
    cases a with | int _ => cases ha | bool x =>
    cases b with | int _ => cases hb | bool y =>
    have h := applyBinary_bools row hrow hl x y
    cases hr : applyBinary row.op (.bool x) (.bool y) with
    | error e => rw [hr] at h; cases h
    | ok w => rw [hr] at h; exact .inl ⟨w, rfl, Option.some.inj h⟩
  | int =>
    rw [hl] at ha hb
    cases a with | bool _ => cases ha | int x =>
    cases b with | bool _ => cases hb | int y =>
    by_cases hop : row.op = .division
    · rw [hop, (division_row row hrow hop).2]
      show (∃ w, divide (.int x) (.int y) = .ok w ∧ _) ∨ ∃ n, divide (.int x) (.int y) = _
      rw [divide_ints]
      by_cases hy : y = 0
      · exact .inr ⟨x, if_pos hy⟩
      · exact .inl ⟨.int (x / y), if_neg hy, rfl⟩
    · exact .inl (applyBinary_ints hrow hl hop x y)

/-! ## Running safe trees -/

theorem Triple.excuse {α : Type} {P : Store → Prop} {m : Exec α} {Q : α → Store → Prop}
    {blame blame' : Stuck → Prop} {F : Store → Prop}
    (h : Triple P m Q (fun h s => h.Excused blame ∧ F s)) (hsub : ∀ cause, blame cause → blame' cause) :
    Triple P m Q (fun h s => h.Excused blame' ∧ F s) :=
  h.conseq (fun _ => id) (fun _ _ => id) fun _ _ hs => ⟨hs.1.mono hsub, hs.2⟩

section
variable {I : Store → Prop}

def Store.Fits (I : Store → Prop) (known : List Slot) (s : Store) : Prop := s.Covers known ∧ I s

theorem Store.Fits.mono {known known' : List Slot} {s : Store} (h : s.Fits I known)
    (hsub : known' ⊆ known) : s.Fits I known' := ⟨h.1.mono hsub, h.2⟩

def Store.Stable (I : Store → Prop) : Prop :=
  ∀ s slot value, I s → value.type = slot.type → I (s.set slot value)

theorem Store.Fits.set (hI : Store.Stable I) {known : List Slot} {s : Store} (h : s.Fits I known)
    {slot : Slot} {value : Value} (hv : value.type = slot.type) :
    (s.set slot value).Fits I (slot :: known) :=
  ⟨h.1.set hv, hI s slot value h.2 hv⟩

/-- What a branch or a loop's body declares is not counted on after it. -/
theorem Triple.forget_decl {α : Type} {P : Store → Prop} {m : Exec α} {E : Halt → Store → Prop}
    {known : List Slot} {s : Stmt} (h : Triple P m (fun _ => Store.Fits I (s.after known)) E) :
    Triple P m (fun _ => Store.Fits I known) E :=
  h.conseq (fun _ => id) (fun _ _ hs => hs.mono (Stmt.subset_after known s)) fun _ _ => id

theorem eval_safe (hI : Store.Stable I) {known : List Slot} : ∀ {e : Expr}, e.Safe known →
    Triple (Store.Fits I known) (eval e) (fun v s => v.type = e.type ∧ s.Fits I known)
      (fun h s => h.Excused (fun _ => False) ∧ s.Fits I known)
  | .literal value, _ => fun s hs => ⟨rfl, hs⟩
  | .unary row operand, ⟨hrow, htype, hsafe⟩ => by
    unfold eval
    refine (eval_safe hI hsafe).bind fun v => Triple.of_imp fun hv => ?_
    obtain ⟨w, hw, hwt⟩ := applyUnary_typed hrow (hv.trans htype)
    rw [hw]
    exact fun s hs => ⟨hwt, hs⟩
  | .binary lhs row rhs, ⟨hrow, hl, hr, hlhs, hrhs⟩ => by
    unfold eval
    refine (eval_safe hI hlhs).bind fun a => Triple.of_imp fun ha => ?_
    refine (eval_safe hI hrhs).bind fun b => Triple.of_imp fun hb => ?_
    rcases applyBinary_typed hrow (ha.trans hl) (hb.trans hr) with ⟨w, hw, hwt⟩ | ⟨n, hn⟩
    · rw [hw]
      exact fun s hs => ⟨hwt, hs⟩
    · rw [hn]
      exact fun s hs => ⟨trivial, hs⟩
  | .read v, hv => by
    intro s hs
    obtain ⟨value, hget, htype⟩ := hs.1 v.slot hv
    rw [eval_read, hget]
    exact ⟨htype, hs⟩
  | .assign v rhs, ⟨htype, hsafe⟩ => by
    unfold eval
    refine (eval_safe hI hsafe).bind fun value => Triple.of_imp fun hv => ?_
    intro s hs
    have hset : (s.set v.slot value).Fits I (v.slot :: known) := Store.Fits.set hI hs (hv.trans htype)
    exact ⟨hv, hset.mono (List.subset_cons_self _ _)⟩
  | .paren inner, hsafe => by
    unfold eval
    exact eval_safe hI (e := inner) hsafe

/-- `convert` takes a `target` out of a value, as conditions and bounds do. -/
theorem convert_safe (hI : Store.Stable I) {known : List Slot} {β : Type} {target : Ty}
    (convert : Value → Except Halt β)
    (hconvert : ∀ v : Value, if v.type = target then ∃ b, convert v = .ok b
      else convert v = .error (.stuck (Typed.misfit target v)))
    {e : Expr} (h : e.Safe known) :
    Triple (Store.Fits I known) (do ofExcept (convert (← eval e))) (fun _ => Store.Fits I known)
      (fun h s => h.Excused (e.Misfits target) ∧ s.Fits I known) := by
  refine ((eval_safe hI h).excuse fun _ => False.elim).bind fun v => Triple.of_imp fun hv => ?_
  have hc := hconvert v
  split at hc
  · obtain ⟨b, hb⟩ := hc
    rw [hb]
    exact fun s hs => hs
  · rename_i hne
    rw [hc]
    exact fun s hs => ⟨⟨hv ▸ hne, v, hv, rfl⟩, hs⟩

theorem evalInt_safe (hI : Store.Stable I) {known : List Slot} {e : Expr} (h : e.Safe known) :
    Triple (Store.Fits I known) (evalInt e) (fun _ => Store.Fits I known)
      (fun h s => h.Excused (e.Misfits .int) ∧ s.Fits I known) := by
  refine convert_safe hI asInt (fun v => ?_) h
  cases v with
  | int n => exact ⟨n, rfl⟩
  | bool b => rfl

theorem evalBool_safe (hI : Store.Stable I) {known : List Slot} {e : Expr} (h : e.Safe known) :
    Triple (Store.Fits I known) (evalBool e) (fun _ => Store.Fits I known)
      (fun h s => h.Excused (e.Misfits .bool) ∧ s.Fits I known) := by
  refine convert_safe hI asBool (fun v => ?_) h
  cases v with
  | int n => rfl
  | bool b => exact ⟨b, rfl⟩

-- By induction on the tree. A run that is stopped may have come any way, so its store is promised no
-- more than what was known at the start.

mutual

theorem exec_safe (hI : Store.Stable I) (limit : Nat) :
    ∀ {known : List Slot} {s : Stmt}, s.Safe known → ∀ last,
    Triple (Store.Fits I known) (exec limit s last) (fun _ => Store.Fits I (s.after known))
      (fun h σ => h.Excused s.Blames ∧ σ.Fits I known)
  | _, .block body, hsafe, last => by
    unfold exec
    exact execBody_safe hI limit hsafe last
  | _, .expr e, hsafe, last => by
    unfold exec
    exact ((eval_safe hI hsafe).excuse fun _ => False.elim).bind fun _ _ hs => hs.2
  | _, .decl v init, ⟨htype, hsafe⟩, last => by
    unfold exec
    refine ((eval_safe hI hsafe).excuse fun _ => False.elim).bind fun value =>
      Triple.of_imp fun hv => ?_
    exact fun s hs => Store.Fits.set hI hs (hv.trans htype)
  | _, .ifThen cond yes, ⟨hcond, hyes⟩, last => by
    unfold exec
    refine ((evalBool_safe hI hcond).excuse fun _ => .inl).bind fun b => ?_
    cases b with
    | true =>
      exact ((exec_safe hI limit hyes last).excuse fun _ => .inr).forget_decl
    | false => exact fun s hs => hs
  | _, .ifElse cond yes no, ⟨hcond, hyes, hno⟩, last => by
    unfold exec
    refine ((evalBool_safe hI hcond).excuse fun _ => .inl).bind fun b => ?_
    cases b with
    | true =>
      exact ((exec_safe hI limit hyes last).excuse fun _ h => .inr (.inl h)).forget_decl
    | false =>
      exact ((exec_safe hI limit hno last).excuse fun _ h => .inr (.inr h)).forget_decl
  | _, .while cond body, ⟨hcond, hbody⟩, last => by
    unfold exec
    refine Triple.whileLoop ((evalBool_safe hI hcond).excuse fun _ => .inl) (fun last => ?_)
      (fun s hs => ⟨trivial, hs⟩) limit last
    exact ((exec_safe hI limit hbody last).excuse fun _ => .inr).forget_decl
  | known, .for v lower upper body, ⟨htype, hlower, hupper, hbody⟩, last => by
    unfold exec
    refine ((evalInt_safe hI hlower).excuse fun _ => .inl).bind fun lo => ?_
    refine ((evalInt_safe hI hupper).excuse fun _ h => .inr (.inl h)).bind fun hi => ?_
    refine Triple.forLoop (fun k last => ?_) _ _ last
    have hsub := List.subset_cons_self v.slot known
    refine (exec_safe hI limit hbody last).conseq ?_ ?_ ?_
    · rintro s ⟨s₀, hs₀, rfl⟩
      exact Store.Fits.set hI hs₀ htype.symm
    · exact fun _ s hs => (hs.mono (Stmt.subset_after _ body)).mono hsub
    · exact fun _ s hs => ⟨hs.1.mono fun _ h => .inr (.inr h), hs.2.mono hsub⟩

theorem execBody_safe (hI : Store.Stable I) (limit : Nat) :
    ∀ {known : List Slot} {ss : List Stmt}, Stmt.AllSafe known ss → ∀ last,
      Triple (Store.Fits I known) (execBody limit ss last) (fun _ => Store.Fits I known)
        (fun h σ => h.Excused (Stmt.AnyBlames ss) ∧ σ.Fits I known)
  | _, [], _, last => fun s hs => hs
  | known, s :: ss, ⟨hs, hss⟩, last => by
    unfold execBody
    refine ((exec_safe hI limit hs last).excuse fun _ => .inl).bind fun last => ?_
    have hsub := Stmt.subset_after known s
    refine (execBody_safe hI limit hss last).conseq (fun _ => id) ?_ ?_
    · exact fun _ s hs => hs.mono hsub
    · exact fun _ s hs => ⟨hs.1.mono fun _ => .inr, hs.2.mono hsub⟩

end

end

end Scriptlet.Run
