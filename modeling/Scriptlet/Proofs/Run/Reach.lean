import Mathlib.Logic.Relation
import Scriptlet.Proofs.Typed.Safe

/-!
# What a run comes to

A run is made of calls: of expressions to be evaluated, of conditions and bounds, of statements and
of rounds of loops, each started in the store that those before it left. A run is stopped just if one
of the calls it comes to is to blame, and from a safe tree it comes to safe trees only.
-/

namespace Scriptlet.Run

open Typed (Expr Stmt Slot misfit)

/-! ## Calls -/

/-- A piece of a run. A demand is for the value of a condition or of a bound, as a `target`. -/
inductive Task
  | eval (e : Expr)
  | demand (e : Expr) (target : Ty)
  | exec (s : Stmt) (last : Option Value)
  | body (ss : List Stmt) (last : Option Value)
  | rounds (cond : Expr) (body : Stmt) (n : Nat) (last : Option Value)
  | numbers (slot : Slot) (body : Stmt) (n : Nat) (k : Int) (last : Option Value)

/-- The tasks that a task hands on, with the stores they are started in. -/
inductive Calls (limit : Nat) : Task × Store → Task × Store → Prop
  | operand : Calls limit (.eval (.unary row e), σ) (.eval e, σ)
  | left : Calls limit (.eval (.binary lhs row rhs), σ) (.eval lhs, σ)
  | right : eval lhs σ = .ok a τ → Calls limit (.eval (.binary lhs row rhs), σ) (.eval rhs, τ)
  | assigned : Calls limit (.eval (.assign v rhs), σ) (.eval rhs, σ)
  | inner : Calls limit (.eval (.paren e), σ) (.eval e, σ)
  | demanded : Calls limit (.demand e target, σ) (.eval e, σ)
  | block : Calls limit (.exec (.block ss) last, σ) (.body ss last, σ)
  | expr : Calls limit (.exec (.expr e) last, σ) (.eval e, σ)
  | init : Calls limit (.exec (.decl v e) last, σ) (.eval e, σ)
  | ifThen : Calls limit (.exec (.ifThen e yes) last, σ) (.demand e .bool, σ)
  | ifThenYes : evalBool e σ = .ok true τ →
    Calls limit (.exec (.ifThen e yes) last, σ) (.exec yes last, τ)
  | ifElse : Calls limit (.exec (.ifElse e yes no) last, σ) (.demand e .bool, σ)
  | ifElseYes : evalBool e σ = .ok true τ →
    Calls limit (.exec (.ifElse e yes no) last, σ) (.exec yes last, τ)
  | ifElseNo : evalBool e σ = .ok false τ →
    Calls limit (.exec (.ifElse e yes no) last, σ) (.exec no last, τ)
  | loop : Calls limit (.exec (.while e body) last, σ) (.rounds e body limit last, σ)
  | lower : Calls limit (.exec (.for v lower upper body) last, σ) (.demand lower .int, σ)
  | upper : evalInt lower σ = .ok lo τ →
    Calls limit (.exec (.for v lower upper body) last, σ) (.demand upper .int, τ)
  | count : evalInt lower σ = .ok lo τ → evalInt upper τ = .ok hi υ →
    Calls limit (.exec (.for v lower upper body) last, σ)
      (.numbers v.slot body (rounds lo hi) lo.toInt last, υ)
  | first : Calls limit (.body (s :: ss) last, σ) (.exec s last, σ)
  | rest : exec limit s last σ = .ok last' τ →
    Calls limit (.body (s :: ss) last, σ) (.body ss last', τ)
  | round : Calls limit (.rounds e body (n + 1) last, σ) (.demand e .bool, σ)
  | roundBody : evalBool e σ = .ok true τ →
    Calls limit (.rounds e body (n + 1) last, σ) (.exec body last, τ)
  | nextRound : evalBool e σ = .ok true τ → exec limit body last τ = .ok last' υ →
    Calls limit (.rounds e body (n + 1) last, σ) (.rounds e body n last', υ)
  | number : Calls limit (.numbers slot body (n + 1) k last, σ)
      (.exec body last, σ.set slot (.int (.ofInt k)))
  | nextNumber : exec limit body last (σ.set slot (.int (.ofInt k))) = .ok last' τ →
    Calls limit (.numbers slot body (n + 1) k last, σ) (.numbers slot body n (k + 1) last', τ)

abbrev Reaches (limit : Nat) : Task × Store → Task × Store → Prop :=
  Relation.ReflTransGen (Calls limit)

/-! ## What stops a task -/

section
variable {ε σ α β : Type}

theorem haltOf?_eq_some {r : EStateM.Result ε σ α} {h : ε} :
    haltOf? r = some h ↔ ∃ t, r = .error h t := by
  cases r with
  | ok a t => simp [haltOf?]
  | error e t => simp [haltOf?]

theorem haltOf?_bind {m : EStateM ε σ α} {f : α → EStateM ε σ β} {s : σ} {h : ε} :
    haltOf? ((m >>= f) s) = some h ↔
      haltOf? (m s) = some h ∨ ∃ a t, m s = .ok a t ∧ haltOf? (f a t) = some h := by
  show haltOf? (EStateM.bind m f s) = some h ↔ _
  unfold EStateM.bind
  cases m s with
  | ok a t =>
    constructor
    · exact fun hf => .inr ⟨a, t, rfl, hf⟩
    · rintro (hm | ⟨_, _, he, hf⟩)
      · cases hm
      · cases he
        exact hf
  | error e t =>
    constructor
    · exact .inl
    · rintro (hm | ⟨_, _, he, _⟩)
      · exact hm
      · cases he

end

/-- Where there is a value, a conversion is stopped just if the value is of another type. -/
theorem haltOf?_convert {β : Type} {target : Ty} {convert : Value → Except Halt β}
    (hconvert : ∀ v : Value, if v.type = target then ∃ b, convert v = .ok b
      else convert v = .error (.stuck (misfit target v))) {e : Expr} {σ : Store} {h : Halt} :
    haltOf? ((do ofExcept (convert (← eval e)) : Exec β) σ) = some h ↔
      haltOf? (eval e σ) = some h ∨ ∃ value τ, eval e σ = .ok value τ ∧ value.type ≠ target ∧
        h = .stuck (misfit target value) := by
  rw [haltOf?_bind]
  refine or_congr_right (exists₂_congr fun value τ => and_congr_right fun _ => ?_)
  have hc := hconvert value
  split at hc
  · rename_i ht
    obtain ⟨b, hb⟩ := hc
    have hok : haltOf? ((ofExcept (.ok b) : Exec β) τ) = none := rfl
    rw [hb, hok]
    simp [ht]
  · rename_i ht
    have herror : haltOf? ((ofExcept (.error (.stuck (misfit target value))) : Exec β) τ) =
      some (.stuck (misfit target value)) := rfl
    rw [hc, herror]
    simp [ht, eq_comm]

namespace Task

def halt? (limit : Nat) (σ : Store) : Task → Option Halt
  | .eval e => haltOf? (Run.eval e σ)
  | .demand e .int => haltOf? (evalInt e σ)
  | .demand e .bool => haltOf? (evalBool e σ)
  | .exec s last => haltOf? (Run.exec limit s last σ)
  | .body ss last => haltOf? (execBody limit ss last σ)
  | .rounds cond s n last =>
    haltOf? (whileLoop (evalBool cond) (fun last => Run.exec limit s last) n last σ)
  | .numbers slot s n k last =>
    haltOf? (forLoop slot (fun last => Run.exec limit s last) n k last σ)

/-- The task stops the run by itself: an expression without a value, a value that is not of the type
it should be, or a loop at the limit of its rounds. -/
def Culprit (σ : Store) (h : Halt) : Task → Prop
  | .eval e => haltOf? (Run.eval e σ) = some h
  | .demand e target => ∃ value τ, Run.eval e σ = .ok value τ ∧ value.type ≠ target ∧
    h = .stuck (misfit target value)
  | .rounds _ _ 0 _ => h = .cutOff
  | _ => False

end Task

theorem demand_halt? {limit : Nat} {e : Expr} {target : Ty} {σ : Store} {h : Halt} :
    (Task.demand e target).halt? limit σ = some h ↔
      haltOf? (eval e σ) = some h ∨ (Task.demand e target).Culprit σ h := by
  cases target with
  | int =>
    apply haltOf?_convert
    intro v
    cases v with
    | int n => exact ⟨n, rfl⟩
    | bool b => rfl
  | bool =>
    apply haltOf?_convert
    intro v
    cases v with
    | int n => rfl
    | bool b => exact ⟨b, rfl⟩

theorem halt?_of_calls {limit : Nat} {t t' : Task} {σ σ' : Store} {h : Halt}
    (hcall : Calls limit (t, σ) (t', σ')) (hhalt : t'.halt? limit σ' = some h) :
    t.halt? limit σ = some h := by
  cases hcall with
  | operand | left | assigned | expr | init | first => exact haltOf?_bind.mpr (.inl hhalt)
  | ifThen | ifElse | lower | round => exact haltOf?_bind.mpr (.inl hhalt)
  | inner | block | loop => exact hhalt
  | right hl => exact haltOf?_bind.mpr (.inr ⟨_, _, hl, haltOf?_bind.mpr (.inl hhalt)⟩)
  | demanded => exact demand_halt?.mpr (.inl hhalt)
  | ifThenYes hc | ifElseYes hc | ifElseNo hc => exact haltOf?_bind.mpr (.inr ⟨_, _, hc, hhalt⟩)
  | upper hlo => exact haltOf?_bind.mpr (.inr ⟨_, _, hlo, haltOf?_bind.mpr (.inl hhalt)⟩)
  | count hlo hhi =>
    exact haltOf?_bind.mpr (.inr ⟨_, _, hlo, haltOf?_bind.mpr (.inr ⟨_, _, hhi, hhalt⟩)⟩)
  | rest hs => exact haltOf?_bind.mpr (.inr ⟨_, _, hs, hhalt⟩)
  | roundBody hc => exact haltOf?_bind.mpr (.inr ⟨_, _, hc, haltOf?_bind.mpr (.inl hhalt)⟩)
  | nextRound hc hb =>
    exact haltOf?_bind.mpr (.inr ⟨_, _, hc, haltOf?_bind.mpr (.inr ⟨_, _, hb, hhalt⟩)⟩)
  | number => exact haltOf?_bind.mpr (.inr ⟨_, _, rfl, haltOf?_bind.mpr (.inl hhalt)⟩)
  | nextNumber hb =>
    exact haltOf?_bind.mpr (.inr ⟨_, _, rfl, haltOf?_bind.mpr (.inr ⟨_, _, hb, hhalt⟩)⟩)

theorem exec_call_of_halt? {limit : Nat} {s : Stmt} {last : Option Value} {σ : Store} {h : Halt}
    (hhalt : (Task.exec s last).halt? limit σ = some h) :
    ∃ t σ', Calls limit (.exec s last, σ) (t, σ') ∧ t.halt? limit σ' = some h := by
  cases s with
  | block body => exact ⟨_, _, .block, hhalt⟩
  | expr e =>
    rcases haltOf?_bind.mp hhalt with he | ⟨_, _, _, hdone⟩
    · exact ⟨.eval e, σ, .expr, he⟩
    · cases hdone
  | decl v init =>
    rcases haltOf?_bind.mp hhalt with he | ⟨_, _, _, hdone⟩
    · exact ⟨.eval init, σ, .init, he⟩
    · cases hdone
  | ifThen cond yes =>
    rcases haltOf?_bind.mp hhalt with hc | ⟨b, τ, hc, hbranch⟩
    · exact ⟨.demand cond .bool, σ, .ifThen, hc⟩
    · cases b with
      | true => exact ⟨_, _, .ifThenYes hc, hbranch⟩
      | false => cases hbranch
  | ifElse cond yes no =>
    rcases haltOf?_bind.mp hhalt with hc | ⟨b, τ, hc, hbranch⟩
    · exact ⟨.demand cond .bool, σ, .ifElse, hc⟩
    · cases b with
      | true => exact ⟨_, _, .ifElseYes hc, hbranch⟩
      | false => exact ⟨_, _, .ifElseNo hc, hbranch⟩
  | «while» cond body => exact ⟨_, _, .loop, hhalt⟩
  | «for» v lower upper body =>
    rcases haltOf?_bind.mp hhalt with hlo | ⟨lo, τ, hlo, hrest⟩
    · exact ⟨.demand lower .int, σ, .lower, hlo⟩
    · rcases haltOf?_bind.mp hrest with hhi | ⟨hi, υ, hhi, hloop⟩
      · exact ⟨.demand upper .int, τ, .upper hlo, hhi⟩
      · exact ⟨_, _, .count hlo hhi, hloop⟩

theorem call_of_halt? {limit : Nat} {t : Task} {σ : Store} {h : Halt}
    (hhalt : t.halt? limit σ = some h) : t.Culprit σ h ∨
      ∃ t' σ', Calls limit (t, σ) (t', σ') ∧ t'.halt? limit σ' = some h := by
  cases t with
  | eval e => exact .inl hhalt
  | demand e target =>
    rcases demand_halt?.mp hhalt with he | hc
    · exact .inr ⟨.eval e, σ, .demanded, he⟩
    · exact .inl hc
  | exec s last => exact .inr (exec_call_of_halt? hhalt)
  | body ss last =>
    cases ss with
    | nil => cases hhalt
    | cons s ss =>
      rcases haltOf?_bind.mp hhalt with hs | ⟨last', τ, hs, hss⟩
      · exact .inr ⟨_, _, .first, hs⟩
      · exact .inr ⟨_, _, .rest hs, hss⟩
  | rounds cond s n last =>
    cases n with
    | zero => exact .inl (Option.some.inj hhalt).symm
    | succ n =>
      rcases haltOf?_bind.mp hhalt with hc | ⟨b, τ, hc, hrest⟩
      · exact .inr ⟨.demand cond .bool, σ, .round, hc⟩
      · cases b with
        | false => cases hrest
        | true =>
          rcases haltOf?_bind.mp hrest with hb | ⟨last', υ, hb, hnext⟩
          · exact .inr ⟨_, _, .roundBody hc, hb⟩
          · exact .inr ⟨_, _, .nextRound hc hb, hnext⟩
  | numbers slot s n k last =>
    cases n with
    | zero => cases hhalt
    | succ n =>
      rcases haltOf?_bind.mp hhalt with hset | ⟨_, τ, hset, hrest⟩
      · cases hset
      · cases hset
        rcases haltOf?_bind.mp hrest with hb | ⟨last', υ, hb, hnext⟩
        · exact .inr ⟨_, _, .number, hb⟩
        · exact .inr ⟨_, _, .nextNumber hb, hnext⟩

noncomputable def Task.rank : Task → Nat × Nat
  | .eval e => (0, sizeOf e)
  | .demand e _ => (0, sizeOf e + 1)
  | .exec s _ => (2 * sizeOf s, 0)
  | .body ss _ => (2 * sizeOf ss, 0)
  | .rounds _ s n _ => (2 * sizeOf s + 1, n)
  | .numbers _ s n _ _ => (2 * sizeOf s + 1, n)

theorem rank_lt {limit : Nat} {t t' : Task} {σ σ' : Store}
    (hcall : Calls limit (t, σ) (t', σ')) :
    Prod.Lex (· < ·) (· < ·) t'.rank t.rank := by
  rw [Prod.lex_def]
  cases hcall <;> simp [Task.rank] <;> omega

theorem culprit_of_halt? {limit : Nat} {t : Task} {σ : Store} {h : Halt}
    (hhalt : t.halt? limit σ = some h) :
    ∃ t' σ', Reaches limit (t, σ) (t', σ') ∧ t'.Culprit σ' h := by
  rcases call_of_halt? hhalt with hc | ⟨t', σ', hcall, hhalt'⟩
  · exact ⟨t, σ, .refl, hc⟩
  · obtain ⟨t'', σ'', hreach, hc⟩ := culprit_of_halt? hhalt'
    exact ⟨t'', σ'', .head hcall hreach, hc⟩
termination_by t.rank
decreasing_by exact rank_lt hcall

theorem Task.Culprit.halt? {limit : Nat} {t : Task} {σ : Store} {h : Halt}
    (hc : t.Culprit σ h) : t.halt? limit σ = some h := by
  cases t with
  | eval e => exact hc
  | demand e target => exact demand_halt?.mpr (.inr hc)
  | rounds cond s n last =>
    cases n with
    | zero => exact congrArg some hc.symm
    | succ n => exact hc.elim
  | _ => exact hc.elim

/-- A task is stopped just if it comes to one that is to blame. -/
theorem halt?_iff {limit : Nat} {t : Task} {σ : Store} {h : Halt} :
    t.halt? limit σ = some h ↔ ∃ t' σ', Reaches limit (t, σ) (t', σ') ∧ t'.Culprit σ' h := by
  refine ⟨culprit_of_halt?, ?_⟩
  rintro ⟨t', σ', hreach, hc⟩
  have hstopped : ∀ {a b : Task × Store}, Reaches limit a b → b.1.halt? limit b.2 = some h →
      a.1.halt? limit a.2 = some h := by
    intro a b hab hb
    induction hab using Relation.ReflTransGen.head_induction_on with
    | refl => exact hb
    | head hcall _ ih => exact halt?_of_calls hcall ih
  exact hstopped hreach hc.halt?

/-! ## Safe tasks -/

def Task.Safe (known : List Slot) : Task → Prop
  | .eval e | .demand e _ => e.Safe known
  | .exec s _ => s.Safe known
  | .body ss _ => Stmt.AllSafe known ss
  | .rounds cond s _ _ => cond.Safe known ∧ s.Safe known
  | .numbers slot s _ _ _ => slot.type = .int ∧ s.Safe (slot :: known)

def Task.Ready (t : Task) (σ : Store) : Prop := ∃ known, t.Safe known ∧ σ.Covers known

theorem Triple.of_ok {ε σ α : Type} {P : σ → Prop} {m : EStateM ε σ α} {Q : α → σ → Prop}
    {E : ε → σ → Prop} (h : Triple P m Q E) {s t : σ} {a : α} (hs : P s) (hm : m s = .ok a t) :
    Q a t := by
  have hq := h s hs
  rw [hm] at hq
  exact hq

theorem Store.stable_true : Store.Stable fun _ => True := fun _ _ _ _ _ => trivial

section
variable {known : List Slot} {e : Expr} {σ τ : Store}

theorem Store.Covers.eval {value : Value} (h : σ.Covers known) (hsafe : e.Safe known)
    (hrun : eval e σ = .ok value τ) : τ.Covers known :=
  ((eval_safe Store.stable_true hsafe).of_ok ⟨h, trivial⟩ hrun).2.1

theorem Store.Covers.evalBool {b : Bool} (h : σ.Covers known) (hsafe : e.Safe known)
    (hrun : evalBool e σ = .ok b τ) : τ.Covers known :=
  ((evalBool_safe Store.stable_true hsafe).of_ok ⟨h, trivial⟩ hrun).1

theorem Store.Covers.evalInt {n : Int32} (h : σ.Covers known) (hsafe : e.Safe known)
    (hrun : evalInt e σ = .ok n τ) : τ.Covers known :=
  ((evalInt_safe Store.stable_true hsafe).of_ok ⟨h, trivial⟩ hrun).1

theorem Store.Covers.exec {limit : Nat} {s : Stmt} {last last' : Option Value}
    (h : σ.Covers known) (hsafe : s.Safe known) (hrun : exec limit s last σ = .ok last' τ) :
    τ.Covers (s.after known) :=
  ((exec_safe Store.stable_true limit hsafe last).of_ok ⟨h, trivial⟩ hrun).1

end

theorem Store.Covers.setInt {known : List Slot} {slot : Slot} {σ : Store} (h : σ.Covers known)
    (hslot : slot.type = .int) {n : Int32} : (σ.set slot (.int n)).Covers (slot :: known) :=
  h.set hslot.symm

theorem Calls.ready {limit : Nat} {t t' : Task} {σ σ' : Store}
    (hcall : Calls limit (t, σ) (t', σ')) (hready : t.Ready σ) : t'.Ready σ' := by
  obtain ⟨known, hsafe, hcovers⟩ := hready
  cases hcall with
  | operand => exact ⟨known, hsafe.2.2, hcovers⟩
  | left => exact ⟨known, hsafe.2.2.2.1, hcovers⟩
  | right hl => exact ⟨known, hsafe.2.2.2.2, hcovers.eval hsafe.2.2.2.1 hl⟩
  | assigned | init => exact ⟨known, hsafe.2, hcovers⟩
  | inner | demanded | block | expr | loop => exact ⟨known, hsafe, hcovers⟩
  | ifThen | ifElse | round | first => exact ⟨known, hsafe.1, hcovers⟩
  | ifThenYes hc => exact ⟨known, hsafe.2, hcovers.evalBool hsafe.1 hc⟩
  | ifElseYes hc => exact ⟨known, hsafe.2.1, hcovers.evalBool hsafe.1 hc⟩
  | ifElseNo hc => exact ⟨known, hsafe.2.2, hcovers.evalBool hsafe.1 hc⟩
  | lower => exact ⟨known, hsafe.2.1, hcovers⟩
  | upper hlo => exact ⟨known, hsafe.2.2.1, hcovers.evalInt hsafe.2.1 hlo⟩
  | count hlo hhi =>
    have hlower := hcovers.evalInt hsafe.2.1 hlo
    exact ⟨known, ⟨hsafe.1, hsafe.2.2.2⟩, hlower.evalInt hsafe.2.2.1 hhi⟩
  | rest hs => exact ⟨_, hsafe.2, hcovers.exec hsafe.1 hs⟩
  | roundBody hc => exact ⟨known, hsafe.2, hcovers.evalBool hsafe.1 hc⟩
  | nextRound hc hb =>
    have hbody := (hcovers.evalBool hsafe.1 hc).exec hsafe.2 hb
    exact ⟨known, hsafe, hbody.mono (Stmt.subset_after _ _)⟩
  | number => exact ⟨_, hsafe.2, hcovers.setInt hsafe.1⟩
  | nextNumber hb =>
    -- What the body declares is forgotten, and then the number itself.
    have hbody := (hcovers.setInt hsafe.1).exec hsafe.2 hb
    have hnumber := hbody.mono (Stmt.subset_after _ _)
    exact ⟨known, hsafe, hnumber.mono (List.subset_cons_self _ _)⟩

theorem Reaches.ready {limit : Nat} {a b : Task × Store} (hreach : Reaches limit a b)
    (hready : a.1.Ready a.2) : b.1.Ready b.2 := by
  induction hreach with
  | refl => exact hready
  | tail _ hcall ih => exact hcall.ready ih

theorem Task.Ready.eval {e : Expr} {σ : Store} (h : (Task.eval e).Ready σ) :
    match Run.eval e σ with
    | .ok value _ => value.type = e.type
    | .error halt _ => ∀ cause, halt ≠ .stuck cause := by
  obtain ⟨known, hsafe, hcovers⟩ := h
  have hrun := eval_safe Store.stable_true hsafe σ ⟨hcovers, trivial⟩
  cases hr : Run.eval e σ with
  | ok value τ =>
    rw [hr] at hrun
    exact hrun.1
  | error halt τ =>
    rw [hr] at hrun
    rintro cause rfl
    exact hrun.1

/-- A safe task is stuck just if it comes to a condition or a bound of the wrong type. -/
theorem Task.Ready.stuck_iff {limit : Nat} {t : Task} {σ : Store} (hready : t.Ready σ)
    {cause : Stuck} : t.halt? limit σ = some (.stuck cause) ↔
      ∃ e target σ' value τ, Reaches limit (t, σ) (.demand e target, σ') ∧
        Run.eval e σ' = .ok value τ ∧ value.type = e.type ∧ e.type ≠ target ∧
        cause = misfit target value := by
  rw [halt?_iff]
  constructor
  · rintro ⟨t', σ', hreach, hculprit⟩
    have hready' : t'.Ready σ' := hreach.ready hready
    cases t' with
    | eval e =>
      have heval := hready'.eval
      obtain ⟨τ, hr⟩ := haltOf?_eq_some.mp hculprit
      rw [hr] at heval
      exact absurd rfl (heval cause)
    | demand e target =>
      obtain ⟨value, τ, heval, hne, hcause⟩ := hculprit
      have htype := Task.Ready.eval hready'
      rw [heval] at htype
      exact ⟨e, target, σ', value, τ, hreach, heval, htype, htype ▸ hne, Halt.stuck.inj hcause⟩
    | rounds cond s n last =>
      cases n with
      | zero => cases hculprit
      | succ n => exact hculprit.elim
    | _ => exact hculprit.elim
  · rintro ⟨e, target, σ', value, τ, hreach, heval, htype, hne, rfl⟩
    exact ⟨.demand e target, σ', hreach, value, τ, heval, htype ▸ hne, rfl⟩

end Scriptlet.Run

/-! ## Conditions and bounds -/

namespace Scriptlet.Typed.Stmt

mutual

def demands : Stmt → List (Expr × Ty)
  | .block body => bodyDemands body
  | .expr _ | .decl _ _ => []
  | .ifThen cond yes => (cond, .bool) :: yes.demands
  | .ifElse cond yes no => (cond, .bool) :: (yes.demands ++ no.demands)
  | .while cond body => (cond, .bool) :: body.demands
  | .for _ lower upper body => (lower, .int) :: (upper, .int) :: body.demands

def bodyDemands : List Stmt → List (Expr × Ty)
  | [] => []
  | s :: ss => s.demands ++ bodyDemands ss

end

end Scriptlet.Typed.Stmt

namespace Scriptlet.Run

open Typed (Expr Stmt)

def Task.demands : Task → List (Expr × Ty)
  | .eval _ => []
  | .demand e target => [(e, target)]
  | .exec s _ => s.demands
  | .body ss _ => Stmt.bodyDemands ss
  | .rounds cond s _ _ => (cond, .bool) :: s.demands
  | .numbers _ s _ _ _ => s.demands

theorem Calls.demands {limit : Nat} {t t' : Task} {σ σ' : Store}
    (hcall : Calls limit (t, σ) (t', σ')) : t'.demands ⊆ t.demands := by
  cases hcall <;> simp [Task.demands, Stmt.demands, Stmt.bodyDemands]

theorem Reaches.demands {limit : Nat} {a b : Task × Store} (hreach : Reaches limit a b) :
    b.1.demands ⊆ a.1.demands := by
  induction hreach with
  | refl => exact List.Subset.refl _
  | tail _ hcall ih => exact List.Subset.trans hcall.demands ih

end Scriptlet.Run
