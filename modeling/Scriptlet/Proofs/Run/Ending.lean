import Scriptlet.Proofs.Run.Stepwise

/-!
# Statements that always end

A statement without `while` ends from every store. What gets less with every step is the weight of
the jobs, in which a `for` that is under way counts its body once for each number that is left. The
numbers are fixed when the loop starts, so what the body stores has no say in the weight.
-/

namespace Scriptlet.Typed.Stmt

mutual

def WhileFree : Stmt → Prop
  | .block body => AllWhileFree body
  | .expr _ | .decl _ _ => True
  | .ifThen _ yes => yes.WhileFree
  | .ifElse _ yes no => yes.WhileFree ∧ no.WhileFree
  | .while _ _ => False
  | .for _ _ _ body => body.WhileFree

def AllWhileFree : List Stmt → Prop
  | [] => True
  | s :: ss => s.WhileFree ∧ AllWhileFree ss

end

mutual

/-- As many steps as a statement without `while` can take, whatever is in the store: there are no
more than `2 ^ 32` numbers for a `for` to go through. -/
def weight : Stmt → Nat
  | .block body => bodyWeight body + 1
  | .expr _ | .decl _ _ => 1
  | .ifThen _ yes => yes.weight + 1
  | .ifElse _ yes no => yes.weight + no.weight + 1
  | .while _ _ => 0
  | .for _ _ _ body => 2 ^ 32 * (body.weight + 1) + 2

def bodyWeight : List Stmt → Nat
  | [] => 0
  | s :: ss => s.weight + bodyWeight ss

end

theorem allWhileFree_iff : ∀ {ss : List Stmt}, AllWhileFree ss ↔ ∀ s ∈ ss, s.WhileFree
  | [] => by simp [AllWhileFree]
  | s :: ss => by rw [AllWhileFree, allWhileFree_iff, List.forall_mem_cons]

theorem bodyWeight_eq : ∀ ss : List Stmt, bodyWeight ss = (ss.map weight).sum
  | [] => rfl
  | s :: ss => by rw [bodyWeight, bodyWeight_eq, List.map_cons, List.sum_cons]

end Scriptlet.Typed.Stmt

namespace Scriptlet.Run

open Typed (Expr Slot Stmt)

namespace Job

def WhileFree : Job → Prop
  | .stmt s => s.WhileFree
  | .count _ body _ => body.WhileFree

def weight : Job → Nat
  | .stmt s => s.weight
  | .count _ body numbers => numbers.left * (body.weight + 1) + 1

end Job

theorem Triple.trivially {ε σ α : Type} (m : EStateM ε σ α) :
    Triple (fun _ => True) m (fun _ _ => True) (fun _ _ => True) := by
  intro s _
  cases m s <;> trivial

/-- Whatever the store holds, a step leaves lighter jobs. -/
theorem advance_lighter {job : Job} (h : job.WhileFree) (last : Option Value) :
    Triple (fun _ => True) (job.advance last)
      (fun p _ => (∀ j ∈ p.1, j.WhileFree) ∧ (p.1.map Job.weight).sum < job.weight)
      (fun _ _ => True) := by
  cases job with
  | stmt s =>
    cases s with
    | block body =>
      refine fun _ _ => ⟨?_, ?_⟩
      · simpa [Job.WhileFree] using Stmt.allWhileFree_iff.mp h
      · simp [Job.weight, Stmt.weight, Stmt.bodyWeight_eq, Function.comp_def]
    | expr e =>
      refine (Triple.trivially (eval e)).bind fun value _ _ => ⟨by simp, ?_⟩
      simp [Job.weight, Stmt.weight]
    | decl v init =>
      refine (Triple.trivially (eval init)).bind fun value => ?_
      refine (Triple.trivially (assign v.slot value)).bind fun _ _ _ => ⟨by simp, ?_⟩
      simp [Job.weight, Stmt.weight]
    | ifThen cond yes =>
      refine (Triple.trivially (evalBool cond)).bind fun b _ _ => ?_
      cases b with
      | true => exact ⟨List.forall_mem_singleton.mpr h, by simp [Job.weight, Stmt.weight]⟩
      | false => exact ⟨by simp, by simp [Job.weight, Stmt.weight]⟩
    | ifElse cond yes no =>
      refine (Triple.trivially (evalBool cond)).bind fun b _ _ => ?_
      cases b with
      | true =>
        refine ⟨List.forall_mem_singleton.mpr h.1, ?_⟩
        simp only [List.map_cons, List.map_nil, List.sum_cons, List.sum_nil, Job.weight,
          Stmt.weight, if_true]
        omega
      | false =>
        refine ⟨List.forall_mem_singleton.mpr h.2, ?_⟩
        simp only [List.map_cons, List.map_nil, List.sum_cons, List.sum_nil, Job.weight,
          Stmt.weight, Bool.false_eq_true, if_false]
        omega
    | «while» cond body => exact h.elim
    | «for» v lower upper body =>
      refine (Triple.trivially (evalInt lower)).bind fun lo => ?_
      refine (Triple.trivially (evalInt upper)).bind fun hi _ _ =>
        ⟨List.forall_mem_singleton.mpr h, ?_⟩
      -- The bounds come from the store, but there are only so many numbers.
      have hrounds : rounds lo hi * (body.weight + 1) ≤ 2 ^ 32 * (body.weight + 1) :=
        Nat.mul_le_mul_right _ (Numbers.rounds_le lo hi)
      simp only [List.map_cons, List.map_nil, List.sum_cons, List.sum_nil, Job.weight, Stmt.weight,
        Numbers.left, Bool.false_eq_true, if_false]
      omega
  | count slot body numbers =>
    simp only [Job.advance]
    cases htake : numbers.take? with
    | none => exact fun _ _ => ⟨by simp, by simp [Job.weight]⟩
    | some p =>
      obtain ⟨_, hleft, _⟩ := Numbers.take?_eq_some htake
      refine (Triple.trivially (assign slot (.int p.1))).bind fun _ _ _ => ⟨?_, ?_⟩
      · exact List.forall_mem_cons.mpr ⟨h, List.forall_mem_singleton.mpr h⟩
      · simp only [Job.weight, hleft, Nat.succ_mul, List.map_cons, List.map_nil, List.sum_cons,
          List.sum_nil]
        omega

namespace Machine

def WhileFree (m : Machine) : Prop := ∀ job ∈ m.jobs, job.WhileFree

def weight (m : Machine) : Nat := (m.jobs.map Job.weight).sum

theorem step_lighter {m m' : Machine} (h : m.WhileFree) (hstep : m.step = .inl m') :
    m'.WhileFree ∧ m'.weight < m.weight := by
  obtain ⟨jobs, last, σ⟩ := m
  cases jobs with
  | nil => cases hstep
  | cons job jobs =>
    obtain ⟨hjob, hjobs⟩ := List.forall_mem_cons.mp h
    have hadvance := advance_lighter hjob last σ trivial
    simp only [step] at hstep
    cases hr : job.advance last σ with
    | error halt τ =>
      rw [hr] at hstep
      cases hstep
    | ok p τ =>
      rw [hr] at hstep hadvance
      cases hstep
      refine ⟨List.forall_mem_append.mpr ⟨hadvance.1, hjobs⟩, ?_⟩
      simp only [weight, List.map_append, List.sum_append, List.map_cons, List.sum_cons]
      exact Nat.add_lt_add_right hadvance.2 _

theorem ends_of_weight_lt {m : Machine} (h : m.WhileFree) {n : Nat} (hn : m.weight < n) :
    ∃ r, m.after n = .inr r := by
  induction n generalizing m with
  | zero => exact absurd hn (Nat.not_lt_zero _)
  | succ n ih =>
    unfold after
    cases hstep : m.step with
    | inr r => exact ⟨r, rfl⟩
    | inl m' =>
      obtain ⟨hfree, hlighter⟩ := step_lighter h hstep
      exact ih hfree (by omega)

end Machine

mutual

theorem uncut_exec (limit : Nat) : ∀ {s : Stmt}, s.WhileFree → ∀ last : Option Value,
    Uncut (exec limit s last)
  | .block body, h, last => uncut_execBody limit h last
  | .expr e, _, _ => (uncut_eval e).bind fun value => uncut_pure (some value)
  | .decl v init, _, _ =>
    (uncut_eval init).bind fun value => (uncut_assign v.slot value).bind fun _ =>
      uncut_pure (some value)
  | .ifThen cond yes, h, last => (uncut_evalBool cond).bind fun b => by
    cases b with
    | true => exact uncut_exec limit (s := yes) h last
    | false => exact uncut_pure last
  | .ifElse cond yes no, h, last => (uncut_evalBool cond).bind fun b => by
    cases b with
    | true => exact uncut_exec limit h.1 last
    | false => exact uncut_exec limit h.2 last
  | .while cond body, h, _ => h.elim
  | .for v lower upper body, h, last =>
    (uncut_evalInt lower).bind fun lo => (uncut_evalInt upper).bind fun hi =>
      Triple.forLoop (fun _ last σ _ => uncut_exec limit (s := body) h last σ trivial)
        (rounds lo hi) lo.toInt last

theorem uncut_execBody (limit : Nat) : ∀ {ss : List Stmt}, Stmt.AllWhileFree ss →
    ∀ last : Option Value, Uncut (execBody limit ss last)
  | [], _, last => uncut_pure last
  | _ :: _, h, last => (uncut_exec limit h.1 last).bind fun last => uncut_execBody limit h.2 last

end

/-- A statement without `while` ends from every store, with a value, dividing by zero or stuck: it
does so within a number of steps that can be read off the statement, and no limit on rounds has a
say in it. -/
theorem whileFree_ends (s : Stmt) (h : s.WhileFree) (σ : Store) :
    ∃ r, (Machine.start s σ).after (s.weight + 1) = .inr r ∧ (∀ limit, run limit s σ = r) ∧
      match r with
      | .ok _ _ => True
      | .error halt _ => (∃ dividend, halt = .divisionByZero dividend) ∨
        ∃ cause, halt = .stuck cause := by
  have hfree : (Machine.start s σ).WhileFree := List.forall_mem_singleton.mpr h
  have hweight : (Machine.start s σ).weight = s.weight := Nat.add_zero s.weight
  obtain ⟨r, hr⟩ := Machine.ends_of_weight_lt hfree (Nat.lt_succ_of_le (Nat.le_of_eq hweight))
  have hcut : haltOf? r ≠ some .cutOff := ((Machine.ends_iff s σ r).mp ⟨_, hr⟩).1
  refine ⟨r, hr, fun limit => ?_, ?_⟩
  · have hlimit : haltOf? (run limit s σ) ≠ some .cutOff := (uncut_exec limit h none).haltOf?_ne σ
    obtain ⟨n, hn⟩ := (Machine.ends_iff s σ _).mpr ⟨hlimit, limit, rfl⟩
    exact Machine.after_unique hn hr
  · cases r with
    | ok last τ => trivial
    | error halt τ =>
      cases halt with
      | divisionByZero dividend => exact .inl ⟨dividend, rfl⟩
      | stuck cause => exact .inr ⟨cause, rfl⟩
      | cutOff => exact absurd rfl hcut

/-- Both loops go up to the largest number, and the body sets both variables back each time. -/
theorem nested_loops_end :
    let i : Typed.Variable := ⟨"i", false, .int⟩
    let j : Typed.Variable := ⟨"j", false, .int⟩
    let largest : Expr := .literal (.int 2147483647)
    let body : Stmt := .expr (.assign i (.assign j (.literal (.int 0))))
    let loops : Stmt := .for i (.literal (.int 0)) largest (.for j (.read i) largest body)
    loops.WhileFree ∧ ∃ r, (Machine.start loops {}).after (loops.weight + 1) = .inr r ∧
      ∀ limit, run limit loops {} = r := by
  intro i j largest body loops
  have hfree : loops.WhileFree := trivial
  obtain ⟨r, hafter, hrun, _⟩ := whileFree_ends loops hfree {}
  exact ⟨hfree, r, hafter, hrun⟩

end Scriptlet.Run
