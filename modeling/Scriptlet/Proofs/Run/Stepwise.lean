import Mathlib.Algebra.Order.Ring.Nat
import Scriptlet.Proofs.Run.Reach

/-!
# Runs step by step

A run as a machine with a list of jobs: a step takes the first job and puts the jobs that it comes
to in its place. A loop comes back after each of its rounds, a `while` for as long as its condition
holds and a `for` until it has gone through its numbers. There is no limit on rounds: the machine
ends just where a run under some limit is not cut off, and in the same way.
-/

namespace Scriptlet.Run

open Typed (Expr Slot Stmt)

/-! ## The numbers of a counted loop -/

/-- The numbers from `next` to `upper`, or none once the last one has been taken. -/
structure Numbers where
  next : Int32
  upper : Int32
  spent : Bool
  deriving DecidableEq, Repr

namespace Numbers

/-- The first number and those after it. One is added only below the upper bound. -/
def take? (ns : Numbers) : Option (Int32 × Numbers) :=
  if ns.spent || ns.upper < ns.next then none
  else if ns.next < ns.upper then some (ns.next, { ns with next := ns.next + 1 })
  else some (ns.next, { ns with spent := true })

def left (ns : Numbers) : Nat := if ns.spent then 0 else rounds ns.next ns.upper

theorem rounds_le (lower upper : Int32) : rounds lower upper ≤ 2 ^ 32 := by
  have hlower := lower.le_toInt
  have hupper := upper.toInt_lt
  unfold rounds
  omega

theorem left_of_take?_eq_none {ns : Numbers} (h : ns.take? = none) : ns.left = 0 := by
  unfold take? at h
  split at h
  · rename_i hend
    unfold left rounds
    rcases Bool.or_eq_true_iff.mp hend with hspent | hlt
    · rw [if_pos hspent]
    · have hlt := Int32.lt_iff_toInt_lt.mp (of_decide_eq_true hlt)
      split <;> omega
  · split at h <;> cases h

theorem take?_eq_some {ns ms : Numbers} {k : Int32} (h : ns.take? = some (k, ms)) :
    k = ns.next ∧ ns.left = ms.left + 1 ∧
      (ms.left = 0 ∨ ms.next.toInt = ns.next.toInt + 1) := by
  unfold take? at h
  split at h
  · cases h
  · rename_i hmore
    simp only [Bool.or_eq_true, decide_eq_true_eq, not_or, Bool.not_eq_true] at hmore
    obtain ⟨hspent, hle⟩ := hmore
    rw [Int32.not_lt, Int32.le_iff_toInt_le] at hle
    split at h
    · rename_i hlt
      cases h
      rw [Int32.lt_iff_toInt_lt] at hlt
      have hlower := ns.next.le_toInt
      have hupper := ns.upper.toInt_lt
      -- Below the upper bound nothing wraps.
      have hnext : (ns.next + 1).toInt = ns.next.toInt + 1 := by
        rw [Int32.toInt_add]
        apply Int.bmod_eq_of_le <;> simp <;> omega
      refine ⟨rfl, ?_, .inr hnext⟩
      simp only [left, hspent, rounds, hnext]
      simp only [Bool.false_eq_true, if_false]
      omega
    · rename_i hlt
      cases h
      rw [Int32.lt_iff_toInt_lt] at hlt
      refine ⟨rfl, ?_, .inl rfl⟩
      simp only [left, hspent, rounds, Bool.false_eq_true, if_false, if_true]
      omega

end Numbers

/-! ## The machine -/

inductive Job
  | stmt (s : Stmt)
  /-- A `for` whose bounds have been evaluated. -/
  | count (slot : Slot) (body : Stmt) (numbers : Numbers)

def Job.advance : Job → Option Value → Exec (List Job × Option Value)
  | .stmt (.block body), last => pure (body.map .stmt, last)
  | .stmt (.expr e), _ => do return ([], some (← eval e))
  | .stmt (.decl v init), _ => do
    let value ← eval init
    assign v.slot value
    return ([], some value)
  | .stmt (.ifThen cond yes), last => do
    return (if ← evalBool cond then [.stmt yes] else [], last)
  | .stmt (.ifElse cond yes no), last => do
    return ([.stmt (if ← evalBool cond then yes else no)], last)
  | .stmt (.while cond body), last => do
    return (if ← evalBool cond then [.stmt body, .stmt (.while cond body)] else [], last)
  | .stmt (.for v lower upper body), last => do
    let lo ← evalInt lower
    let hi ← evalInt upper
    return ([.count v.slot body ⟨lo, hi, false⟩], last)
  | .count slot body numbers, last =>
    match numbers.take? with
    | none => pure ([], last)
    | some (k, numbers) => do
      assign slot (.int k)
      return ([.stmt body, .count slot body numbers], last)

structure Machine where
  jobs : List Job
  last : Option Value
  store : Store

namespace Machine

def start (s : Stmt) (store : Store) : Machine := ⟨[.stmt s], none, store⟩

def step (m : Machine) : Machine ⊕ EStateM.Result Halt Store (Option Value) :=
  match m.jobs with
  | [] => .inr (.ok m.last m.store)
  | job :: jobs =>
    match job.advance m.last m.store with
    | .ok (more, last) store => .inl ⟨more ++ jobs, last, store⟩
    | .error halt store => .inr (.error halt store)

def after : Nat → Machine → Machine ⊕ EStateM.Result Halt Store (Option Value)
  | 0, m => .inl m
  | n + 1, m =>
    match m.step with
    | .inl m => after n m
    | .inr r => .inr r

end Machine

/-! ## Expressions are never cut off -/

def Uncut {α : Type} (m : Exec α) : Prop :=
  Triple (fun _ => True) m (fun _ _ => True) fun halt _ => halt ≠ .cutOff

section
variable {α β : Type}

theorem Uncut.haltOf?_ne {m : Exec α} (h : Uncut m) (σ : Store) :
    haltOf? (m σ) ≠ some .cutOff := by
  intro hcut
  obtain ⟨τ, hr⟩ := haltOf?_eq_some.mp hcut
  have hm := h σ trivial
  rw [hr] at hm
  exact hm rfl

theorem Uncut.bind {m : Exec α} {f : α → Exec β} (hm : Uncut m) (hf : ∀ a, Uncut (f a)) :
    Uncut (m >>= f) :=
  Triple.bind hm hf

theorem uncut_pure (a : α) : Uncut (pure a : Exec α) := fun _ _ => trivial

theorem uncut_assign (slot : Slot) (value : Value) : Uncut (assign slot value) :=
  fun _ _ => trivial

theorem uncut_ofExcept {x : Except Halt α} (h : x ≠ .error .cutOff) : Uncut (ofExcept x) := by
  intro σ _
  cases x with
  | ok a => trivial
  | error halt => exact fun hcut => h (congrArg _ hcut)

end

theorem applyUnary_ne_cutOff (op : Typed.UnaryOp) (v : Value) :
    applyUnary op v ≠ .error .cutOff := by
  cases op <;> cases v <;> nofun

theorem applyBinary_ne_cutOff (op : Typed.BinaryOp) (lhs rhs : Value) :
    applyBinary op lhs rhs ≠ .error .cutOff := by
  cases lhs with
  | int a =>
    cases rhs with
    | int b =>
      cases op with
      | division =>
        show (if b = 0 then _ else _ : Except Halt Value) ≠ _
        split <;> nofun
      | _ => nofun
    | bool b => cases op <;> nofun
  | bool a =>
    cases rhs with
    | int b => cases op <;> cases a <;> nofun
    | bool b => cases op <;> cases a <;> nofun

theorem uncut_eval : ∀ e : Expr, Uncut (eval e)
  | .literal value => uncut_pure value
  | .unary row operand =>
    (uncut_eval operand).bind fun v => uncut_ofExcept (applyUnary_ne_cutOff row.op v)
  | .binary lhs row rhs =>
    (uncut_eval lhs).bind fun l => (uncut_eval rhs).bind fun r =>
      uncut_ofExcept (applyBinary_ne_cutOff row.op l r)
  | .read v => by
    intro σ _
    rw [eval_read]
    cases σ.get? v.slot with
    | some value => trivial
    | none => nofun
  | .assign v rhs =>
    (uncut_eval rhs).bind fun value => (uncut_assign v.slot value).bind fun _ => uncut_pure value
  | .paren inner => uncut_eval inner

theorem uncut_evalInt (e : Expr) : Uncut (evalInt e) :=
  (uncut_eval e).bind fun v => uncut_ofExcept (by cases v <;> nofun)

theorem uncut_evalBool (e : Expr) : Uncut (evalBool e) :=
  (uncut_eval e).bind fun v => uncut_ofExcept (by cases v <;> nofun)

/-! ## The machine and the runs under a limit -/

namespace Machine

theorem after_add (n k : Nat) (m : Machine) :
    m.after (n + k) = match m.after n with
      | .inl m' => m'.after k
      | .inr r => .inr r := by
  induction n generalizing m with
  | zero => simp [after]
  | succ n ih =>
    rw [Nat.succ_add]
    simp only [after]
    cases m.step with
    | inl m' => exact ih m'
    | inr r => rfl

theorem after_of_le {m : Machine} {n n' : Nat} {r : EStateM.Result Halt Store (Option Value)}
    (h : m.after n = .inr r) (hle : n ≤ n') : m.after n' = .inr r := by
  obtain ⟨k, rfl⟩ := Nat.exists_eq_add_of_le hle
  rw [after_add, h]

/-- From `m` the machine does what `r` says: it gets to the jobs `jobs`, or is stopped before. If
`r` was cut off, it goes on for `bound` steps at least. -/
def Meets (bound : Nat) (jobs : List Job) (m : Machine) :
    EStateM.Result Halt Store (Option Value) → Prop
  | .ok last τ => ∃ n, ∀ k, m.after (n + k) = after k ⟨jobs, last, τ⟩
  | .error .cutOff _ => ∃ m', m.after bound = .inl m'
  | .error halt τ => ∃ n, m.after n = .inr (.error halt τ)

variable {bound n : Nat} {jobs : List Job} {m m' : Machine}
  {r : EStateM.Result Halt Store (Option Value)}

theorem Meets.mono {bound' : Nat} (h : m.Meets bound jobs r) (hle : bound' ≤ bound) :
    m.Meets bound' jobs r := by
  cases r with
  | ok last τ => exact h
  | error halt τ =>
    cases halt with
    | cutOff =>
      obtain ⟨m', hm'⟩ := h
      cases hr : m.after bound' with
      | inl m'' => exact ⟨m'', hr⟩
      | inr r =>
        rw [after_of_le hr hle] at hm'
        cases hm'
    | divisionByZero dividend | stuck cause => exact h

theorem Meets.of_after (hafter : ∀ k, m.after (n + k) = m'.after k) (h : m'.Meets bound jobs r) :
    m.Meets (n + bound) jobs r := by
  cases r with
  | ok last τ =>
    obtain ⟨n', hn'⟩ := h
    refine ⟨n + n', fun k => ?_⟩
    rw [Nat.add_assoc, hafter, hn']
  | error halt τ =>
    cases halt with
    | cutOff =>
      obtain ⟨m'', hm''⟩ := h
      exact ⟨m'', (hafter bound).trans hm''⟩
    | divisionByZero dividend | stuck cause =>
      obtain ⟨n', hn'⟩ := h
      exact ⟨n + n', (hafter n').trans hn'⟩

/-- Where the machine is stopped, it does not matter what would have come next. -/
theorem Meets.of_error {halt : Halt} {τ : Store} (h : m.Meets bound jobs (.error halt τ))
    (jobs' : List Job) : m.Meets bound jobs' (.error halt τ) := by
  cases halt <;> exact h

end Machine

def Follows (bound : Nat) (js : List Job) (last : Option Value) (run : Exec (Option Value)) :
    Prop :=
  ∀ (jobs : List Job) (σ : Store), Machine.Meets bound jobs ⟨js ++ jobs, last, σ⟩ (run σ)

namespace Follows

open Machine (Meets)

variable {bound : Nat} {js js' : List Job} {last : Option Value}

theorem nil (bound : Nat) (last : Option Value) : Follows bound [] last (pure last) :=
  fun _ _ => ⟨0, fun k => by rw [Nat.zero_add]; rfl⟩

theorem mono {bound' : Nat} {run : Exec (Option Value)} (h : Follows bound js last run)
    (hle : bound' ≤ bound) : Follows bound' js last run :=
  fun jobs σ => (h jobs σ).mono hle

theorem append {run : Exec (Option Value)} {next : Option Value → Exec (Option Value)}
    (hrun : Follows bound js last run) (hnext : ∀ last', Follows bound js' last' (next last')) :
    Follows bound (js ++ js') last (run >>= next) := by
  intro jobs σ
  have hfirst := hrun (js' ++ jobs) σ
  rw [← List.append_assoc] at hfirst
  show Meets bound jobs _ (EStateM.bind run next σ)
  unfold EStateM.bind
  cases hr : run σ with
  | error halt τ =>
    rw [hr] at hfirst
    exact hfirst.of_error jobs
  | ok last' τ =>
    rw [hr] at hfirst
    obtain ⟨n, hn⟩ := hfirst
    exact ((hnext last' jobs τ).of_after hn).mono (Nat.le_add_left _ _)

/-- A job follows a run if its step does what the run starts with, and the jobs that it comes to
follow the rest. -/
theorem advance {α : Type} {job : Job} {m : Exec α} {rest : α → Exec (Option Value)}
    (more : α → List Job × Option Value) (hm : Uncut m)
    (hadvance : job.advance last = do return more (← m))
    (hrest : ∀ a, Follows bound (more a).1 (more a).2 (rest a)) :
    Follows (bound + 1) [job] last (m >>= rest) := by
  intro jobs σ
  have hstep : Machine.step ⟨[job] ++ jobs, last, σ⟩ =
      match m σ with
      | .ok a τ => .inl ⟨(more a).1 ++ jobs, (more a).2, τ⟩
      | .error halt τ => .inr (.error halt τ) := by
    simp only [Machine.step, List.singleton_append, hadvance]
    show (match EStateM.bind m (fun a => pure (more a)) σ with
      | .ok (js, last) τ => _
      | .error halt τ => _) = _
    unfold EStateM.bind
    cases m σ <;> rfl
  show Meets (bound + 1) jobs _ (EStateM.bind m rest σ)
  unfold EStateM.bind
  cases hr : m σ with
  | error halt τ =>
    rw [hr] at hstep
    have hend : Machine.after 1 ⟨[job] ++ jobs, last, σ⟩ = .inr (.error halt τ) := by
      rw [Machine.after, hstep]
    cases halt with
    | cutOff => exact absurd (congrArg haltOf? hr) (hm.haltOf?_ne σ)
    | divisionByZero dividend | stuck cause => exact ⟨1, hend⟩
  | ok a τ =>
    rw [hr] at hstep
    have hafter (k : Nat) : Machine.after (1 + k) ⟨[job] ++ jobs, last, σ⟩ =
        Machine.after k ⟨(more a).1 ++ jobs, (more a).2, τ⟩ := by
      rw [Nat.add_comm, Machine.after, hstep]
    rw [Nat.add_comm]
    exact (hrest a jobs τ).of_after hafter

-- Every round runs its body under the whole limit, and each round left is one step at least.
theorem whileLoop {cond : Expr} {body : Stmt} {limit : Nat}
    (hbody : ∀ last, Follows limit [.stmt body] last (exec limit body last)) :
    ∀ (n : Nat), n ≤ limit → ∀ last, Follows n [.stmt (.while cond body)] last
      (Run.whileLoop (evalBool cond) (fun last => exec limit body last) n last)
  | 0, _, _ => fun _ _ => ⟨_, rfl⟩
  | n + 1, hle, last => by
    unfold Run.whileLoop
    refine advance _ (uncut_evalBool cond) rfl fun b => ?_
    cases b with
    | true =>
      have hround := (hbody last).mono (Nat.le_of_succ_le hle)
      exact hround.append (whileLoop hbody n (Nat.le_of_succ_le hle))
    | false => exact nil n last

theorem forLoop {slot : Slot} {body : Stmt} {limit : Nat}
    (hbody : ∀ last, Follows limit [.stmt body] last (exec limit body last)) :
    ∀ (n : Nat) (ns : Numbers) (k : Int), ns.left = n → (n = 0 ∨ ns.next.toInt = k) → ∀ last,
      Follows limit [.count slot body ns] last
        (Run.forLoop slot (fun last => exec limit body last) n k last)
  | 0, ns, k, hleft, _, last => by
    have hnone : ns.take? = none := by
      cases htake : ns.take? with
      | none => rfl
      | some p =>
        have hsome := (Numbers.take?_eq_some htake).2.1
        omega
    refine (advance (fun _ => ([], last)) (uncut_pure ()) ?_ fun _ => nil limit last).mono
      (Nat.le_succ limit)
    simp only [Job.advance, hnone]
    rfl
  | n + 1, ns, k, hleft, hk, last => by
    obtain ⟨p, htake⟩ : ∃ p, ns.take? = some p := by
      cases htake : ns.take? with
      | none =>
        have hzero := Numbers.left_of_take?_eq_none htake
        omega
      | some p => exact ⟨p, rfl⟩
    obtain ⟨hnext, hless, hlater⟩ := Numbers.take?_eq_some htake
    have hk : ns.next.toInt = k := hk.resolve_left (Nat.succ_ne_zero n)
    have hnumber : Int32.ofInt k = p.1 := by rw [← hk, Int32.ofInt_toInt, hnext]
    unfold Run.forLoop
    rw [hnumber]
    refine (advance (fun _ => ([.stmt body, .count slot body p.2], last))
      (uncut_assign slot (.int p.1)) ?_ fun _ => ?_).mono (Nat.le_succ limit)
    · simp only [Job.advance, htake]
    · refine (hbody last).append (forLoop hbody n p.2 (k + 1) (by omega) ?_)
      rw [← hk]
      exact hlater.imp_left fun hzero => by omega

end Follows

mutual

theorem exec_follows (limit : Nat) : ∀ (s : Stmt) (last : Option Value),
    Follows limit [.stmt s] last (exec limit s last)
  | .block body, last => by
    have hbody : Follows (limit + 1) [.stmt (.block body)] last
        (pure () >>= fun _ => execBody limit body last) :=
      .advance (fun _ => (body.map .stmt, last)) (uncut_pure ()) rfl fun _ =>
        execBody_follows limit body last
    exact hbody.mono (Nat.le_succ limit)
  | .expr e, last =>
    (Follows.advance _ (uncut_eval e) rfl fun v => .nil limit (some v)).mono (Nat.le_succ limit)
  | .decl v init, last => by
    have hstore : Follows (limit + 1) [.stmt (.decl v init)] last
        ((do let value ← eval init; assign v.slot value; return value) >>= fun value =>
          pure (some value)) := by
      refine .advance (fun value => ([], some value)) ?_ ?_ fun value => .nil limit _
      · exact (uncut_eval init).bind fun value => (uncut_assign v.slot value).bind fun _ =>
          uncut_pure value
      · simp [Job.advance]
    unfold exec
    simpa using hstore.mono (Nat.le_succ limit)
  | .ifThen cond yes, last => by
    unfold exec
    refine (Follows.advance _ (uncut_evalBool cond) rfl fun b => ?_).mono (Nat.le_succ limit)
    cases b with
    | true => exact exec_follows limit yes last
    | false => exact .nil limit last
  | .ifElse cond yes no, last => by
    unfold exec
    refine (Follows.advance _ (uncut_evalBool cond) rfl fun b => ?_).mono (Nat.le_succ limit)
    cases b with
    | true => exact exec_follows limit yes last
    | false => exact exec_follows limit no last
  | .while cond body, last => by
    unfold exec
    exact .whileLoop (exec_follows limit body) limit (Nat.le_refl limit) last
  | .for v lower upper body, last => by
    have hbounds : Follows (limit + 1) [.stmt (.for v lower upper body)] last
        ((do let lo ← evalInt lower; let hi ← evalInt upper; return (lo, hi)) >>= fun p =>
          forLoop v.slot (fun last => exec limit body last) (rounds p.1 p.2) p.1.toInt last) := by
      refine .advance (fun p => ([.count v.slot body ⟨p.1, p.2, false⟩], last)) ?_ ?_
        fun p => ?_
      · exact (uncut_evalInt lower).bind fun lo => (uncut_evalInt upper).bind fun hi =>
          uncut_pure (lo, hi)
      · simp [Job.advance]
      · exact .forLoop (exec_follows limit body) _ ⟨p.1, p.2, false⟩ _ rfl (.inr rfl) last
    unfold exec
    simpa using hbounds.mono (Nat.le_succ limit)

theorem execBody_follows (limit : Nat) : ∀ (ss : List Stmt) (last : Option Value),
    Follows limit (ss.map .stmt) last (execBody limit ss last)
  | [], last => Follows.nil limit last
  | s :: ss, last => by
    unfold execBody
    exact (exec_follows limit s last).append (execBody_follows limit ss)

end

namespace Machine

theorem Meets.ends {bound : Nat} {m : Machine} {r : EStateM.Result Halt Store (Option Value)}
    (h : m.Meets bound [] r) (hcut : haltOf? r ≠ some .cutOff) : ∃ n, m.after n = .inr r := by
  cases r with
  | ok last τ =>
    obtain ⟨n, hn⟩ := h
    exact ⟨n + 1, hn 1⟩
  | error halt τ =>
    cases halt with
    | cutOff => exact absurd rfl hcut
    | divisionByZero dividend | stuck cause => exact h

theorem after_unique {m : Machine} {n n' : Nat} {r r' : EStateM.Result Halt Store (Option Value)}
    (h : m.after n = .inr r) (h' : m.after n' = .inr r') : r = r' := by
  have hmax := after_of_le h (Nat.le_max_left n n')
  rw [after_of_le h' (Nat.le_max_right n n')] at hmax
  exact (Sum.inr.inj hmax).symm

/-- The machine ends just where a run under some limit is not cut off, and in the same way. -/
theorem ends_iff (s : Stmt) (σ : Store) (r : EStateM.Result Halt Store (Option Value)) :
    (∃ n, (start s σ).after n = .inr r) ↔
      haltOf? r ≠ some .cutOff ∧ ∃ limit, run limit s σ = r := by
  constructor
  · rintro ⟨n, hn⟩
    -- A limit of as many rounds as the machine has steps cannot cut the run off.
    have hmeets : (start s σ).Meets n [] (run n s σ) := exec_follows n s none [] σ
    have hcut : haltOf? (run n s σ) ≠ some .cutOff := by
      intro hcut
      obtain ⟨τ, hr⟩ := haltOf?_eq_some.mp hcut
      rw [hr] at hmeets
      obtain ⟨m, hm⟩ := hmeets
      rw [hn] at hm
      cases hm
    obtain ⟨n', hn'⟩ := hmeets.ends hcut
    obtain rfl := after_unique hn hn'
    exact ⟨hcut, n, rfl⟩
  · rintro ⟨hcut, limit, rfl⟩
    have hmeets : (start s σ).Meets limit [] (run limit s σ) := exec_follows limit s none [] σ
    exact hmeets.ends hcut

end Machine

end Scriptlet.Run
