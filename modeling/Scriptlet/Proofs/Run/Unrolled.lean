import Scriptlet.Proofs.Run.Triple

/-!
# Counted loops, round by round

A `for` evaluates its bounds once each and then makes one round for each number between them, in
order and up to the first round that is stopped. The numbers are fixed before the first round: what
the body stores has no say in them, and none is left out at the largest number there is.
-/

namespace Scriptlet.Run

open Typed (Expr Slot Stmt Variable)

/-! ## The numbers -/

def between (lower upper : Int32) : List Int32 :=
  (List.range (rounds lower upper)).map fun i : Nat => .ofInt (lower.toInt + i)

-- Between two words nothing overflows.
theorem toInt_ofInt_of_lt_rounds {lower upper : Int32} {i : Nat} (h : i < rounds lower upper) :
    (Int32.ofInt (lower.toInt + i)).toInt = lower.toInt + i := by
  have hlower := lower.le_toInt
  have hupper := upper.toInt_lt
  unfold rounds at h
  apply Int32.toInt_ofInt_of_le <;> omega

theorem length_between {lower upper : Int32} (h : lower ≤ upper) :
    ((between lower upper).length : Int) = upper.toInt - lower.toInt + 1 := by
  rw [Int32.le_iff_toInt_le] at h
  simp only [between, rounds, List.length_map, List.length_range]
  omega

theorem mem_between {lower upper k : Int32} :
    k ∈ between lower upper ↔ lower ≤ k ∧ k ≤ upper := by
  simp only [between, List.mem_map, List.mem_range, Int32.le_iff_toInt_le]
  constructor
  · rintro ⟨i, hi, rfl⟩
    rw [toInt_ofInt_of_lt_rounds hi]
    unfold rounds at hi
    omega
  · intro h
    refine ⟨(k.toInt - lower.toInt).toNat, ?_, ?_⟩
    · unfold rounds
      omega
    · have hk : lower.toInt + ((k.toInt - lower.toInt).toNat : Int) = k.toInt := by omega
      rw [hk, Int32.ofInt_toInt]

theorem between_increasing (lower upper : Int32) : (between lower upper).Pairwise (· < ·) := by
  unfold between
  rw [List.pairwise_map]
  refine List.Pairwise.imp_of_mem ?_ List.pairwise_lt_range
  intro i j hi hj hij
  rw [Int32.lt_iff_toInt_lt, toInt_ofInt_of_lt_rounds (List.mem_range.mp hi),
    toInt_ofInt_of_lt_rounds (List.mem_range.mp hj)]
  omega

/-! ## The rounds -/

def round (limit : Nat) (slot : Slot) (body : Stmt) (last : Option Value) (k : Int32) :
    Exec (Option Value) := do
  assign slot (.int k)
  exec limit body last

section
variable {limit : Nat} {slot : Slot} {body : Stmt}

theorem forLoop_eq_foldlM : ∀ (n : Nat) (k : Int) (last : Option Value),
    forLoop slot (fun last => exec limit body last) n k last =
      ((List.range n).map fun i : Nat => Int32.ofInt (k + i)).foldlM (round limit slot body) last
  | 0, _, _ => rfl
  | n + 1, k, last => by
    have hnext (i : Nat) : k + 1 + (i : Int) = k + ((i + 1 : Nat) : Int) := by omega
    rw [List.range_succ_eq_map, List.map_cons, List.map_map, List.foldlM_cons]
    simp only [forLoop, round, forLoop_eq_foldlM n (k + 1), hnext, bind_assoc]
    simp [Function.comp_def]

/-- How rounds for the numbers `ks` go, which of them are `started`, and what comes of them. Each is
started in the store that the one before it left; one that is stopped is the last. -/
inductive Rounds (limit : Nat) (slot : Slot) (body : Stmt) : List Int32 → Option Value → Store →
    List Int32 → EStateM.Result Halt Store (Option Value) → Prop
  | ended {last : Option Value} {σ : Store} : Rounds limit slot body [] last σ [] (.ok last σ)
  | stopped {k : Int32} {ks : List Int32} {last : Option Value} {σ τ : Store} {halt : Halt} :
    exec limit body last (σ.set slot (.int k)) = .error halt τ →
    Rounds limit slot body (k :: ks) last σ [k] (.error halt τ)
  | next {k : Int32} {ks started : List Int32} {last last' : Option Value} {σ τ : Store}
    {r : EStateM.Result Halt Store (Option Value)} :
    exec limit body last (σ.set slot (.int k)) = .ok last' τ →
    Rounds limit slot body ks last' τ started r →
    Rounds limit slot body (k :: ks) last σ (k :: started) r

theorem foldlM_round_cons (k : Int32) (ks : List Int32) (last : Option Value) (σ : Store) :
    (k :: ks).foldlM (round limit slot body) last σ =
      match exec limit body last (σ.set slot (.int k)) with
      | .ok last' τ => ks.foldlM (round limit slot body) last' τ
      | .error halt τ => .error halt τ := by
  rw [List.foldlM_cons]
  show EStateM.bind (fun σ => exec limit body last (σ.set slot (.int k))) _ σ = _
  simp only [EStateM.bind]
  cases exec limit body last (σ.set slot (.int k)) <;> rfl

theorem exists_rounds : ∀ (ks : List Int32) (last : Option Value) (σ : Store),
    ∃ started, Rounds limit slot body ks last σ started
      (ks.foldlM (round limit slot body) last σ)
  | [], last, σ => ⟨[], .ended⟩
  | k :: ks, last, σ => by
    rw [foldlM_round_cons]
    cases h : exec limit body last (σ.set slot (.int k)) with
    | error halt τ => exact ⟨[k], .stopped h⟩
    | ok last' τ =>
      obtain ⟨started, hrounds⟩ := exists_rounds ks last' τ
      exact ⟨k :: started, .next h hrounds⟩

theorem Rounds.unique {ks started started' : List Int32} {last : Option Value} {σ : Store}
    {r r' : EStateM.Result Halt Store (Option Value)}
    (h : Rounds limit slot body ks last σ started r)
    (h' : Rounds limit slot body ks last σ started' r') : started = started' ∧ r = r' := by
  induction h generalizing started' with
  | ended =>
    cases h'
    exact ⟨rfl, rfl⟩
  | stopped hk =>
    cases h' with
    | stopped hk' =>
      cases hk.symm.trans hk'
      exact ⟨rfl, rfl⟩
    | next hk' _ => cases hk.symm.trans hk'
  | next hk _ ih =>
    cases h' with
    | stopped hk' => cases hk.symm.trans hk'
    | next hk' hnext =>
      cases hk.symm.trans hk'
      obtain ⟨rfl, rfl⟩ := ih hnext
      exact ⟨rfl, rfl⟩

theorem Rounds.started_isPrefix {ks started : List Int32} {last : Option Value} {σ : Store}
    {r : EStateM.Result Halt Store (Option Value)}
    (h : Rounds limit slot body ks last σ started r) : started <+: ks := by
  induction h with
  | ended => exact List.nil_prefix
  | stopped _ => exact List.cons_prefix_cons.mpr ⟨rfl, List.nil_prefix⟩
  | next _ _ ih => exact List.cons_prefix_cons.mpr ⟨rfl, ih⟩

theorem Rounds.started_eq {ks started : List Int32} {last last' : Option Value} {σ τ : Store}
    (h : Rounds limit slot body ks last σ started (.ok last' τ)) : started = ks := by
  generalize hr : EStateM.Result.ok last' τ = r at h
  induction h with
  | ended => rfl
  | stopped _ => cases hr
  | next _ _ ih => rw [ih hr]

end

/-! ## The loop -/

theorem exec_for (limit : Nat) (v : Variable) (lower upper : Expr) (body : Stmt)
    (last : Option Value) :
    exec limit (.for v lower upper body) last = (do
      let lo ← evalInt lower
      let hi ← evalInt upper
      (between lo hi).foldlM (round limit v.slot body) last) := by
  unfold exec
  simp only [forLoop_eq_foldlM]
  rfl

/-- A `for` evaluates its lower bound, then its upper bound, and then makes the rounds for the
numbers between them, whatever the body stores. The numbers are all from the lower bound to the
upper one, in order. A round is started for each of them if none is stopped, for a first part of
them otherwise, and for none if the bounds are the other way round. -/
theorem for_unrolled (limit : Nat) (v : Variable) (lower upper : Expr) (body : Stmt)
    (last : Option Value) :
    (exec limit (.for v lower upper body) last = do
      let lo ← evalInt lower
      let hi ← evalInt upper
      (between lo hi).foldlM (round limit v.slot body) last) ∧
    ∀ (lo hi : Int32) (σ σ' τ : Store),
      evalInt lower σ = .ok lo σ' → evalInt upper σ' = .ok hi τ →
      (between lo hi).Pairwise (· < ·) ∧ (∀ k, k ∈ between lo hi ↔ lo ≤ k ∧ k ≤ hi) ∧
      ∃ started, started <+: between lo hi ∧
        (∀ started' r, Rounds limit v.slot body (between lo hi) last τ started' r ↔
          started' = started ∧ r = exec limit (.for v lower upper body) last σ) ∧
        (∀ last' υ, exec limit (.for v lower upper body) last σ = .ok last' υ →
          started = between lo hi ∧
            (lo ≤ hi → (started.length : Int) = hi.toInt - lo.toInt + 1)) ∧
        (hi < lo → started = []) := by
  refine ⟨exec_for limit v lower upper body last, ?_⟩
  intro lo hi σ σ' τ hlo hhi
  obtain ⟨started, hrounds⟩ : ∃ started, Rounds limit v.slot body (between lo hi) last τ started
      (exec limit (.for v lower upper body) last σ) := by
    have hexec : exec limit (.for v lower upper body) last σ =
        (between lo hi).foldlM (round limit v.slot body) last τ := by
      rw [exec_for, bind_of_ok hlo, bind_of_ok hhi]
    rw [hexec]
    exact exists_rounds (between lo hi) last τ
  refine ⟨between_increasing lo hi, fun k => mem_between, started, hrounds.started_isPrefix,
    ?_, ?_, ?_⟩
  · intro started' r
    constructor
    · intro h
      obtain ⟨rfl, rfl⟩ := h.unique hrounds
      exact ⟨rfl, rfl⟩
    · rintro ⟨rfl, rfl⟩
      exact hrounds
  · intro last' υ hok
    rw [hok] at hrounds
    have hall : started = between lo hi := hrounds.started_eq
    refine ⟨hall, fun hle => ?_⟩
    rw [hall]
    exact length_between hle
  · intro hlt
    have hempty : between lo hi = [] := by
      rw [List.eq_nil_iff_forall_not_mem]
      intro k hk
      obtain ⟨hlk, hku⟩ := mem_between.mp hk
      exact absurd (Int32.le_trans hlk hku) (Int32.not_le.mpr hlt)
    have hprefix := hrounds.started_isPrefix
    rw [hempty] at hprefix
    exact List.prefix_nil.mp hprefix

/-- The largest number has its round, though the body sets the variable back each time. -/
theorem rounds_to_largest_number :
    let i : Variable := ⟨"i", false, .int⟩
    let body : Stmt := .expr (.assign i (.literal (.int 7)))
    let loop : Stmt := .for i (.literal (.int 2147483646)) (.literal (.int 2147483647)) body
    exec 0 loop none {} = .ok (some (.int 7)) ⟨[(⟨"i", .int⟩, .int 7)]⟩ ∧
      Rounds 0 i.slot body [2147483646, 2147483647] none {} [2147483646, 2147483647]
        (exec 0 loop none {}) := by
  intro i body loop
  have hexec : exec 0 loop none {} = .ok (some (.int 7)) ⟨[(⟨"i", .int⟩, .int 7)]⟩ := by rfl
  have hnumbers : between 2147483646 2147483647 = [2147483646, 2147483647] := by decide
  obtain ⟨_, _, started, _, hrounds, hall, _⟩ :=
    (for_unrolled 0 i (.literal (.int 2147483646)) (.literal (.int 2147483647)) body none).2
      2147483646 2147483647 {} {} {} rfl rfl
  refine ⟨hexec, ?_⟩
  rw [← hnumbers]
  exact (hrounds _ _).mpr ⟨(hall _ _ hexec).1.symm, rfl⟩

end Scriptlet.Run
