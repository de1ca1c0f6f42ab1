import Scriptlet.Chain

/-!
# The limit on rounds

A limit only cuts a run short. A run that is not cut off is the same under every larger limit, so
every evaluation either ends, in one way for all large limits, or goes on under each of them.
-/

namespace Scriptlet.Run

section
variable {α β : Type}

/-- `m'` goes on where `m` is cut off, and else does the same. -/
def Extends (m m' : Exec α) : Prop := ∀ s, m' s = m s ∨ ∃ t, m s = .error .cutOff t

theorem Extends.refl (m : Exec α) : Extends m m := fun _ => .inl rfl

theorem Extends.bind {m m' : Exec α} {f f' : α → Exec β} (hm : Extends m m')
    (hf : ∀ a, Extends (f a) (f' a)) : Extends (m >>= f) (m' >>= f') := by
  intro s
  show EStateM.bind m' f' s = EStateM.bind m f s ∨ ∃ t, EStateM.bind m f s = .error .cutOff t
  unfold EStateM.bind
  rcases hm s with h | ⟨t, h⟩
  · rw [h]
    cases m s with
    | ok a t => exact hf a t
    | error e t => exact .inl rfl
  · rw [h]
    exact .inr ⟨t, rfl⟩

end

theorem whileLoop_extends {cond : Exec Bool} {body body' : Option Value → Exec (Option Value)}
    (hbody : ∀ last, Extends (body last) (body' last)) :
    ∀ {n n' : Nat} (last : Option Value), n ≤ n' →
      Extends (whileLoop cond body n last) (whileLoop cond body' n' last)
  | 0, _, _, _ => fun s => .inr ⟨s, rfl⟩
  | n + 1, 0, _, h => absurd h (Nat.not_succ_le_zero n)
  | n + 1, n' + 1, last, h => by
    unfold whileLoop
    refine (Extends.refl cond).bind fun b => ?_
    cases b with
    | true =>
      exact (hbody last).bind fun last => whileLoop_extends hbody last (Nat.le_of_succ_le_succ h)
    | false => exact Extends.refl _

theorem forLoop_extends {slot : Typed.Slot} {body body' : Option Value → Exec (Option Value)}
    (hbody : ∀ last, Extends (body last) (body' last)) :
    ∀ (n : Nat) (k : Int) (last : Option Value),
      Extends (forLoop slot body n k last) (forLoop slot body' n k last)
  | 0, _, last => Extends.refl _
  | n + 1, k, last => by
    unfold forLoop
    refine (Extends.refl _).bind fun _ => ?_
    exact (hbody last).bind fun last => forLoop_extends hbody n (k + 1) last

mutual

theorem exec_extends {n n' : Nat} (h : n ≤ n') :
    ∀ (s : Typed.Stmt) (last : Option Value), Extends (exec n s last) (exec n' s last)
  | .block body, last => execBody_extends h body last
  | .expr e, _ => Extends.refl _
  | .decl v init, _ => Extends.refl _
  | .ifThen cond yes, last => by
    unfold exec
    refine (Extends.refl _).bind fun b => ?_
    cases b with
    | true => exact exec_extends h yes last
    | false => exact Extends.refl _
  | .ifElse cond yes no, last => by
    unfold exec
    refine (Extends.refl _).bind fun b => ?_
    cases b with
    | true => exact exec_extends h yes last
    | false => exact exec_extends h no last
  | .while cond body, last => by
    unfold exec
    exact whileLoop_extends (exec_extends h body) last h
  | .for v lower upper body, last => by
    unfold exec
    refine (Extends.refl _).bind fun lo => (Extends.refl _).bind fun hi => ?_
    exact forLoop_extends (exec_extends h body) _ _ last

theorem execBody_extends {n n' : Nat} (h : n ≤ n') :
    ∀ (ss : List Typed.Stmt) (last : Option Value),
      Extends (execBody n ss last) (execBody n' ss last)
  | [], last => Extends.refl _
  | s :: ss, last => by
    unfold execBody
    exact (exec_extends h s last).bind fun last => execBody_extends h ss last

end

end Scriptlet.Run

namespace Scriptlet.Link

open Run (Halt Store)

theorem evaluate_of_le (l : Link) (store : Store) {n n' : Nat} (h : n ≤ n') :
    l.evaluate n' store = l.evaluate n store ∨ ∃ t, l.evaluate n store = .error .cutOff t := by
  unfold evaluate
  split
  · unfold run Run.run
    rcases Run.exec_extends h l.layer.stmt none store with hr | ⟨t, hr⟩
    · rw [hr]; exact .inl rfl
    · rw [hr]; exact .inr ⟨t, rfl⟩
  · exact .inl rfl

/-- The evaluation ends in `r`: so it does under all limits from some one on. -/
def EndsIn (l : Link) (store : Store) (r : EStateM.Result Halt Store Evaluation) : Prop :=
  ∃ n, ∀ n', n ≤ n' → l.evaluate n' store = r

def GoesOn (l : Link) (store : Store) : Prop := ∀ n, ∃ t, l.evaluate n store = .error .cutOff t

theorem endsIn_of_evaluate {l : Link} {store : Store} {n : Nat}
    (h : ∀ t, l.evaluate n store ≠ .error .cutOff t) : l.EndsIn store (l.evaluate n store) :=
  ⟨n, fun _ hn => (l.evaluate_of_le store hn).resolve_right fun ⟨t, ht⟩ => h t ht⟩

theorem exists_endsIn_iff (l : Link) (store : Store)
    {r : Store → EStateM.Result Halt Store Evaluation}
    (hr : ∀ s t, r s ≠ .error .cutOff t) :
    (∃ s, l.EndsIn store (r s)) ↔ ∃ n, ∀ n', n ≤ n' → ∃ s, l.evaluate n' store = r s := by
  constructor
  · intro h
    obtain ⟨s, n, hn⟩ := h
    exact ⟨n, fun n' hle => ⟨s, hn n' hle⟩⟩
  · intro h
    obtain ⟨n, hn⟩ := h
    obtain ⟨s, hs⟩ := hn n (Nat.le_refl n)
    have hends : l.EndsIn store (l.evaluate n store) :=
      endsIn_of_evaluate fun t => hs ▸ hr s t
    exact ⟨s, hs ▸ hends⟩

theorem goesOn_or_endsIn (l : Link) (store : Store) :
    l.GoesOn store ∨ ∃ n, l.EndsIn store (l.evaluate n store) ∧
      ∀ t, l.evaluate n store ≠ .error .cutOff t := by
  by_cases h : l.GoesOn store
  · exact .inl h
  · obtain ⟨n, hn⟩ := Classical.not_forall.mp h
    have hcut : ∀ t, l.evaluate n store ≠ .error .cutOff t := fun t ht => hn ⟨t, ht⟩
    exact .inr ⟨n, endsIn_of_evaluate hcut, hcut⟩

end Scriptlet.Link
