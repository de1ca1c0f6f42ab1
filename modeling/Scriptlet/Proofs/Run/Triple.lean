import Scriptlet.Run.Exec

/-!
# Conditions before and after a run

A run either ends with a value or is stopped with a reason, and leaves a state in both cases.
`Triple` speaks of one run and `Coupled` of two runs that go hand in hand. The rules follow the way
runs are put together; those for loops ask for an invariant.
-/

namespace Scriptlet.Run

/-! ## One run -/

section
variable {ε σ α β : Type} {P : σ → Prop} {Q : α → σ → Prop} {E : ε → σ → Prop}

/-- Started where `P` holds, `m` ends where `Q` holds of its value, or is stopped where `E` holds of
the reason. -/
def Triple (P : σ → Prop) (m : EStateM ε σ α) (Q : α → σ → Prop) (E : ε → σ → Prop) : Prop :=
  ∀ s, P s → match m s with
    | .ok a s => Q a s
    | .error e s => E e s

def stateAfter : EStateM.Result ε σ α → σ
  | .ok _ s | .error _ s => s

def haltOf? : EStateM.Result ε σ α → Option ε
  | .ok _ _ => none
  | .error e _ => some e

theorem bind_of_ok {m : EStateM ε σ α} {f : α → EStateM ε σ β} {a : α} {s s' : σ}
    (h : m s = .ok a s') : (m >>= f) s = f a s' := by
  show EStateM.bind m f s = f a s'
  unfold EStateM.bind
  rw [h]

namespace Triple

theorem bind {m : EStateM ε σ α} {f : α → EStateM ε σ β} {R : β → σ → Prop}
    (hm : Triple P m Q E) (hf : ∀ a, Triple (Q a) (f a) R E) : Triple P (m >>= f) R E := by
  intro s hs
  have hms := hm s hs
  show match EStateM.bind m f s with
    | .ok b s => R b s
    | .error e s => E e s
  unfold EStateM.bind
  cases h : m s with
  | ok a s' =>
    rw [h] at hms
    exact hf a s' hms
  | error e s' =>
    rw [h] at hms
    exact hms

theorem conseq {m : EStateM ε σ α} {P' : σ → Prop} {Q' : α → σ → Prop} {E' : ε → σ → Prop}
    (h : Triple P' m Q' E') (hP : ∀ s, P s → P' s) (hQ : ∀ a s, Q' a s → Q a s)
    (hE : ∀ e s, E' e s → E e s) : Triple P m Q E := by
  intro s hs
  have hm := h s (hP s hs)
  cases hr : m s with
  | ok a s' => rw [hr] at hm; exact hQ a s' hm
  | error e s' => rw [hr] at hm; exact hE e s' hm

/-- A side condition on the values of a program need not be read off the state. -/
theorem of_imp {m : EStateM ε σ α} {p : Prop} (h : p → Triple P m Q E) :
    Triple (fun s => p ∧ P s) m Q E := fun s hs => h hs.1 s hs.2

theorem stateAfter {m : EStateM ε σ α} {I : σ → Prop} (h : Triple P m (fun _ => I) (fun _ => I))
    (s : σ) (hs : P s) : I (stateAfter (m s)) := by
  have hm := h s hs
  cases hr : m s with
  | ok a t => rw [hr] at hm; exact hm
  | error e t => rw [hr] at hm; exact hm

end Triple

end

section
variable {α : Type} {P : Store → Prop} {Q : α → Store → Prop} {E : Halt → Store → Prop}

theorem eval_read (v : Typed.Variable) (s : Store) : eval (.read v) s =
    match s.get? v.slot with
    | some value => .ok value s
    | none => .error (.stuck (.unassigned v)) s := by
  unfold eval
  show (match s.get? v.slot with
    | some value => pure value
    | none => throw (.stuck (.unassigned v)) : Exec Value) s = _
  cases s.get? v.slot <;> rfl

variable {I : Store → Prop}

/-- An invariant of the condition and the body is one of the loop. -/
theorem Triple.whileLoop {cond : Exec Bool} {body : Option Value → Exec (Option Value)}
    (hcond : Triple I cond (fun _ => I) E) (hbody : ∀ last, Triple I (body last) (fun _ => I) E)
    (hcut : ∀ s, I s → E .cutOff s) :
    ∀ n last, Triple I (whileLoop cond body n last) (fun _ => I) E
  | 0, _ => fun s hs => hcut s hs
  | n + 1, last => by
    unfold Run.whileLoop
    refine Triple.bind hcond fun b => ?_
    cases b with
    | true => exact Triple.bind (hbody last) fun last => Triple.whileLoop hcond hbody hcut n last
    | false => exact fun _ hs => hs

theorem Triple.forLoop {slot : Typed.Slot} {body : Option Value → Exec (Option Value)}
    (hround : ∀ (k : Int) last,
      Triple (fun s => ∃ s₀, I s₀ ∧ s = s₀.set slot (.int (.ofInt k))) (body last) (fun _ => I) E) :
    ∀ n k last, Triple I (forLoop slot body n k last) (fun _ => I) E
  | 0, _, _ => fun _ hs => hs
  | n + 1, k, last => by
    unfold Run.forLoop
    refine Triple.bind (Q := fun _ s => ∃ s₀, I s₀ ∧ s = s₀.set slot (.int (.ofInt k))) ?_ fun _ => ?_
    · exact fun s hs => ⟨s, hs, rfl⟩
    · exact Triple.bind (hround k last) fun last => Triple.forLoop hround n (k + 1) last

end

/-! ## Two runs -/

section
variable {ε ε' σ σ' α α' β β' : Type}
variable {P : σ → σ' → Prop} {Q : α → α' → σ → σ' → Prop} {E : ε → ε' → σ → σ' → Prop}

/-- Started where `P` holds, the two runs both end where `Q` holds of their values, or are both
stopped where `E` holds of the reasons. -/
def Coupled (P : σ → σ' → Prop) (m : EStateM ε σ α) (m' : EStateM ε' σ' α')
    (Q : α → α' → σ → σ' → Prop) (E : ε → ε' → σ → σ' → Prop) : Prop :=
  ∀ s s', P s s' → match m s, m' s' with
    | .ok a s, .ok a' s' => Q a a' s s'
    | .error e s, .error e' s' => E e e' s s'
    | _, _ => False

namespace Coupled

theorem bind {m : EStateM ε σ α} {m' : EStateM ε' σ' α'} {f : α → EStateM ε σ β}
    {f' : α' → EStateM ε' σ' β'} {R : β → β' → σ → σ' → Prop} (hm : Coupled P m m' Q E)
    (hf : ∀ a a', Coupled (Q a a') (f a) (f' a') R E) : Coupled P (m >>= f) (m' >>= f') R E := by
  intro s s' hs
  have hms := hm s s' hs
  show match EStateM.bind m f s, EStateM.bind m' f' s' with
    | .ok b s, .ok b' s' => R b b' s s'
    | .error e s, .error e' s' => E e e' s s'
    | _, _ => False
  unfold EStateM.bind
  cases h : m s with
  | ok a t =>
    cases h' : m' s' with
    | ok a' t' => rw [h, h'] at hms; exact hf a a' t t' hms
    | error e' t' => rw [h, h'] at hms; exact hms.elim
  | error e t =>
    cases h' : m' s' with
    | ok a' t' => rw [h, h'] at hms; exact hms.elim
    | error e' t' => rw [h, h'] at hms; exact hms

theorem conseq {m : EStateM ε σ α} {m' : EStateM ε' σ' α'} {P' : σ → σ' → Prop}
    {Q' : α → α' → σ → σ' → Prop} {E' : ε → ε' → σ → σ' → Prop} (h : Coupled P' m m' Q' E')
    (hP : ∀ s s', P s s' → P' s s') (hQ : ∀ a a' s s', Q' a a' s s' → Q a a' s s')
    (hE : ∀ e e' s s', E' e e' s s' → E e e' s s') : Coupled P m m' Q E := by
  intro s s' hs
  have hm := h s s' (hP s s' hs)
  cases hr : m s with
  | ok a t =>
    cases hr' : m' s' with
    | ok a' t' => rw [hr, hr'] at hm; exact hQ a a' t t' hm
    | error e' t' => rw [hr, hr'] at hm; exact hm.elim
  | error e t =>
    cases hr' : m' s' with
    | ok a' t' => rw [hr, hr'] at hm; exact hm.elim
    | error e' t' => rw [hr, hr'] at hm; exact hE e e' t t' hm

theorem of_imp {m : EStateM ε σ α} {m' : EStateM ε' σ' α'} {p : Prop}
    (h : p → Coupled P m m' Q E) : Coupled (fun s s' => p ∧ P s s') m m' Q E :=
  fun s s' hs => h hs.1 s s' hs.2

end Coupled

end

end Scriptlet.Run
