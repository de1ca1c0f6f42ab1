import Scriptlet.Proofs.Scope

/-!
# Scopes in use

Scopes are entered and left, variables declared and names looked up, in any order. Which scopes are
open after that, and what they hold, can be told from the events alone: a scope is open if nothing
since its entry has left it, and it holds what was added while no scope further in was open.
-/

namespace Scriptlet.ScopeStack

open Typed (Variable)

/-! ## Steps -/

inductive Step
  | enter
  | leave
  | declare (v : Variable)
  | find (name : String)

inductive Answer
  | entered
  | left (scope : Option Scope)
  | declared (added : Bool)
  | found (v : Option Variable)
  deriving DecidableEq

/-- Why a step gives nothing back: no scope is open, or an index points past the variables. -/
inductive Stop
  | outside (v : Variable)
  | outOfRange (place : Nat)

def act (stack : ScopeStack) : Step → Except Stop (Answer × ScopeStack)
  | .enter => .ok (.entered, stack.enter)
  | .leave =>
    match stack.exit? with
    | some (scope, outer) => .ok (.left (some scope), outer)
    | none => .ok (.left none, stack)
  | .declare v =>
    match stack.declare v with
    | .added stack => .ok (.declared true, stack)
    | .duplicate => .ok (.declared false, stack)
    | .outside => .error (.outside v)
  | .find name => .ok (.found (stack.find? name), stack)

def actAll {σ : Type} (act : σ → Step → Except Stop (Answer × σ)) :
    σ → List Step → Except Stop (List Answer × σ)
  | s, [] => .ok ([], s)
  | s, step :: steps =>
    match act s step with
    | .ok (answer, s) => (actAll act s steps).map fun r => (answer :: r.1, r.2)
    | .error stop => .error stop

theorem act_declare (scope : Scope) (outer : ScopeStack) (v : Variable) :
    act (scope :: outer) (.declare v) =
      if (scope.find? v.name).isSome then .ok (.declared false, scope :: outer)
      else .ok (.declared true, ⟨scope.declared ++ [v]⟩ :: outer) := by
  simp only [act, declare, Scope.declare?]
  cases scope.find? v.name <;> rfl

section
variable {σ : Type} {act : σ → Step → Except Stop (Answer × σ)}

theorem actAll_cons_eq_ok_iff {step : Step} {steps : List Step} {s s' : σ}
    {answers : List Answer} : actAll act s (step :: steps) = .ok (answers, s') ↔
      ∃ answer s₁ rest, act s step = .ok (answer, s₁) ∧ actAll act s₁ steps = .ok (rest, s') ∧
        answers = answer :: rest := by
  constructor
  · intro h
    rw [actAll] at h
    split at h
    · rename_i answer s₁ hstep
      cases hrest : actAll act s₁ steps with
      | error stop => rw [hrest] at h; cases h
      | ok r =>
        rw [hrest] at h
        cases h
        exact ⟨answer, s₁, r.1, hstep, hrest, rfl⟩
    · cases h
  · rintro ⟨answer, s₁, rest, hstep, hrest, rfl⟩
    rw [actAll, hstep]
    simp only [hrest]
    rfl

/-- What every step keeps, all of them keep. -/
theorem actAll_keeps {I : σ → Prop}
    (hact : ∀ {s step answer s'}, I s → act s step = .ok (answer, s') → I s') {steps : List Step}
    {s s' : σ} {answers : List Answer} (hs : I s) (h : actAll act s steps = .ok (answers, s')) :
    I s' := by
  induction steps generalizing s answers with
  | nil =>
    cases h
    exact hs
  | cons step steps ih =>
    obtain ⟨answer, s₁, rest, hstep, hrest, -⟩ := actAll_cons_eq_ok_iff.mp h
    exact ih (hact hs hstep) hrest

/-- If single steps commute with `f`, so do all of them. -/
theorem actAll_map {τ : Type} {act' : τ → Step → Except Stop (Answer × τ)} {f : σ → τ}
    {I : σ → Prop} (hkeeps : ∀ {s step answer s'}, I s → act s step = .ok (answer, s') → I s')
    (hact : ∀ {s step}, I s → act' (f s) step = (act s step).map (Prod.map id f)) {s : σ}
    (hs : I s) (steps : List Step) :
    actAll act' (f s) steps = (actAll act s steps).map (Prod.map id f) := by
  induction steps generalizing s with
  | nil => rfl
  | cons step steps ih =>
    simp only [actAll, hact hs]
    cases hstep : act s step with
    | error stop => rfl
    | ok r =>
      obtain ⟨answer, s₁⟩ := r
      simp only [Except.map, Prod.map, id]
      rw [ih (hkeeps hs hstep)]
      cases actAll act s₁ steps <;> rfl

end

/-! ## Depths -/

/-- Of a scope with `depth` scopes open inside it: how many there are after the steps, and `none`
if the scope has been left. -/
def depthAfter : Nat → List Step → Option Nat
  | depth, [] => some depth
  | depth, .enter :: steps => depthAfter (depth + 1) steps
  | 0, .leave :: _ => none
  | depth + 1, .leave :: steps => depthAfter depth steps
  | depth, .declare _ :: steps => depthAfter depth steps
  | depth, .find _ :: steps => depthAfter depth steps

def Balanced (steps : List Step) : Prop := depthAfter 0 steps = some 0

/-- Variables are declared only while a scope is open; at the start, `depth` are. -/
def declaresInside : Nat → List Step → Bool
  | _, [] => true
  | depth, .enter :: steps => declaresInside (depth + 1) steps
  | depth, .leave :: steps => declaresInside (depth - 1) steps
  | depth, .declare _ :: steps => decide (0 < depth) && declaresInside depth steps
  | depth, .find _ :: steps => declaresInside depth steps

/-! ## Events -/

abbrev Event := Step × Answer

def staysOpen (depth : Nat) (events : List Event) : Bool :=
  (depthAfter depth (events.map (·.1))).isSome

/-- The variables that are added in the course of the events, in order, to a scope with `depth`
scopes open inside it. -/
def addedAt : Nat → List Event → List Variable
  | _, [] => []
  | depth, (.enter, _) :: events => addedAt (depth + 1) events
  | 0, (.leave, _) :: _ => []
  | depth + 1, (.leave, _) :: events => addedAt depth events
  | 0, (.declare v, answer) :: events =>
    (if answer = .declared true then [v] else []) ++ addedAt 0 events
  | depth + 1, (.declare _, _) :: events => addedAt (depth + 1) events
  | depth, (.find _, _) :: events => addedAt depth events

/-- For each scope that is open after the events, innermost first, the events since its entry. -/
def openings : List Event → List (List Event)
  | [] => []
  | (.enter, _) :: events => openings events ++ if staysOpen 0 events then [events] else []
  | (.leave, _) :: events => openings events
  | (.declare _, _) :: events => openings events
  | (.find _, _) :: events => openings events

/-- What a name stands for after the events: of the scopes open, the innermost to which it was
added tells, and in that scope the variable added last. -/
def latest? (events : List Event) (name : String) : Option Variable :=
  (openings events).findSome? fun since => (addedAt 0 since).reverse.find? fun v => v.name = name

/-! ## The stack from the events -/

def remains (events : List Event) (depth : Nat) (scope : Scope) : Option Scope :=
  if staysOpen depth events then some ⟨scope.declared ++ addedAt depth events⟩ else none

def remainsAll (events : List Event) : Nat → ScopeStack → ScopeStack
  | _, [] => []
  | depth, scope :: outer =>
    (remains events depth scope).toList ++ remainsAll events (depth + 1) outer

theorem remainsAll_congr {events events' : List Event} {depth depth' : Nat}
    (h : ∀ k scope, remains events (depth + k) scope = remains events' (depth' + k) scope)
    (stack : ScopeStack) : remainsAll events depth stack = remainsAll events' depth' stack := by
  induction stack generalizing depth depth' with
  | nil => rfl
  | cons scope outer ih =>
    have houter : ∀ k scope,
        remains events (depth + 1 + k) scope = remains events' (depth' + 1 + k) scope := by
      intro k scope
      have hk := h (k + 1) scope
      rwa [Nat.add_assoc, Nat.add_assoc, Nat.add_comm 1 k]
    unfold remainsAll
    rw [ih houter, show remains events depth scope = remains events' depth' scope from h 0 scope]

theorem remainsAll_nil (stack : ScopeStack) (depth : Nat) : remainsAll [] depth stack = stack := by
  induction stack generalizing depth with
  | nil => rfl
  | cons scope outer ih => simp [remainsAll, remains, staysOpen, depthAfter, addedAt, ih]

section
variable (answer : Answer) (events : List Event)

theorem remainsAll_enter (depth : Nat) (stack : ScopeStack) :
    remainsAll ((.enter, answer) :: events) depth stack = remainsAll events (depth + 1) stack := by
  apply remainsAll_congr
  intro k scope
  rw [Nat.add_right_comm]
  rfl

theorem remainsAll_leave (scope : Scope) (outer : ScopeStack) :
    remainsAll ((.leave, answer) :: events) 0 (scope :: outer) = remainsAll events 0 outer := by
  have houter : remainsAll ((.leave, answer) :: events) 1 outer = remainsAll events 0 outer := by
    apply remainsAll_congr
    intro k scope
    rw [Nat.add_comm 1, Nat.zero_add]
    rfl
  exact houter

theorem remainsAll_find (name : String) (depth : Nat) (stack : ScopeStack) :
    remainsAll ((.find name, answer) :: events) depth stack = remainsAll events depth stack := by
  apply remainsAll_congr
  intro k scope
  cases depth + k <;> rfl

theorem remainsAll_declare (v : Variable) (scope : Scope) (outer : ScopeStack) :
    remainsAll ((.declare v, answer) :: events) 0 (scope :: outer) = remainsAll events 0
      (⟨scope.declared ++ if answer = .declared true then [v] else []⟩ :: outer) := by
  have houter : remainsAll ((.declare v, answer) :: events) 1 outer = remainsAll events 1 outer := by
    apply remainsAll_congr
    intro k scope
    rw [Nat.add_comm]
    rfl
  have hscope : remains ((.declare v, answer) :: events) 0 scope =
      remains events 0 ⟨scope.declared ++ if answer = .declared true then [v] else []⟩ := by
    unfold remains
    rw [List.append_assoc]
    rfl
  unfold remainsAll
  rw [houter, hscope]

end

/-- The open scopes are those that the events have opened, and below them what is left of the stack
on which they started. -/
theorem stack_eq_openings {steps : List Step} {stack stack' : ScopeStack} {answers : List Answer}
    (h : actAll act stack steps = .ok (answers, stack')) :
    stack' = (openings (steps.zip answers)).map (fun since => ⟨addedAt 0 since⟩) ++
      remainsAll (steps.zip answers) 0 stack := by
  induction steps generalizing stack answers with
  | nil =>
    cases h
    exact (remainsAll_nil _ 0).symm
  | cons step steps ih =>
    obtain ⟨answer, stack₁, rest, hstep, hrest, rfl⟩ := actAll_cons_eq_ok_iff.mp h
    rw [ih hrest, List.zip_cons_cons]
    generalize steps.zip rest = events
    cases step with
    | enter =>
      cases hstep
      -- The scope just entered is an opening of its own, if it is there at the end.
      have hentered : (remains events 0 {}).toList = List.map (fun since => ⟨addedAt 0 since⟩)
          (if staysOpen 0 events then [events] else []) := by
        cases hopen : staysOpen 0 events <;> simp [remains, hopen]
      rw [remainsAll_enter, openings, List.map_append, List.append_assoc, ← hentered]
      rfl
    | leave =>
      cases stack with
      | nil => cases hstep; rfl
      | cons scope outer =>
        cases hstep
        rw [remainsAll_leave]
        rfl
    | declare v =>
      cases stack with
      | nil => cases hstep
      | cons scope outer =>
        rw [remainsAll_declare]
        rw [act_declare] at hstep
        split at hstep
        · cases hstep
          simp [openings]
        · cases hstep
          simp [openings]
    | find name =>
      cases hstep
      rw [remainsAll_find]
      rfl

theorem find?_eq_latest? {events : List Event} {stack : ScopeStack}
    (hstack : stack = (openings events).map fun since => ⟨addedAt 0 since⟩)
    (hdistinct : ∀ scope ∈ stack, scope.declared.Pairwise (·.name ≠ ·.name)) (name : String) :
    stack.find? name = latest? events name := by
  subst hstack
  unfold latest?
  generalize openings events = opened at hdistinct
  induction opened with
  | nil => rfl
  | cons since older ih =>
    obtain ⟨hsince, holder⟩ := List.forall_mem_cons.mp hdistinct
    rw [List.map_cons, find?_cons, ih holder, List.findSome?_cons,
      Scope.find?_eq_find?_reverse hsince]
    cases (addedAt 0 since).reverse.find? fun v => v.name = name <;> rfl

end Scriptlet.ScopeStack
