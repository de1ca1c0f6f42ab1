import Mathlib.Data.List.Basic
import Scriptlet.Proofs.Scope.Events

/-!
# Scopes with an index

Here a scope has its variables in a row and an index from names to places in it. Whatever steps are
taken, a stack of such scopes gives the same answers as one without indexes, and each index gives
exactly the places of the names in its row.
-/

namespace Scriptlet

open Typed (Variable)
open ScopeStack

structure IndexedScope where
  index : Std.HashMap String Nat := {}
  row : Array Variable := #[]

namespace IndexedScope

def contents (s : IndexedScope) : Scope := ⟨s.row.toList⟩

def declare (s : IndexedScope) (v : Variable) : Bool × IndexedScope :=
  if s.index.contains v.name then (false, s)
  else (true, ⟨s.index.insert v.name s.row.size, s.row.push v⟩)

def find (s : IndexedScope) (name : String) : Except Stop (Option Variable) :=
  match s.index[name]? with
  | none => .ok none
  | some place =>
    match s.row[place]? with
    | some v => .ok (some v)
    | none => .error (.outOfRange place)

/-- The index gives the places of the names in the row, and nothing else. -/
def Sound (s : IndexedScope) : Prop :=
  ∀ name place, s.index[name]? = some place ↔
    ∃ v : Variable, s.row[place]? = some v ∧ v.name = name

theorem sound_empty : Sound {} := by
  intro name place
  simp

namespace Sound

variable {s : IndexedScope} (h : s.Sound)
include h

theorem lt_size {name : String} {place : Nat} (hname : s.index[name]? = some place) :
    place < s.row.size := by
  obtain ⟨v, hv, -⟩ := (h name place).mp hname
  exact (Array.getElem?_eq_some_iff.mp hv).1

theorem pairwise : s.row.toList.Pairwise (·.name ≠ ·.name) := by
  rw [List.pairwise_iff_getElem]
  intro i j hi hj hij hname
  -- The index has one place only for the name that both would have.
  have hplace : ∀ k (hk : k < s.row.toList.length), s.index[s.row.toList[k].name]? = some k := by
    intro k hk
    exact (h _ k).mpr ⟨s.row.toList[k], by simp, rfl⟩
  have hj' := hplace j hj
  rw [← hname, hplace i hi] at hj'
  exact absurd (Option.some.inj hj') (Nat.ne_of_lt hij)

theorem contains_iff {name : String} :
    s.index.contains name = true ↔ ∃ w ∈ s.row, w.name = name := by
  rw [Std.HashMap.contains_eq_isSome_getElem?, Option.isSome_iff_exists]
  constructor
  · rintro ⟨place, hplace⟩
    obtain ⟨w, hw, hname⟩ := (h name place).mp hplace
    exact ⟨w, Array.mem_of_getElem? hw, hname⟩
  · rintro ⟨w, hw, hname⟩
    obtain ⟨place, hplace⟩ := Array.mem_iff_getElem?.mp hw
    exact ⟨place, (h name place).mpr ⟨w, hplace, hname⟩⟩

theorem contains_eq (name : String) :
    s.index.contains name = (s.contents.find? name).isSome := by
  rw [Bool.eq_iff_iff, h.contains_iff]
  simp [contents, Scope.find?]

theorem find_eq (name : String) : s.find name = .ok (s.contents.find? name) := by
  unfold find
  cases hname : s.index[name]? with
  | none =>
    have hnew : ¬ (s.contents.find? name).isSome = true := by
      rw [← h.contains_eq, Std.HashMap.contains_eq_isSome_getElem?, hname]
      exact Bool.false_ne_true
    rw [Option.not_isSome_iff_eq_none.mp hnew]
  | some place =>
    obtain ⟨v, hv, hv'⟩ := (h name place).mp hname
    have hfound : s.contents.find? name = some v :=
      (Scope.find?_eq_some_iff_of_pairwise h.pairwise).mpr
        ⟨Array.mem_toList_iff.mpr (Array.mem_of_getElem? hv), hv'⟩
    simp only [hv, hfound]

theorem declare (v : Variable) : (s.declare v).2.Sound := by
  unfold IndexedScope.declare
  split
  · exact h
  · rename_i hnew
    have hnone : s.index[v.name]? = none := by
      rw [Std.HashMap.contains_eq_isSome_getElem?] at hnew
      exact Option.not_isSome_iff_eq_none.mp hnew
    intro name place
    simp only [Std.HashMap.getElem?_insert, Array.getElem?_push, beq_iff_eq]
    by_cases hname : v.name = name
    · subst hname
      by_cases hplace : place = s.row.size
      · simp [hplace]
      · have hold := h v.name place
        simp only [hnone, reduceCtorEq, false_iff] at hold
        simpa [hplace, Ne.symm hplace] using hold
    · by_cases hplace : place = s.row.size
      · have hold := h name place
        subst hplace
        simpa [hname] using hold
      · simpa [hname, hplace] using h name place

theorem declare_of_new {v : Variable} (hnew : ∀ w ∈ s.row, w.name ≠ v.name) :
    s.declare v = (true, ⟨s.index.insert v.name s.row.size, s.row.push v⟩) := by
  have habsent : ¬ s.index.contains v.name = true := by
    rw [h.contains_iff]
    rintro ⟨w, hw, hname⟩
    exact hnew w hw hname
  exact if_neg habsent

theorem declare_of_taken {v : Variable} (htaken : ∃ w ∈ s.row, w.name = v.name) :
    s.declare v = (false, s) :=
  if_pos (h.contains_iff.mpr htaken)

end Sound

end IndexedScope

abbrev IndexedStack := List IndexedScope

namespace IndexedStack

def contents (stack : IndexedStack) : ScopeStack := stack.map (·.contents)

def find : IndexedStack → String → Except Stop (Option Variable)
  | [], _ => .ok none
  | s :: outer, name =>
    match s.find name with
    | .ok none => find outer name
    | answer => answer

def act (stack : IndexedStack) : Step → Except Stop (Answer × IndexedStack)
  | .enter => .ok (.entered, {} :: stack)
  | .leave =>
    match stack with
    | [] => .ok (.left none, [])
    | s :: outer => .ok (.left (some s.contents), outer)
  | .declare v =>
    match stack with
    | [] => .error (.outside v)
    | s :: outer => .ok (.declared (s.declare v).1, (s.declare v).2 :: outer)
  | .find name => (stack.find name).map fun v => (.found v, stack)

def Sound (stack : IndexedStack) : Prop := ∀ s ∈ stack, s.Sound

theorem Sound.find_eq {stack : IndexedStack} (h : stack.Sound) (name : String) :
    stack.find name = .ok (stack.contents.find? name) := by
  induction stack with
  | nil => rfl
  | cons s outer ih =>
    obtain ⟨hs, houter⟩ := List.forall_mem_cons.mp h
    have hcons : (contents (s :: outer)).find? name =
        (s.contents.find? name).or (contents outer |>.find? name) :=
      ScopeStack.find?_cons s.contents (contents outer) name
    rw [find, hs.find_eq, hcons]
    cases s.contents.find? name with
    | none => exact ih houter
    | some v => rfl

theorem Sound.after {stack stack' : IndexedStack} {step : Step} {answer : Answer} (h : stack.Sound)
    (hact : stack.act step = .ok (answer, stack')) : stack'.Sound := by
  cases step with
  | enter =>
    cases hact
    exact List.forall_mem_cons.mpr ⟨IndexedScope.sound_empty, h⟩
  | leave =>
    cases stack with
    | nil => cases hact; exact h
    | cons s outer => cases hact; exact (List.forall_mem_cons.mp h).2
  | declare v =>
    cases stack with
    | nil => cases hact
    | cons s outer =>
      cases hact
      obtain ⟨hs, houter⟩ := List.forall_mem_cons.mp h
      exact List.forall_mem_cons.mpr ⟨hs.declare v, houter⟩
  | find name =>
    rw [act, h.find_eq] at hact
    cases hact
    exact h

/-- Without the indexes, a step does the same. -/
theorem Sound.act_contents {stack : IndexedStack} {step : Step} (h : stack.Sound) :
    ScopeStack.act stack.contents step = (stack.act step).map (Prod.map id contents) := by
  cases step with
  | enter => rfl
  | leave => cases stack <;> rfl
  | declare v =>
    cases stack with
    | nil => rfl
    | cons s outer =>
      have hindex := (List.forall_mem_cons.mp h).1.contains_eq v.name
      have hact : act (s :: outer) (.declare v) =
        .ok (.declared (s.declare v).1, (s.declare v).2 :: outer) := rfl
      rw [hact, contents, List.map_cons, act_declare, ← hindex]
      unfold IndexedScope.declare
      cases s.index.contains v.name with
      | true => rfl
      | false => simp [Except.map, contents, IndexedScope.contents]
  | find name =>
    rw [act, h.find_eq]
    rfl

/-- With its indexes and without them, the stack gives `answers` and becomes `stack'`. -/
def Gives (stack : IndexedStack) (steps : List Step) (answers : List Answer)
    (stack' : IndexedStack) : Prop :=
  actAll act stack steps = .ok (answers, stack') ∧
    actAll ScopeStack.act stack.contents steps = .ok (answers, stack'.contents)

theorem Sound.gives {stack stack' : IndexedStack} {steps : List Step} {answers : List Answer}
    (h : stack.Sound) (hact : actAll act stack steps = .ok (answers, stack')) :
    stack.Gives steps answers stack' := by
  refine ⟨hact, ?_⟩
  rw [actAll_map Sound.after Sound.act_contents h steps, hact]
  rfl

theorem Sound.act_find {stack : IndexedStack} (h : stack.Sound) (name : String) :
    stack.act (.find name) = .ok (.found (stack.contents.find? name), stack) := by
  rw [act, h.find_eq]
  rfl

theorem Sound.exists_actAll {steps : List Step} {stack : IndexedStack} (h : stack.Sound)
    (hsteps : declaresInside stack.length steps = true) :
    ∃ answers stack', actAll act stack steps = .ok (answers, stack') := by
  induction steps generalizing stack with
  | nil => exact ⟨[], stack, rfl⟩
  | cons step steps ih =>
    have hcons : ∀ {answer stack₁}, stack.act step = .ok (answer, stack₁) →
        declaresInside stack₁.length steps = true →
        ∃ answers stack', actAll act stack (step :: steps) = .ok (answers, stack') := by
      intro answer stack₁ hact hrest
      obtain ⟨rest, stack', hrest⟩ := ih (h.after hact) hrest
      exact ⟨_, _, actAll_cons_eq_ok_iff.mpr ⟨answer, stack₁, rest, hact, hrest, rfl⟩⟩
    cases step with
    | enter => exact hcons rfl hsteps
    | leave => cases stack <;> exact hcons rfl hsteps
    | declare v =>
      simp only [declaresInside, Bool.and_eq_true, decide_eq_true_eq] at hsteps
      cases stack with
      | nil => exact absurd hsteps.1 (Nat.lt_irrefl 0)
      | cons s outer => exact hcons rfl hsteps.2
    | find name => exact hcons (h.act_find name) hsteps

/-! ## Scopes that are entered and left again -/

/-- Steps after which only the last scope of `own` is left to leave; the stack below them all stays as
it was, with its indexes. -/
theorem Sound.exists_actAll_leave {inner : List Step} {own stack : IndexedStack} {depth : Nat}
    (h : Sound (own ++ stack)) (hown : own.length = depth + 1)
    (hinner : depthAfter depth inner = some 0) :
    ∃ answers, actAll act (own ++ stack) (inner ++ [.leave]) = .ok (answers, stack) := by
  induction inner generalizing own depth with
  | nil =>
    cases hinner
    obtain ⟨s, rfl⟩ := List.length_eq_one_iff.mp hown
    exact ⟨_, rfl⟩
  | cons step inner ih =>
    have hcons : ∀ {answer own₁ depth₁},
        act (own ++ stack) step = .ok (answer, own₁ ++ stack) →
        own₁.length = depth₁ + 1 → depthAfter depth₁ inner = some 0 →
        ∃ answers, actAll act (own ++ stack) (step :: inner ++ [.leave]) =
          .ok (answers, stack) := by
      intro answer own₁ depth₁ hact hown₁ hinner₁
      obtain ⟨rest, hrest⟩ := ih (h.after hact) hown₁ hinner₁
      exact ⟨_, actAll_cons_eq_ok_iff.mpr ⟨answer, own₁ ++ stack, rest, hact, hrest, rfl⟩⟩
    obtain ⟨s, own', rfl⟩ := List.exists_cons_of_length_eq_add_one hown
    cases step with
    | enter => exact @hcons _ ({} :: s :: own') (depth + 1) rfl (congrArg (· + 1) hown) hinner
    | leave =>
      cases depth with
      | zero => cases hinner
      | succ depth => exact @hcons _ own' depth rfl (Nat.succ.inj hown) hinner
    | declare v =>
      exact @hcons _ ((s.declare v).2 :: own') depth rfl hown (by simpa [depthAfter] using hinner)
    | find name =>
      exact hcons (h.act_find name) hown (by simpa [depthAfter] using hinner)

/-! ## All steps -/

/-- What the events say of the stack that they end with. -/
structure Accurate (events : List Event) (stack : IndexedStack) : Prop where
  places : ∀ s ∈ stack, ∀ (name : String) (place : Nat), s.index[name]? = some place ↔
    ∃ v : Variable, s.row[place]? = some v ∧ v.name = name
  inRange : ∀ s ∈ stack, ∀ (name : String) (place : Nat), s.index[name]? = some place →
    place < s.row.size
  distinct : ∀ s ∈ stack, s.row.toList.Pairwise (·.name ≠ ·.name)
  order : stack.contents = (openings events).map fun since => ⟨addedAt 0 since⟩
  adds : ∀ (s : IndexedScope) outer v, stack = s :: outer → (∀ w ∈ s.row, w.name ≠ v.name) →
    ∃ s', stack.Gives [.declare v] [.declared true] (s' :: outer) ∧ s'.row = s.row.push v
  refuses : ∀ (s : IndexedScope) outer v, stack = s :: outer → (∃ w ∈ s.row, w.name = v.name) →
    stack.Gives [.declare v] [.declared false] stack
  finds : ∀ name, stack.Gives [.find name] [.found (latest? events name)] stack
  restores : ∀ inner, Balanced inner → ∃ answers,
    stack.Gives (.enter :: inner ++ [.leave]) answers stack

theorem Sound.accurate {events : List Event} {stack : IndexedStack} (h : stack.Sound)
    (horder : stack.contents = (openings events).map fun since => ⟨addedAt 0 since⟩) :
    Accurate events stack where
  places := h
  inRange s hs _ _ := (h s hs).lt_size
  distinct s hs := (h s hs).pairwise
  order := horder
  adds s outer v hstack hnew := by
    subst hstack
    refine ⟨⟨s.index.insert v.name s.row.size, s.row.push v⟩, h.gives ?_, rfl⟩
    rw [actAll, act, (h s List.mem_cons_self).declare_of_new hnew]
    rfl
  refuses s outer v hstack htaken := by
    subst hstack
    apply h.gives
    rw [actAll, act, (h s List.mem_cons_self).declare_of_taken htaken]
    rfl
  finds name := by
    apply h.gives
    have hdistinct : ∀ scope ∈ stack.contents, scope.declared.Pairwise (·.name ≠ ·.name) :=
      List.forall_mem_map.mpr fun s hs => (h s hs).pairwise
    rw [actAll, h.act_find, find?_eq_latest? horder hdistinct]
    rfl
  restores inner hinner := by
    have hentered : Sound ({} :: stack) := List.forall_mem_cons.mpr ⟨IndexedScope.sound_empty, h⟩
    obtain ⟨rest, hrest⟩ := @Sound.exists_actAll_leave inner [{}] stack 0 hentered rfl hinner
    exact ⟨.entered :: rest, h.gives (actAll_cons_eq_ok_iff.mpr ⟨_, _, rest, rfl, hrest, rfl⟩)⟩

/-- From an empty stack on, take any steps that declare variables only while a scope is open. No
step fails, and the answers are those given without indexes. In every open scope the index gives
exactly the places of the names, which are all different, and the variables stand in the order in
which they were added. A variable is added if the innermost scope does not have its name, and else
nothing changes. A name stands for the variable added last under it in the innermost open scope that
has one. To enter a scope, take balanced steps and leave it again changes nothing at all. -/
theorem steps_keep_indexes (steps : List Step) (h : declaresInside 0 steps = true) :
    ∃ answers stack, Gives [] steps answers stack ∧ Accurate (steps.zip answers) stack := by
  have hempty : Sound [] := List.forall_mem_nil _
  obtain ⟨answers, stack, hact⟩ := hempty.exists_actAll h
  have hgives : Gives [] steps answers stack := hempty.gives hact
  have horder : stack.contents = _ ++ remainsAll (steps.zip answers) 0 [] :=
    stack_eq_openings hgives.2
  have hsound : stack.Sound := actAll_keeps Sound.after hempty hact
  exact ⟨answers, stack, hgives, hsound.accurate (horder.trans (List.append_nil _))⟩

/-- A name taken in one scope and declared once more, with another type, in a scope further in. -/
theorem shadowed_and_taken_names_indexed :
    let x : Variable := ⟨"x", false, .int⟩
    let x' : Variable := ⟨"x", true, .bool⟩
    let steps : List Step := [.leave, .enter, .declare x, .declare x', .enter, .declare x',
      .find "x", .find "y"]
    let inner : List Step := [.declare x, .enter, .find "x", .leave, .find "x"]
    declaresInside 0 steps = true ∧ Balanced inner ∧ ∃ stack,
      Gives [] steps [.left none, .entered, .declared true, .declared false, .entered,
        .declared true, .found (some x'), .found none] stack ∧
      stack.contents = [⟨[x']⟩, ⟨[x]⟩] ∧ stack.Gives [.find "x"] [.found (some x')] stack ∧
      stack.Gives [.declare x] [.declared false] stack ∧
      ∃ answers, stack.Gives (.enter :: inner ++ [.leave]) answers stack := by
  intro x x' steps inner
  have hinside : declaresInside 0 steps = true := rfl
  have hinner : Balanced inner := rfl
  obtain ⟨answers, stack, hgives, haccurate⟩ := steps_keep_indexes steps hinside
  have hsteps : actAll ScopeStack.act [] steps = .ok ([.left none, .entered, .declared true,
      .declared false, .entered, .declared true, .found (some x'), .found none],
      [⟨[x']⟩, ⟨[x]⟩]) := rfl
  obtain ⟨rfl, hcontents⟩ := Prod.mk.inj (Except.ok.inj (hsteps.symm.trans hgives.2))
  refine ⟨hinside, hinner, stack, hgives, hcontents.symm, haccurate.finds "x", ?_,
    haccurate.restores inner hinner⟩
  cases stack with
  | nil => cases hcontents
  | cons s outer =>
    have hrow : s.row.toList = [x'] := congrArg Scope.declared (List.cons.inj hcontents).1.symm
    have hmem : x' ∈ s.row := by simp [← Array.mem_toList_iff, hrow]
    exact haccurate.refuses s outer x rfl ⟨x', hmem, rfl⟩

end IndexedStack

end Scriptlet
