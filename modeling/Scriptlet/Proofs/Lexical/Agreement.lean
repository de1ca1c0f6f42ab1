import Scriptlet.Proofs.Lexical.Interpreter
import Scriptlet.Proofs.Scope
import Scriptlet.Run.Store

/-!
# A store that stands for frames

The store has one entry for all variables of a name and a type, and keeps entries of variables that
are gone. It stands for a stack of frames if each variable that is declared in an open scope has the
value in its slot that its frame has for its name. Writes keep to this as long as no two open
variables share a slot.
-/

namespace Scriptlet

open Typed (Variable Slot)

namespace ScopeStack

def Avoids (stack : ScopeStack) (slot : Slot) : Prop :=
  ∀ s ∈ stack, ∀ w ∈ s.declared, w.slot ≠ slot

instance (stack : ScopeStack) (slot : Slot) : Decidable (stack.Avoids slot) :=
  inferInstanceAs (Decidable (∀ s ∈ stack, ∀ w ∈ s.declared, w.slot ≠ slot))

def Apart (stack : ScopeStack) : Prop :=
  stack.Pairwise fun s s' => ∀ v ∈ s.declared, ∀ w ∈ s'.declared, w.slot ≠ v.slot

theorem Apart.enter {stack : ScopeStack} (h : stack.Apart) : Apart ({} :: stack) := by
  refine List.pairwise_cons.mpr ⟨?_, h⟩
  intro s' _ v hv
  cases hv

theorem Apart.declare {scope : Scope} {outer : ScopeStack} (h : Apart (scope :: outer))
    {v : Variable} (hv : Avoids (scope :: outer) v.slot) :
    Apart (⟨scope.declared ++ [v]⟩ :: outer) := by
  obtain ⟨hscope, houter⟩ := List.pairwise_cons.mp h
  refine List.pairwise_cons.mpr ⟨?_, houter⟩
  intro s' hs' u hu w hw
  rcases List.mem_append.mp hu with hu | hu
  · exact hscope s' hs' u hu w hw
  · rw [List.mem_singleton.mp hu]
    exact hv s' (List.mem_cons_of_mem _ hs') w hw

end ScopeStack

namespace Lexical

open Run (Store)

/-! ## Frames -/

namespace Frame

theorem lookup_put_self {name : String} (value : Value) : ∀ {frame : Frame} {old : Value},
    frame.lookup name = some old → (put name value frame).lookup name = some value
  | [], _, h => by cases h
  | (n, w) :: frame, old, h => by
    by_cases hn : n = name
    · simp [put, hn]
    · have hne : (name == n) = false := by simp [Ne.symm hn]
      simp only [List.lookup_cons, hne] at h
      have ih := lookup_put_self value h
      simpa [put, hn, hne, List.lookup_cons] using ih

theorem lookup_put_of_ne {name name' : String} (h : name' ≠ name) (value : Value) :
    ∀ frame : Frame, (put name value frame).lookup name' = frame.lookup name'
  | [] => rfl
  | (n, w) :: frame => by
    have ih := lookup_put_of_ne h value frame
    have hne : (name' == name) = false := by simp [h]
    by_cases hn : n = name
    · subst hn
      simpa [put, hne, List.lookup_cons] using ih
    · simp only [put, List.map_cons, if_neg hn, List.lookup_cons]
      cases name' == n with
      | true => rfl
      | false => exact ih

end Frame

/-! ## One frame -/

structure FrameAgrees (σ : Store) (scope : Scope) (frame : Frame) : Prop where
  held : ∀ name v, scope.find? name = some v →
    ∃ value, frame.lookup name = some value ∧ σ.get? v.slot = some value ∧ value.type = v.type
  only : ∀ name, scope.find? name = none → frame.lookup name = none

namespace FrameAgrees

variable {σ : Store} {scope : Scope} {frame : Frame}

theorem empty (σ : Store) : FrameAgrees σ {} [] where
  held _ _ h := by cases h
  only _ _ := rfl

theorem set_avoided (h : FrameAgrees σ scope frame) {slot : Slot}
    (hslot : ∀ w ∈ scope.declared, w.slot ≠ slot) (value : Value) :
    FrameAgrees (σ.set slot value) scope frame where
  held name v hv := by
    obtain ⟨old, hlookup, hget, htype⟩ := h.held name v hv
    have hne : slot ≠ v.slot := Ne.symm (hslot v (List.mem_of_find?_eq_some hv))
    refine ⟨old, hlookup, ?_, htype⟩
    rw [Store.get?_set_of_ne hne]
    exact hget
  only := h.only

theorem put (h : FrameAgrees σ scope frame) {name : String} {v : Variable}
    (hv : scope.find? name = some v) {value : Value} (htype : value.type = v.type) :
    FrameAgrees (σ.set v.slot value) scope (frame.put name value) where
  held name' w hw := by
    by_cases hname : name' = name
    · subst hname
      have hvw : v = w := Option.some.inj (hv.symm.trans hw)
      subst hvw
      obtain ⟨old, hold, _⟩ := h.held name' v hv
      exact ⟨value, Frame.lookup_put_self value hold, Store.get?_set_self σ v.slot value, htype⟩
    · have hne : v.slot ≠ w.slot := by
        intro heq
        have hnames : v.name = w.name := congrArg Slot.name heq
        rw [Scope.name_of_find? hv, Scope.name_of_find? hw] at hnames
        exact hname hnames.symm
      obtain ⟨old, hlookup, hget, hold⟩ := h.held name' w hw
      refine ⟨old, ?_, ?_, hold⟩
      · rw [Frame.lookup_put_of_ne hname]
        exact hlookup
      · rw [Store.get?_set_of_ne hne]
        exact hget
  only name' hnone := by
    have hname : name' ≠ name := by
      rintro rfl
      rw [hv] at hnone
      cases hnone
    rw [Frame.lookup_put_of_ne hname]
    exact h.only name' hnone

theorem declare (h : FrameAgrees σ scope frame) {v : Variable} (hnew : scope.find? v.name = none)
    (hv : ∀ w ∈ scope.declared, w.slot ≠ v.slot) {value : Value} (htype : value.type = v.type) :
    FrameAgrees (σ.set v.slot value) ⟨scope.declared ++ [v]⟩ ((v.name, value) :: frame) := by
  have hset := h.set_avoided hv value
  have hfind : ∀ name, Scope.find? ⟨scope.declared ++ [v]⟩ name =
      if v.name = name then some v else scope.find? name := by
    intro name
    rw [Scope.find?_append, Scope.find?_singleton]
    by_cases hname : v.name = name
    · subst hname
      have hnone : Scope.find? ⟨scope.declared⟩ v.name = none := hnew
      simp [hnone]
    · simp [hname]
  constructor
  · intro name w hw
    rw [hfind] at hw
    by_cases hname : v.name = name
    · rw [if_pos hname] at hw
      cases hw
      refine ⟨value, ?_, Store.get?_set_self σ v.slot value, htype⟩
      simp [← hname]
    · rw [if_neg hname] at hw
      have hne : (name == v.name) = false := by simp [Ne.symm hname]
      obtain ⟨old, hlookup, hget, hold⟩ := hset.held name w hw
      refine ⟨old, ?_, hget, hold⟩
      simpa [List.lookup_cons, hne] using hlookup
  · intro name hnone
    rw [hfind] at hnone
    by_cases hname : v.name = name
    · rw [if_pos hname] at hnone
      cases hnone
    · rw [if_neg hname] at hnone
      have hne : (name == v.name) = false := by simp [Ne.symm hname]
      simpa [List.lookup_cons, hne] using hset.only name hnone

end FrameAgrees

/-! ## Stacks of frames -/

inductive Agrees (σ : Store) : ScopeStack → List Frame → Prop
  | nil : Agrees σ [] []
  | cons {scope : Scope} {frame : Frame} {outer : ScopeStack} {frames : List Frame} :
    FrameAgrees σ scope frame → Agrees σ outer frames → Agrees σ (scope :: outer) (frame :: frames)

namespace Agrees

variable {σ : Store} {stack : ScopeStack} {frames : List Frame}

theorem set_avoided (h : Agrees σ stack frames) {slot : Slot} (hslot : stack.Avoids slot)
    (value : Value) : Agrees (σ.set slot value) stack frames := by
  induction h with
  | nil => exact .nil
  | cons hframe _ ih =>
    obtain ⟨hscope, houter⟩ := List.forall_mem_cons.mp hslot
    exact .cons (hframe.set_avoided hscope value) (ih houter)

theorem read? (h : Agrees σ stack frames) {name : String} {v : Variable}
    (hv : stack.find? name = some v) :
    ∃ value, read? name frames = some value ∧ σ.get? v.slot = some value ∧
      value.type = v.type := by
  induction h with
  | nil => cases hv
  | @cons scope frame outer frames hframe _ ih =>
    rw [ScopeStack.find?_cons] at hv
    unfold Lexical.read? at ih ⊢
    rw [List.findSome?_cons]
    cases hs : scope.find? name with
    | some u =>
      rw [hs] at hv
      cases hv
      obtain ⟨value, hlookup, hget, htype⟩ := hframe.held name v hs
      exact ⟨value, by rw [hlookup], hget, htype⟩
    | none =>
      rw [hs] at hv
      rw [hframe.only name hs]
      exact ih hv

theorem write? (h : Agrees σ stack frames) (hapart : stack.Apart) {name : String} {v : Variable}
    (hv : stack.find? name = some v) {value : Value} (htype : value.type = v.type) :
    ∃ frames', write? name value frames = some frames' ∧
      Agrees (σ.set v.slot value) stack frames' := by
  induction h with
  | nil => cases hv
  | @cons scope frame outer frames hframe hframes ih =>
    rw [ScopeStack.find?_cons] at hv
    obtain ⟨hscope, houter⟩ := List.pairwise_cons.mp hapart
    unfold Lexical.write?
    cases hs : scope.find? name with
    | some u =>
      rw [hs] at hv
      cases hv
      obtain ⟨old, hlookup, _⟩ := hframe.held name v hs
      rw [hlookup]
      refine ⟨_, rfl, .cons (hframe.put hs htype) (hframes.set_avoided ?_ value)⟩
      exact fun s' hs' w hw => hscope s' hs' v (List.mem_of_find?_eq_some hs) w hw
    | none =>
      rw [hs] at hv
      rw [hframe.only name hs]
      obtain ⟨frames', hwrite, hagrees⟩ := ih houter hv
      -- the variable is further out, so its slot is none of this scope's
      obtain ⟨s', hs', hmem⟩ := ScopeStack.mem_of_find? (v := v) hv
      refine ⟨frame :: frames', by rw [hwrite]; rfl, .cons (hframe.set_avoided ?_ value) hagrees⟩
      exact fun w hw => Ne.symm (hscope s' hs' w hw v hmem)

end Agrees

end Lexical

end Scriptlet
