import Scriptlet.Binding.Basic

/-!
# Looking up names

What a scope, and a stack of scopes, finds after variables were added. A declaration is told from
others of its name by its level: the number of scopes outside its own, which stays the same while
scopes are opened and closed further in.
-/

namespace Scriptlet

open Typed (Variable)

namespace Scope

theorem name_of_find? {s : Scope} {name : String} {v : Variable} (h : s.find? name = some v) :
    v.name = name := by
  simpa using List.find?_some h

theorem find?_append (vs ws : List Variable) (name : String) :
    find? ⟨vs ++ ws⟩ name = (find? ⟨vs⟩ name).or (find? ⟨ws⟩ name) :=
  List.find?_append

theorem find?_singleton (v : Variable) (name : String) :
    find? ⟨[v]⟩ name = if v.name = name then some v else none := by
  simp only [find?, List.find?_cons, List.find?_nil]
  by_cases h : v.name = name <;> simp [h]

theorem find?_snoc {s : Scope} {v w : Variable} {name : String}
    (h : find? ⟨s.declared ++ [v]⟩ name = some w) : w = v ∨ s.find? name = some w := by
  rw [find?_append, find?_singleton] at h
  cases hs : s.find? name with
  | some u => rw [hs] at h; exact .inr h
  | none =>
    rw [hs] at h
    simp only [Option.none_or] at h
    split at h
    · exact .inl (Option.some.inj h).symm
    · cases h

theorem find?_eq_none_iff {scope : Scope} {name : String} :
    scope.find? name = none ↔ ∀ w ∈ scope.declared, w.name ≠ name := by
  simp [find?]

theorem find?_eq_some_iff_of_pairwise {vs : List Variable}
    (h : vs.Pairwise (·.name ≠ ·.name)) {name : String} {v : Variable} :
    find? ⟨vs⟩ name = some v ↔ v ∈ vs ∧ v.name = name := by
  constructor
  · intro hv
    exact ⟨List.mem_of_find?_eq_some hv, name_of_find? hv⟩
  · rintro ⟨hv, rfl⟩
    induction vs with
    | nil => cases hv
    | cons w vs ih =>
      obtain ⟨hw, hvs⟩ := List.pairwise_cons.mp h
      rcases List.mem_cons.mp hv with rfl | hv
      · simp [find?]
      · have hne : w.name ≠ v.name := hw v hv
        simpa [find?, hne] using ih hvs hv

theorem find?_eq_find?_reverse {vs : List Variable} (h : vs.Pairwise (·.name ≠ ·.name))
    (name : String) : find? ⟨vs⟩ name = vs.reverse.find? fun v => v.name = name := by
  have hreverse : vs.reverse.Pairwise (·.name ≠ ·.name) :=
    List.pairwise_reverse.mpr (h.imp Ne.symm)
  apply Option.ext
  intro v
  have hv := @find?_eq_some_iff_of_pairwise vs.reverse hreverse name v
  rw [List.mem_reverse] at hv
  exact (find?_eq_some_iff_of_pairwise h).trans hv.symm

theorem declare?_eq_some {s s' : Scope} {v : Variable} (h : s.declare? v = some s') :
    s.find? v.name = none ∧ s' = ⟨s.declared ++ [v]⟩ := by
  unfold declare? at h
  cases hf : s.find? v.name with
  | some w => rw [hf] at h; cases h
  | none => rw [hf] at h; exact ⟨rfl, (Option.some.inj h).symm⟩

end Scope

namespace ScopeStack

theorem find?_cons (s : Scope) (outer : ScopeStack) (name : String) :
    find? (s :: outer) name = (s.find? name).or (find? outer name) := by
  unfold find?
  rw [List.findSome?_cons]
  cases s.find? name <;> rfl

theorem name_of_find? : ∀ {stack : ScopeStack} {name : String} {v : Variable},
    stack.find? name = some v → v.name = name
  | [], _, _, h => by cases h
  | s :: outer, name, v, h => by
    rw [find?_cons] at h
    cases hs : s.find? name with
    | some w => rw [hs] at h; cases h; exact Scope.name_of_find? hs
    | none => rw [hs] at h; exact @name_of_find? outer name v h

theorem mem_of_find? : ∀ {stack : ScopeStack} {name : String} {v : Variable},
    stack.find? name = some v → ∃ s ∈ stack, v ∈ s.declared
  | [], _, _, h => by cases h
  | s :: outer, name, v, h => by
    rw [find?_cons] at h
    cases hs : s.find? name with
    | some u =>
      rw [hs] at h
      cases h
      exact ⟨s, List.mem_cons_self, List.mem_of_find?_eq_some hs⟩
    | none =>
      rw [hs] at h
      obtain ⟨s', hs', hv⟩ := mem_of_find? (v := v) h
      exact ⟨s', List.mem_cons_of_mem _ hs', hv⟩

/-! ## Levels -/

/-- The scope with `k` scopes outside it. -/
def scopeAt? : ScopeStack → Nat → Option Scope
  | [], _ => none
  | s :: outer, k => if k = outer.length then some s else scopeAt? outer k

def level? : ScopeStack → String → Option Nat
  | [], _ => none
  | s :: outer, name => if (s.find? name).isSome then some outer.length else level? outer name

def Declares (stack : ScopeStack) (k : Nat) (v : Variable) : Prop :=
  ∃ s, stack.scopeAt? k = some s ∧ s.find? v.name = some v

theorem lt_of_scopeAt? : ∀ {stack : ScopeStack} {k : Nat} {s : Scope},
    stack.scopeAt? k = some s → k < stack.length
  | [], _, _, h => by cases h
  | s :: outer, k, s', h => by
    unfold scopeAt? at h
    split at h
    · rename_i hk
      simp [hk]
    · have := lt_of_scopeAt? h
      simp only [List.length_cons]
      omega

/-- A name is found at the innermost level that declares it. -/
theorem level?_of_find? : ∀ {stack : ScopeStack} {name : String} {v : Variable},
    stack.find? name = some v → ∃ k, stack.level? name = some k ∧ stack.Declares k v ∧
      ∀ k' w, stack.Declares k' w → w.name = name → k' ≤ k
  | [], _, _, h => by cases h
  | s :: outer, name, v, h => by
    rw [find?_cons] at h
    unfold level?
    cases hs : s.find? name with
    | some u =>
      rw [hs] at h
      cases h
      have hname := Scope.name_of_find? hs
      refine ⟨outer.length, rfl, ⟨s, if_pos rfl, hname ▸ hs⟩, ?_⟩
      rintro k' w ⟨s', hs', _⟩ _
      have := lt_of_scopeAt? hs'
      simp only [List.length_cons] at this
      omega
    | none =>
      rw [hs] at h
      obtain ⟨k, hk, ⟨s', hs', hv⟩, hmax⟩ := level?_of_find? (v := v) h
      have hlt := lt_of_scopeAt? hs'
      refine ⟨k, hk, ⟨s', ?_, hv⟩, ?_⟩
      · unfold scopeAt?
        rw [if_neg (by omega)]
        exact hs'
      · rintro k' w ⟨s'', hs'', hw⟩ hname
        unfold scopeAt? at hs''
        split at hs''
        · cases hs''
          rw [hname, hs] at hw
          cases hw
        · exact hmax k' w ⟨s'', hs'', hw⟩ hname

/-! ## Growing stacks -/

/-- `stack'` comes from `stack` by opening scopes and declaring variables, all of which are in `P`. -/
inductive Grows (P : Variable → Prop) (stack : ScopeStack) : ScopeStack → Prop
  | refl : Grows P stack stack
  | enter {stack' : ScopeStack} : Grows P stack stack' → Grows P stack ({} :: stack')
  | declare {s : Scope} {outer : ScopeStack} {v : Variable} :
    Grows P stack (s :: outer) → P v → Grows P stack (⟨s.declared ++ [v]⟩ :: outer)

theorem Grows.trans {P : Variable → Prop} {stack stack' stack'' : ScopeStack}
    (h : Grows P stack stack') (h' : Grows P stack' stack'') : Grows P stack stack'' := by
  induction h' with
  | refl => exact h
  | enter _ ih => exact .enter ih
  | declare _ hv ih => exact .declare ih hv

theorem Grows.declares {P : Variable → Prop} {stack stack' : ScopeStack} (h : Grows P stack stack')
    {k : Nat} {v : Variable} (hv : stack.Declares k v) : stack'.Declares k v := by
  induction h with
  | refl => exact hv
  | @enter stack' _ ih =>
    obtain ⟨s, hs, hfind⟩ := ih
    have hk : k ≠ stack'.length := Nat.ne_of_lt (lt_of_scopeAt? hs)
    refine ⟨s, ?_, hfind⟩
    unfold scopeAt?
    rw [if_neg hk]
    exact hs
  | @declare s outer w _ _ ih =>
    obtain ⟨s', hs', hfind⟩ := ih
    unfold Declares
    unfold scopeAt? at hs' ⊢
    by_cases hk : k = outer.length
    · rw [if_pos hk] at hs' ⊢
      cases hs'
      refine ⟨_, rfl, ?_⟩
      rw [Scope.find?_append]
      exact congrArg (Option.or · _) hfind
    · rw [if_neg hk] at hs' ⊢
      exact ⟨s', hs', hfind⟩

/-- What is found in a grown stack is new, or found as before. -/
theorem Grows.find? {P : Variable → Prop} {stack stack' : ScopeStack} (h : Grows P stack stack')
    {name : String} {w : Variable} (hw : stack'.find? name = some w) :
    P w ∨ stack.find? name = some w ∧ stack'.level? name = stack.level? name := by
  induction h with
  | refl => exact .inr ⟨hw, rfl⟩
  | enter _ ih => exact ih hw
  | @declare s outer v _ hv ih =>
    rw [find?_cons] at hw ih
    unfold level? at ih ⊢
    cases hs : s.find? name with
    | some u =>
      have hu : Scope.find? ⟨s.declared ++ [v]⟩ name = some u := by
        rw [Scope.find?_append]
        exact congrArg (Option.or · _) hs
      rw [hu] at hw ⊢
      rw [hs] at ih
      exact ih hw
    | none =>
      cases hn : Scope.find? ⟨s.declared ++ [v]⟩ name with
      | some u =>
        rw [hn] at hw
        cases hw
        rcases Scope.find?_snoc hn with rfl | hu
        · exact .inl hv
        · rw [hs] at hu
          cases hu
      | none =>
        rw [hn] at hw
        rw [hs] at ih
        exact ih hw

end ScopeStack

namespace Binding

theorem declareIn_scope (scope : Scope) (ident : Token) (v : Variable) :
    (declareIn scope ident v).1 = scope ∨
      ident.isMissing = false ∧ (declareIn scope ident v).1 = ⟨scope.declared ++ [v]⟩ := by
  unfold declareIn
  split
  · exact .inl rfl
  · rename_i hm
    cases hd : scope.declare? v with
    | none => exact .inl rfl
    | some s => exact .inr ⟨by simpa using hm, (Scope.declare?_eq_some hd).2⟩

theorem grows_declareIn {P : Variable → Prop} (scope : Scope) (outer : ScopeStack) (ident : Token)
    (v : Variable) (hv : P v) :
    ScopeStack.Grows P (scope :: outer) ((declareIn scope ident v).1 :: outer) := by
  rcases declareIn_scope scope ident v with h | ⟨_, h⟩
  · rw [h]
    exact .refl
  · rw [h]
    exact .declare .refl hv

end Binding

end Scriptlet
