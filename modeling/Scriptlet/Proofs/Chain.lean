import Scriptlet.Chain

/-!
# What stops a fragment from running

Binding adds the faults it finds to those of the fragments before, while the faults of a text stay
with its own fragment. So a fault of binding stops the fragment and all that go on from it; one of
the text stops only the fragment itself.
-/

namespace Scriptlet

open Binding (Layer)
open Run (Store)
open Syntax (Fragment)

namespace Chain

def scopes (chain : Chain) : ScopeStack := Layer.scopes (chain.map (·.layer))

/-- What binding finds in a fragment after a chain; the faults of the chain are not counted. -/
def reportsOf (chain : Chain) (fragment : Fragment) : List Diagnostic :=
  (Binding.bindStmt chain.scopes {} fragment.unit.stmt).reports

section
variable (text : Nat → String)

def upTo : Nat → Chain
  | 0 => []
  | n + 1 => Link.after (upTo n) (Fragment.parse (text n)) :: upTo n

def linkAt (n : Nat) : Link := Link.after (upTo text n) (Fragment.parse (text n))

def reportsAt (n : Nat) : List Diagnostic := reportsOf (upTo text n) (Fragment.parse (text n))

theorem layer_diagnostics (n : Nat) :
    (linkAt text n).layer.diagnostics = (List.range (n + 1)).flatMap (reportsAt text) := by
  induction n with
  | zero =>
    show [] ++ reportsAt text 0 = _
    simp
  | succ n ih =>
    have hstep : (linkAt text (n + 1)).layer.diagnostics =
        (linkAt text n).layer.diagnostics ++ reportsAt text (n + 1) := rfl
    rw [hstep, ih, List.range_succ (n := n + 1), List.flatMap_append]
    simp

end

end Chain

theorem Link.evaluate_blocked_iff (l : Link) (limit : Nat) (store : Store) :
    (∃ ds, ds ≠ [] ∧ l.evaluate limit store = .ok ⟨ds, none⟩ store) ↔ l.diagnostics ≠ [] := by
  unfold Link.evaluate
  by_cases hd : l.diagnostics = []
  · rw [if_pos (List.isEmpty_iff.mpr hd)]
    refine ⟨fun h => ?_, fun h => absurd hd h⟩
    obtain ⟨ds, hds, heval⟩ := h
    cases hr : l.run limit store with
    | ok value s =>
      rw [hr] at heval
      simp only [EStateM.Result.ok.injEq, Evaluation.mk.injEq] at heval
      exact absurd heval.1.1.symm hds
    | error halt s =>
      rw [hr] at heval
      cases heval
  · have hne : ¬ l.diagnostics.isEmpty = true := fun h => hd (List.isEmpty_iff.mp h)
    rw [if_neg hne]
    exact ⟨fun _ => hd, fun _ => ⟨l.diagnostics, hd, rfl⟩⟩

namespace Chain

/-- A fragment comes back with diagnostics and without a value, and leaves the store as it was, just
if its own text is at fault or binding found a fault in it or in a fragment before it. -/
theorem blocked_iff (text : Nat → String) (n limit : Nat) (store : Store) :
    (∃ ds, ds ≠ [] ∧ (linkAt text n).evaluate limit store = .ok ⟨ds, none⟩ store) ↔
      (Fragment.parse (text n)).diagnostics ≠ [] ∨ ∃ i, i ≤ n ∧ reportsAt text i ≠ [] := by
  rw [Link.evaluate_blocked_iff]
  have hall : (linkAt text n).diagnostics = [] ↔ (Fragment.parse (text n)).diagnostics = [] ∧
      ∀ i, i ≤ n → reportsAt text i = [] := by
    have hdiagnostics : (linkAt text n).diagnostics =
        (Fragment.parse (text n)).diagnostics ++ (linkAt text n).layer.diagnostics := rfl
    rw [hdiagnostics, List.append_eq_nil_iff, layer_diagnostics, List.flatMap_eq_nil_iff]
    simp only [List.mem_range, Nat.lt_succ_iff]
  constructor
  · intro hne
    by_cases htext : (Fragment.parse (text n)).diagnostics = []
    · refine .inr (Classical.byContradiction fun hnone => hne (hall.mpr ⟨htext, fun i hi => ?_⟩))
      exact Classical.byContradiction fun hi' => hnone ⟨i, hi, hi'⟩
    · exact .inl htext
  · intro hfault hnil
    obtain ⟨htext, hreports⟩ := hall.mp hnil
    rcases hfault with h | ⟨i, hi, h⟩
    · exact h htext
    · exact h (hreports i hi)

/-- A text that is not as the grammar wants it does not stop the fragment after it. -/
theorem faulty_text_does_not_block :
    ¬ ∀ (text : Nat → String) (i : Nat),
      (Fragment.parse (text i)).diagnostics ≠ [] ∨ reportsAt text i ≠ [] →
        ∀ j, i ≤ j → ∀ limit store, ∃ ds, ds ≠ [] ∧
          (linkAt text j).evaluate limit store = .ok ⟨ds, none⟩ store := by
  intro h
  let text : Nat → String
    | 0 => "(1"
    | _ => "2"
  have hfault : (Fragment.parse (text 0)).diagnostics ≠ [] := by decide +kernel
  have hblocked := h text 0 (.inl hfault) 1 (by decide) 0 {}
  rw [Link.evaluate_blocked_iff] at hblocked
  revert hblocked
  decide +kernel

end Chain

end Scriptlet
