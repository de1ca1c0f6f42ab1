import Scriptlet.Proofs.Chain
import Scriptlet.Session

/-!
# What rejected and failed fragments leave behind

A rejected fragment was bound but never ran, and nothing of it is kept: a session goes on as if it
had not been submitted. A failed one may have changed values, but declares nothing.
-/

namespace Scriptlet.Session

open Run (Store)
open Syntax (Fragment)

/-- All that a submission can do to a session, by what it comes to. -/
theorem submit_cases (limit : Nat) (s : Session) (fragment : Fragment) :
    (∃ n, (s.submit limit fragment).1.result = .ok (.rejected n) ∧
      (s.submit limit fragment).2 = s) ∨
    (∃ store, (s.submit limit fragment).1.result = .ok .failed ∧
      (s.submit limit fragment).2 = { s with store }) ∨
    (∃ value store, (s.submit limit fragment).1.result = .ok (.evaluated value) ∧
      (s.submit limit fragment).2 =
        { s with store, previous := Link.after s.previous fragment :: s.previous }) ∨
    ∃ crash store, (s.submit limit fragment).1.result = .error crash ∧
      (s.submit limit fragment).2 = { s with store } := by
  unfold submit Link.evaluate
  by_cases hclean : (Link.after s.previous fragment).diagnostics.isEmpty = true
  · simp only [if_pos hclean]
    cases (Link.after s.previous fragment).run limit s.store with
    | ok value store => exact .inr (.inr (.inl ⟨value, store, rfl, rfl⟩))
    | error halt store =>
      cases halt with
      | divisionByZero dividend => exact .inr (.inl ⟨store, rfl, rfl⟩)
      | stuck cause => exact .inr (.inr (.inr ⟨.stuck cause, store, rfl, rfl⟩))
      | cutOff => exact .inr (.inr (.inr ⟨.cutOff, store, rfl, rfl⟩))
  · -- Nothing was run: the store comes back as it was handed in.
    simp only [if_neg hclean]
    cases Diagnostic.renderAll? fragment.text (Link.after s.previous fragment).diagnostics with
    | some text => exact .inl ⟨_, rfl, rfl⟩
    | none => exact .inr (.inr (.inr ⟨.unrenderable, s.store, rfl, rfl⟩))

def Reply.isRejected (reply : Reply) : Bool :=
  match reply.result with
  | .ok (.rejected _) => true
  | _ => false

theorem submit_of_rejected {limit : Nat} {s : Session} {fragment : Fragment}
    (h : (s.submit limit fragment).1.isRejected = true) : (s.submit limit fragment).2 = s := by
  unfold Reply.isRejected at h
  rcases submit_cases limit s fragment with ⟨_, _, hs⟩ | ⟨_, hr, _⟩ | ⟨_, _, hr, _⟩ |
    ⟨_, _, hr, _⟩
  · exact hs
  all_goals
    rw [hr] at h
    cases h

theorem previous_of_failed {limit : Nat} {s : Session} {fragment : Fragment}
    (h : (s.submit limit fragment).1.result = .ok .failed) :
    (s.submit limit fragment).2.previous = s.previous := by
  rcases submit_cases limit s fragment with ⟨_, hr, _⟩ | ⟨_, _, hs⟩ | ⟨_, _, hr, _⟩ |
    ⟨_, _, hr, _⟩
  · rw [hr] at h
    cases h
  · rw [hs]
  all_goals
    rw [hr] at h
    cases h

/-! ## Scripts without their rejected parts -/

theorem act_of_rejected {limit : Nat} {s : Session} {a : Action}
    (h : (s.act limit a).1.any Reply.isRejected = true) : (s.act limit a).2 = s := by
  cases a with
  | submit text => exact submit_of_rejected h
  | _ => cases h

theorem actAll_cons (limit : Nat) (s : Session) (a : Action) (actions : List Action) :
    s.actAll limit (a :: actions) =
      ((s.act limit a).1 :: ((s.act limit a).2.actAll limit actions).1,
        ((s.act limit a).2.actAll limit actions).2) := rfl

theorem actAll_length (limit : Nat) : ∀ (s : Session) (actions : List Action),
    (s.actAll limit actions).1.length = actions.length
  | _, [] => rfl
  | s, a :: actions => congrArg (· + 1) (actAll_length limit (s.act limit a).2 actions)

/-- The steps of a script, each with its reply, without the submissions that were rejected. -/
def unrejected (actions : List Action) (replies : List (Option Reply)) :
    List (Action × Option Reply) :=
  (actions.zip replies).filter fun step => !step.2.any Reply.isRejected

theorem actAll_unrejected (limit : Nat) : ∀ (s : Session) (actions : List Action),
    s.actAll limit ((unrejected actions (s.actAll limit actions).1).map (·.1)) =
      ((unrejected actions (s.actAll limit actions).1).map (·.2), (s.actAll limit actions).2)
  | _, [] => rfl
  | s, a :: actions => by
    have ih := actAll_unrejected limit (s.act limit a).2 actions
    unfold unrejected at ih ⊢
    rw [actAll_cons, List.zip_cons_cons, List.filter_cons]
    by_cases hr : (s.act limit a).1.any Reply.isRejected = true
    · simp only [hr, Bool.not_true, Bool.false_eq_true, if_false]
      rw [act_of_rejected hr] at ih ⊢
      exact ih
    · simp only [hr, Bool.not_false, if_true, List.map_cons]
      rw [actAll_cons, ih]

/-- Whatever is done with a new session, taking out the submissions that were rejected changes no
reply to the rest and not what the session is in the end. A submission that fails next leaves all
names with the meanings they had. -/
theorem rejected_leave_no_trace (limit : Nat) (showTree showProgram : Bool)
    (actions : List Action) :
    let new : Session := ⟨[], {}, showTree, showProgram⟩
    let replies := (new.actAll limit actions).1
    let s := (new.actAll limit actions).2
    replies.length = actions.length ∧
    new.actAll limit ((unrejected actions replies).map (·.1)) =
      ((unrejected actions replies).map (·.2), s) ∧
    ∀ text, let s' := (s.submit limit (Fragment.parse text)).2
      (s.submit limit (Fragment.parse text)).1.result = .ok .failed →
        s'.previous = s.previous ∧
          ∀ name, s'.previous.scopes.find? name = s.previous.scopes.find? name := by
  intro new replies s
  refine ⟨actAll_length limit new actions, actAll_unrejected limit new actions, ?_⟩
  intro text s' hfailed
  have hprevious : s'.previous = s.previous := previous_of_failed hfailed
  exact ⟨hprevious, fun name => by rw [hprevious]⟩

/-- A rejected and a failed submission among others, and one that fails after them. -/
theorem rejected_and_failed_leave_no_trace :
    let new : Session := ⟨[], {}, true, false⟩
    let script : List Action := [.submit "let x = 4", .submit "\x7b x = y $", .toggleTree,
      .submit "\x7b var n = x n / 0 \x7d", .submit "x + 1"]
    let s := (new.actAll 9 script).2
    let s' := (s.submit 9 (Fragment.parse "\x7b var x = true 1 / 0 \x7d")).2
    (new.actAll 9 script).1.map (fun reply => reply.bind (·.result.toOption)) =
      [some (.evaluated (some (.int 4))), some (.rejected 4), none, some .failed,
        some (.evaluated (some (.int 5)))] ∧
    (new.actAll 9 [.submit "let x = 4", .toggleTree, .submit "\x7b var n = x n / 0 \x7d",
      .submit "x + 1"]).2 = s ∧
    s'.previous.scopes.find? "x" = some ⟨"x", true, .int⟩ := by
  intro new script s s'
  obtain ⟨-, hkept, hfailed⟩ := rejected_leave_no_trace 9 true false script
  refine ⟨by decide +kernel, ?_, ?_⟩
  · have hrest : (unrejected script (new.actAll 9 script).1).map (·.1) = [.submit "let x = 4",
      .toggleTree, .submit "\x7b var n = x n / 0 \x7d", .submit "x + 1"] := by decide +kernel
    rw [hrest] at hkept
    have hend := congrArg Prod.snd hkept
    exact hend
  · refine ((hfailed "\x7b var x = true 1 / 0 \x7d" ?_).2 "x").trans (by decide +kernel)
    have hresult : (s.submit 9 (Fragment.parse "\x7b var x = true 1 / 0 \x7d")).1.result.toOption =
      some .failed := by decide +kernel
    cases hr : (s.submit 9 (Fragment.parse "\x7b var x = true 1 / 0 \x7d")).1.result with
    | ok outcome =>
      rw [hr] at hresult
      cases hresult
      rfl
    | error crash =>
      rw [hr] at hresult
      cases hresult

end Scriptlet.Session
