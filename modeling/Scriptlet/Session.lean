import Scriptlet.Chain
import Scriptlet.Diagnostic.Render

/-!
# Sessions

Fragments submitted one after the other share a store. Only a fragment that ran to its end is seen
by the next ones; a rejected one leaves no trace, a failed one what it had stored.
-/

namespace Scriptlet

open Run (Halt Store Stuck)
open Syntax (Fragment)

structure Session where
  previous : Chain := []
  store : Store := {}
  showTree : Bool := false
  showProgram : Bool := false
  deriving Repr

namespace Session

inductive Outcome
  | evaluated (value : Option Value)
  | rejected (count : Nat)
  | failed
  deriving DecidableEq, Repr

/-- What no submission comes to: it would end the program. -/
inductive Crash
  | stuck (cause : Stuck)
  | unrenderable
  | cutOff
  deriving DecidableEq, Repr

structure Reply where
  output : String
  result : Except Crash Outcome
  deriving Repr

def dumps (s : Session) (l : Link) : String :=
  (if s.showTree then l.fragment.unit.node.outline.draw else "") ++
    (if s.showProgram then l.layer.stmt.outline.draw else "")

def submit (limit : Nat) (s : Session) (fragment : Fragment) : Reply × Session :=
  let link := Link.after s.previous fragment
  let shown := s.dumps link
  match link.evaluate limit s.store with
  | .error (.divisionByZero dividend) store =>
    (⟨shown ++ s!"runtime error: {Run.divisionMessage dividend}\n", .ok .failed⟩, { s with store })
  | .error (.stuck cause) store => (⟨shown, .error (.stuck cause)⟩, { s with store })
  | .error .cutOff store => (⟨shown, .error .cutOff⟩, { s with store })
  | .ok evaluation store =>
    if evaluation.diagnostics.isEmpty then
      let line := evaluation.value.elim "" fun v => v.text ++ "\n"
      (⟨shown ++ line, .ok (.evaluated evaluation.value)⟩,
        { s with store, previous := link :: s.previous })
    else
      match Diagnostic.renderAll? fragment.text evaluation.diagnostics with
      | some text =>
        (⟨shown ++ text, .ok (.rejected evaluation.diagnostics.length)⟩, { s with store })
      | none => (⟨shown, .error .unrenderable⟩, { s with store })

def reset (s : Session) : Session := { s with previous := [], store := {} }

def toggleTree (s : Session) : Session := { s with showTree := !s.showTree }

def toggleProgram (s : Session) : Session := { s with showProgram := !s.showProgram }

/-! ## Histories -/

inductive Action
  | submit (text : String)
  | reset
  | toggleTree
  | toggleProgram
  deriving DecidableEq, Repr

def act (limit : Nat) (s : Session) : Action → Option Reply × Session
  | .submit text =>
    let (reply, s) := s.submit limit (Fragment.parse text)
    (some reply, s)
  | .reset => (none, s.reset)
  | .toggleTree => (none, s.toggleTree)
  | .toggleProgram => (none, s.toggleProgram)

def actAll (limit : Nat) (s : Session) : List Action → List (Option Reply) × Session
  | [] => ([], s)
  | a :: as =>
    let (reply, s) := s.act limit a
    let (replies, s) := actAll limit s as
    (reply :: replies, s)

end Session

end Scriptlet
