import Scriptlet.Proofs.Binding.Safe
import Scriptlet.Proofs.Chain
import Scriptlet.Proofs.Run.Limit
import Scriptlet.Session

/-!
# Sessions never get stuck

What a session keeps is fit for whatever is submitted next: the fragments it went on from are
without fault, their variables have values, and all values are of the types of their slots. Failed
and cut off fragments leave writes behind, but only writes of this kind.
-/

namespace Scriptlet

open Binding (Layer Knows bindStmt)
open Run (Halt Store Stuck)
open Syntax (Fragment)
open Typed (Slot)

namespace Run.Store

def Typed (s : Store) : Prop := ∀ slot value, (slot, value) ∈ s.entries → value.type = slot.type

theorem mem_insert {slot : Slot} {value : Value} {e : Slot × Value} :
    ∀ {entries : List (Slot × Value)}, e ∈ insert slot value entries → e = (slot, value) ∨ e ∈ entries
  | [], h => .inl (List.mem_singleton.mp h)
  | (k, v) :: entries, h => by
    unfold insert at h
    split at h
    · exact (List.mem_cons.mp h).imp_right (List.mem_cons_of_mem _)
    · rcases List.mem_cons.mp h with he | he
      · exact .inr (he ▸ List.mem_cons_self)
      · exact (mem_insert he).imp_right (List.mem_cons_of_mem _)

theorem mem_of_lookup {slot : Slot} {value : Value} :
    ∀ {entries : List (Slot × Value)}, lookup slot entries = some value → (slot, value) ∈ entries
  | [], h => by cases h
  | (k, v) :: entries, h => by
    unfold lookup at h
    split at h
    · rename_i hk
      cases h
      exact hk ▸ List.mem_cons_self
    · exact List.mem_cons_of_mem _ (mem_of_lookup h)

theorem lookup_of_mem {slot : Slot} : ∀ {entries : List (Slot × Value)},
    slot ∈ entries.map Prod.fst → ∃ value, lookup slot entries = some value
  | [], h => by cases h
  | (k, v) :: entries, h => by
    unfold lookup
    split
    · exact ⟨v, rfl⟩
    · rename_i hk
      rw [List.map_cons, List.mem_cons] at h
      exact lookup_of_mem (h.resolve_left (Ne.symm hk))

theorem typed_stable : Stable Typed := by
  intro s slot value hs hv slot' value' hmem
  rcases mem_insert hmem with he | he
  · cases he
    exact hv
  · exact hs slot' value' he

theorem Typed.covers {s : Store} (h : s.Typed) : s.Covers (s.entries.map Prod.fst) := by
  intro slot hslot
  obtain ⟨value, hvalue⟩ := lookup_of_mem hslot
  exact ⟨value, hvalue, h slot value (mem_of_lookup hvalue)⟩

end Run.Store

/-! ## One evaluation -/

structure Chain.Sound (chain : Chain) (store : Store) : Prop where
  clean : ∀ l ∈ chain, l.diagnostics = []
  assigned : ∀ name v, chain.scopes.find? name = some v → ∃ value, store.get? v.slot = some value
  typed : store.Typed

namespace Chain.Sound

variable {chain : Chain} {store : Store}

theorem nil : Chain.Sound [] {} where
  clean _ h := by cases h
  assigned _ _ h := by cases h
  typed _ _ h := by cases h

theorem knows (h : chain.Sound store) : Knows (store.entries.map Prod.fst) chain.scopes := by
  intro name v hv
  obtain ⟨value, hvalue⟩ := h.assigned name v hv
  exact List.mem_map_of_mem (Store.mem_of_lookup hvalue)

theorem of_fits (h : chain.Sound store) {store' : Store}
    (hfits : store'.Fits Store.Typed (store.entries.map Prod.fst)) : chain.Sound store' where
  clean := h.clean
  assigned name v hv := by
    obtain ⟨value, hvalue, _⟩ := hfits.1 v.slot (h.knows name v hv)
    exact ⟨value, hvalue⟩
  typed := hfits.2

/-- A run is not stuck, and leaves a store for the old chain or, if it ends, for the longer one. -/
theorem run (h : chain.Sound store) (fragment : Fragment) (limit : Nat)
    (hclean : (Link.after chain fragment).diagnostics = []) :
    match (Link.after chain fragment).run limit store with
    | .ok _ store' => Chain.Sound (Link.after chain fragment :: chain) store'
    | .error halt store' => (∀ cause, halt ≠ .stuck cause) ∧ chain.Sound store' := by
  let known := store.entries.map Prod.fst
  have hknows : Knows known ({} :: chain.scopes) := h.knows.enter
  have hreports : (bindStmt chain.scopes {} fragment.unit.stmt).reports = [] :=
    (List.append_eq_nil_iff.mp (List.append_eq_nil_iff.mp hclean).2).2
  obtain ⟨hsafe, hafter⟩ := Binding.bindStmt_safe hknows fragment.unit.stmt
  have hrun := Run.exec_safe Store.typed_stable limit hsafe none store ⟨h.typed.covers, h.typed⟩
  show match Run.run limit (bindStmt chain.scopes {} fragment.unit.stmt).tree store with
    | .ok _ store' => Chain.Sound (Link.after chain fragment :: chain) store'
    | .error halt store' => (∀ cause, halt ≠ .stuck cause) ∧ chain.Sound store'
  unfold Run.run
  cases hr : Run.exec limit (bindStmt chain.scopes {} fragment.unit.stmt).tree none store with
  | ok value store' =>
    rw [hr] at hrun
    refine ⟨?_, ?_, hrun.2⟩
    · exact List.forall_mem_cons.mpr ⟨hclean, h.clean⟩
    · intro name v hv
      obtain ⟨w, hw, _⟩ := hrun.1 v.slot (hafter name v hv)
      exact ⟨w, hw⟩
  | error halt store' =>
    rw [hr] at hrun
    refine ⟨?_, h.of_fits hrun.2⟩
    rintro cause rfl
    exact Binding.not_blames_of_reports cause hreports hrun.1

theorem evaluate (h : chain.Sound store) (fragment : Fragment) (limit : Nat) :
    match (Link.after chain fragment).evaluate limit store with
    | .ok evaluation store' =>
      if evaluation.diagnostics.isEmpty then
        Chain.Sound (Link.after chain fragment :: chain) store'
      else chain.Sound store'
    | .error halt store' => (∀ cause, halt ≠ .stuck cause) ∧ chain.Sound store' := by
  unfold Link.evaluate
  cases hd : (Link.after chain fragment).diagnostics.isEmpty with
  | true =>
    have hrun := h.run fragment limit (List.isEmpty_iff.mp hd)
    rw [if_pos rfl]
    cases hr : (Link.after chain fragment).run limit store with
    | ok value store' => rw [hr] at hrun; exact hrun
    | error halt store' => rw [hr] at hrun; exact hrun
  | false =>
    rw [if_neg Bool.false_ne_true]
    simp only [hd]
    exact h

end Chain.Sound

/-! ## Whole sessions -/

namespace Session

def Sound (s : Session) : Prop := s.previous.Sound s.store

def NotStuck (reply : Option Reply) : Prop :=
  ∀ r, reply = some r → ∀ cause, r.result ≠ .error (.stuck cause)

theorem notStuck_none : NotStuck none := by
  intro r hr
  cases hr

theorem notStuck_some {r : Reply} (h : ∀ cause, r.result ≠ .error (.stuck cause)) :
    NotStuck (some r) := by
  intro r' hr
  cases hr
  exact h

theorem submit_sound {s : Session} (h : s.Sound) (limit : Nat) (fragment : Fragment) :
    NotStuck (some (s.submit limit fragment).1) ∧ (s.submit limit fragment).2.Sound := by
  have heval := h.evaluate fragment limit
  unfold submit
  simp only
  cases hr : (Link.after s.previous fragment).evaluate limit s.store with
  | error halt store =>
    rw [hr] at heval
    cases halt with
    | divisionByZero n => exact ⟨notStuck_some (fun _ hc => by cases hc), heval.2⟩
    | stuck cause => exact absurd rfl (heval.1 cause)
    | cutOff => exact ⟨notStuck_some (fun _ hc => by cases hc), heval.2⟩
  | ok evaluation store =>
    rw [hr] at heval
    simp only at heval ⊢
    split
    · rename_i hd
      rw [if_pos hd] at heval
      exact ⟨notStuck_some (fun _ hc => by cases hc), heval⟩
    · rename_i hd
      rw [if_neg hd] at heval
      split
      · exact ⟨notStuck_some (fun _ hc => by cases hc), heval⟩
      · exact ⟨notStuck_some (fun _ hc => by cases hc), heval⟩

theorem act_sound {s : Session} (h : s.Sound) (limit : Nat) (a : Action) :
    NotStuck (s.act limit a).1 ∧ (s.act limit a).2.Sound := by
  cases a with
  | submit text => exact submit_sound h limit (Fragment.parse text)
  | reset => exact ⟨notStuck_none, Chain.Sound.nil⟩
  | toggleTree => exact ⟨notStuck_none, h⟩
  | toggleProgram => exact ⟨notStuck_none, h⟩

theorem actAll_sound (limit : Nat) : ∀ {s : Session}, s.Sound → ∀ actions : List Action,
    (∀ reply ∈ (s.actAll limit actions).1, NotStuck reply) ∧ (s.actAll limit actions).2.Sound
  | _, h, [] => ⟨fun _ hr => absurd hr List.not_mem_nil, h⟩
  | s, h, a :: actions => by
    obtain ⟨hreply, hs⟩ := act_sound h limit a
    obtain ⟨hreplies, hend⟩ := actAll_sound limit hs actions
    exact ⟨List.forall_mem_cons.mpr ⟨hreply, hreplies⟩, hend⟩

/-- How evaluations end when they end: with diagnostics or a value, or dividing by zero. -/
def Regular : EStateM.Result Halt Store Evaluation → Prop
  | .ok _ _ | .error (.divisionByZero _) _ => True
  | _ => False

theorem endsIn_regular_or_goesOn {chain : Chain} {store : Store} (h : chain.Sound store)
    (fragment : Fragment) :
    (∃ r, Regular r ∧ (Link.after chain fragment).EndsIn store r) ∨
      (Link.after chain fragment).GoesOn store := by
  rcases (Link.after chain fragment).goesOn_or_endsIn store with hgo | ⟨n, hends, hcut⟩
  · exact .inr hgo
  · refine .inl ⟨_, ?_, hends⟩
    have heval := h.evaluate fragment n
    cases hr : (Link.after chain fragment).evaluate n store with
    | ok evaluation store' => trivial
    | error halt store' =>
      rw [hr] at heval
      cases halt with
      | divisionByZero d => trivial
      | stuck cause => exact absurd rfl (heval.1 cause)
      | cutOff => exact absurd hr (hcut store')

/-- Whatever is done with a new session, no submission is stuck, what the session keeps stays fit
for the next fragment, and every fragment that could come next ends regularly or goes on for ever
without getting stuck under any limit. -/
theorem new_session_sound (limit : Nat) (showTree showProgram : Bool) (actions : List Action) :
    let new : Session := ⟨[], {}, showTree, showProgram⟩
    (∀ reply ∈ (new.actAll limit actions).1, NotStuck reply) ∧
      (new.actAll limit actions).2.Sound ∧
      ∀ text, let s := (new.actAll limit actions).2
        (∃ r, Regular r ∧ (Link.after s.previous (Fragment.parse text)).EndsIn s.store r) ∨
          (Link.after s.previous (Fragment.parse text)).GoesOn s.store := by
  intro new
  obtain ⟨hreplies, hsound⟩ := actAll_sound limit (s := new) Chain.Sound.nil actions
  exact ⟨hreplies, hsound, fun text => endsIn_regular_or_goesOn hsound (Fragment.parse text)⟩

end Session

end Scriptlet
