import Scriptlet.Typed.Variable

/-!
# The store

The values of all variables, each in its slot. Writing to a slot keeps the place of an old entry.
-/

namespace Scriptlet.Run

open Typed (Slot)

structure Store where
  entries : List (Slot × Value) := []
  deriving DecidableEq, Repr, Inhabited

namespace Store

def lookup (slot : Slot) : List (Slot × Value) → Option Value
  | [] => none
  | (k, v) :: entries => if k = slot then some v else lookup slot entries

def insert (slot : Slot) (value : Value) : List (Slot × Value) → List (Slot × Value)
  | [] => [(slot, value)]
  | (k, v) :: entries =>
    if k = slot then (slot, value) :: entries else (k, v) :: insert slot value entries

def get? (s : Store) (slot : Slot) : Option Value := lookup slot s.entries

def set (s : Store) (slot : Slot) (value : Value) : Store := ⟨insert slot value s.entries⟩

theorem lookup_insert_self (slot : Slot) (value : Value) (entries : List (Slot × Value)) :
    lookup slot (insert slot value entries) = some value := by
  induction entries with
  | nil => simp [insert, lookup]
  | cons e entries ih => by_cases h : e.1 = slot <;> simp [insert, lookup, h, ih]

theorem lookup_insert_of_ne {slot slot' : Slot} (h : slot ≠ slot') (value : Value)
    (entries : List (Slot × Value)) :
    lookup slot' (insert slot value entries) = lookup slot' entries := by
  induction entries with
  | nil => simp [insert, lookup, h]
  | cons e entries ih =>
    by_cases hk : e.1 = slot
    · simp [insert, lookup, hk, h]
    · simp [insert, lookup, hk, ih]

@[simp] theorem get?_set_self (s : Store) (slot : Slot) (value : Value) :
    (s.set slot value).get? slot = some value :=
  lookup_insert_self slot value s.entries

theorem get?_set_of_ne {slot slot' : Slot} (h : slot ≠ slot') (s : Store) (value : Value) :
    (s.set slot value).get? slot' = s.get? slot' :=
  lookup_insert_of_ne h value s.entries

end Store

end Scriptlet.Run
