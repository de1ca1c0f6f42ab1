/-!
# Byte offsets into text

Positions count UTF-8 bytes while a text is a list of characters. An offset that falls inside a
character, or past the end, addresses no place in the text.
-/

namespace Scriptlet.Text

def byteLength : List Char → Nat
  | [] => 0
  | c :: cs => c.utf8Size + byteLength cs

@[simp] theorem byteLength_nil : byteLength [] = 0 := rfl

@[simp] theorem byteLength_cons (c : Char) (cs : List Char) :
    byteLength (c :: cs) = c.utf8Size + byteLength cs := rfl

@[simp] theorem byteLength_append (cs ds : List Char) :
    byteLength (cs ++ ds) = byteLength cs + byteLength ds := by
  induction cs with
  | nil => simp
  | cons c cs ih => simp [ih, Nat.add_assoc]

/-- Cuts a text at a byte offset, if the offset stands between two characters. -/
def splitAt? : Nat → List Char → Option (List Char × List Char)
  | 0, cs => some ([], cs)
  | _ + 1, [] => none
  | n + 1, c :: cs =>
    if c.utf8Size ≤ n + 1 then
      (splitAt? (n + 1 - c.utf8Size) cs).map fun (front, back) => (c :: front, back)
    else none

theorem append_of_splitAt? {n : Nat} {cs front back : List Char}
    (h : splitAt? n cs = some (front, back)) : front ++ back = cs ∧ byteLength front = n := by
  induction cs generalizing n front with
  | nil =>
    cases n with
    | zero => simp [splitAt?] at h; simp [h]
    | succ n => simp [splitAt?] at h
  | cons c cs ih =>
    cases n with
    | zero => simp [splitAt?] at h; simp [h]
    | succ n =>
      unfold splitAt? at h
      split at h
      · rename_i hc
        simp only [Option.map_eq_some_iff, Prod.mk.injEq, Prod.exists] at h
        obtain ⟨f, b, hs, rfl, rfl⟩ := h
        obtain ⟨happ, hlen⟩ := ih hs
        simp only [List.cons_append, happ, byteLength_cons, hlen, true_and]
        omega
      · cases h

def drop? : Nat → List Char → Option (List Char)
  | 0, cs => some cs
  | _ + 1, [] => none
  | n + 1, c :: cs => if c.utf8Size ≤ n + 1 then drop? (n + 1 - c.utf8Size) cs else none

/-- The back of a cut, without the front. -/
theorem drop?_eq (n : Nat) (cs : List Char) : drop? n cs = (splitAt? n cs).map (·.2) := by
  induction cs generalizing n with
  | nil => cases n <;> rfl
  | cons c cs ih =>
    cases n with
    | zero => rfl
    | succ n =>
      unfold drop? splitAt?
      split
      · rw [ih, Option.map_map]
        rfl
      · rfl

def slice? (lo hi : Nat) (cs : List Char) : Option (List Char) :=
  if lo ≤ hi then do
    let back ← drop? lo cs
    let (middle, _) ← splitAt? (hi - lo) back
    return middle
  else none

end Scriptlet.Text
