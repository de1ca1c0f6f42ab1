import Scriptlet.Text.Span

/-!
# Boundaries between characters

An offset into a text is a boundary if it is the length of some front part. Cutting at boundaries
succeeds, and spans between boundaries stay such when they are put together.
-/

namespace Scriptlet

namespace Text

theorem byteLength_replicate (c : Char) (n : Nat) :
    byteLength (List.replicate n c) = n * c.utf8Size := by
  induction n with
  | zero => simp
  | succ n ih => rw [List.replicate_succ, byteLength_cons, ih, Nat.succ_mul, Nat.add_comm]

def IsBoundary (cs : List Char) (n : Nat) : Prop :=
  ∃ front back, front ++ back = cs ∧ byteLength front = n

theorem isBoundary_append (front back : List Char) :
    IsBoundary (front ++ back) (byteLength front) := ⟨front, back, rfl, rfl⟩

theorem isBoundary_length (cs : List Char) : IsBoundary cs (byteLength cs) :=
  ⟨cs, [], List.append_nil cs, rfl⟩

theorem IsBoundary.le {cs : List Char} {n : Nat} (h : IsBoundary cs n) : n ≤ byteLength cs := by
  obtain ⟨front, back, rfl, rfl⟩ := h
  rw [byteLength_append]
  exact Nat.le_add_right _ _

section
variable {front back : List Char} {n : Nat}

/-- A boundary lies in the front part or in the back part. -/
theorem IsBoundary.of_append (h : IsBoundary (front ++ back) n) :
    IsBoundary front n ∨ ∃ k, n = byteLength front + k ∧ IsBoundary back k := by
  obtain ⟨front', back', hwhole, rfl⟩ := h
  rcases List.append_eq_append_iff.mp hwhole with ⟨rest, rfl, rfl⟩ | ⟨rest, rfl, rfl⟩
  · exact .inl (isBoundary_append front' rest)
  · exact .inr ⟨byteLength rest, byteLength_append _ _, isBoundary_append rest back'⟩

theorem IsBoundary.drop (h : IsBoundary (front ++ back) n) (hn : byteLength front ≤ n) :
    IsBoundary back (n - byteLength front) := by
  rcases h.of_append with hfront | ⟨k, rfl, hback⟩
  · have hzero : n - byteLength front = 0 := Nat.sub_eq_zero_of_le hfront.le
    rw [hzero]
    exact ⟨[], back, rfl, rfl⟩
  · rwa [Nat.add_sub_cancel_left]

/-- A boundary clipped to the front part is a boundary of it. -/
theorem IsBoundary.clip (h : IsBoundary (front ++ back) n) :
    IsBoundary front (min n (byteLength front)) := by
  rcases h.of_append with hfront | ⟨k, rfl, _⟩
  · rwa [Nat.min_eq_left hfront.le]
  · rw [Nat.min_eq_right (Nat.le_add_right _ _)]
    exact isBoundary_length front

end

/-! ## Cutting -/

theorem splitAt?_append (front back : List Char) :
    splitAt? (byteLength front) (front ++ back) = some (front, back) := by
  induction front with
  | nil => simp [splitAt?]
  | cons c front ih =>
    have hpos := c.utf8Size_pos
    obtain ⟨n, hn⟩ : ∃ n, byteLength (c :: front) = n + 1 := ⟨byteLength (c :: front) - 1, by
      rw [byteLength_cons]
      omega⟩
    have hrest : n + 1 - c.utf8Size = byteLength front := by
      rw [← hn, byteLength_cons]
      omega
    have hle : c.utf8Size ≤ n + 1 := by
      rw [← hn, byteLength_cons]
      omega
    rw [hn, List.cons_append]
    simp only [splitAt?, if_pos hle, hrest, ih, Option.map_some]

theorem drop?_append (front back : List Char) :
    drop? (byteLength front) (front ++ back) = some back := by
  rw [drop?_eq, splitAt?_append, Option.map_some]

theorem slice?_append (front middle back : List Char) :
    slice? (byteLength front) (byteLength front + byteLength middle) (front ++ (middle ++ back)) =
      some middle := by
  unfold slice?
  rw [if_pos (Nat.le_add_right _ _), drop?_append, Nat.add_sub_cancel_left]
  simp only [Option.bind_eq_bind, Option.bind_some, splitAt?_append, Option.pure_def]

theorem slice?_self {n : Nat} {cs part : List Char} (h : slice? n n cs = some part) :
    part = [] := by
  cases hback : drop? n cs with
  | none => simp [slice?, hback] at h
  | some back =>
    have hempty : slice? n n cs = some [] := by
      rw [slice?, if_pos (Nat.le_refl n), hback, Nat.sub_self]
      cases back <;> rfl
    exact (Option.some.inj (hempty.symm.trans h)).symm

theorem IsBoundary.splitAt? {cs : List Char} {n : Nat} (h : IsBoundary cs n) :
    ∃ front back, splitAt? n cs = some (front, back) ∧ front ++ back = cs ∧
      byteLength front = n := by
  obtain ⟨front, back, rfl, rfl⟩ := h
  exact ⟨front, back, splitAt?_append front back, rfl, rfl⟩

theorem isBoundary_of_slice? {lo hi : Nat} {cs part : List Char}
    (h : slice? lo hi cs = some part) : IsBoundary cs lo ∧ IsBoundary cs hi := by
  unfold slice? at h
  by_cases hle : lo ≤ hi
  · simp only [if_pos hle, Option.bind_eq_bind, Option.bind_eq_some_iff, Prod.exists] at h
    obtain ⟨back, hback, middle, last, hmiddle, _⟩ := h
    rw [drop?_eq, Option.map_eq_some_iff] at hback
    obtain ⟨⟨front, _⟩, hfront, rfl⟩ := hback
    obtain ⟨rfl, hlo⟩ := append_of_splitAt? hfront
    obtain ⟨rfl, hlen⟩ := append_of_splitAt? hmiddle
    refine ⟨⟨front, _, rfl, hlo⟩, ⟨front ++ middle, last, List.append_assoc _ _ _, ?_⟩⟩
    rw [byteLength_append]
    omega
  · rw [if_neg hle] at h
    cases h

end Text

namespace Span

open Text

structure Fits (text : String) (s : Span) : Prop where
  pos : IsBoundary text.toList s.pos
  stop : IsBoundary text.toList s.stop

variable {text : String}

theorem Fits.of_slice? {s : Span} {part : String} (h : s.slice? text = some part) :
    s.Fits text := by
  obtain ⟨cs, hcs, _⟩ := Option.map_eq_some_iff.mp h
  obtain ⟨hpos, hstop⟩ := isBoundary_of_slice? hcs
  exact ⟨hpos, hstop⟩

theorem Fits.empty {pos : Nat} (h : IsBoundary text.toList pos) : (Span.empty pos).Fits text :=
  ⟨h, h⟩

theorem Fits.cover (hlen : byteLength text.toList < lengthBound) {s t : Span} (hs : s.Fits text)
    (ht : t.Fits text) : (s.cover t).Fits text := by
  have hle : min s.pos t.pos ≤ max s.stop t.stop := by
    simp only [Span.stop]
    omega
  have hstop : (s.cover t).stop = max s.stop t.stop := by
    have hsle := hs.stop.le
    have htle := ht.stop.le
    exact stop_between hle (by omega)
  constructor
  · rcases Nat.le_total s.pos t.pos with h | h
    · rw [Span.cover, pos_between, Nat.min_eq_left h]
      exact hs.pos
    · rw [Span.cover, pos_between, Nat.min_eq_right h]
      exact ht.pos
  · rw [hstop]
    rcases Nat.le_total s.stop t.stop with h | h
    · rw [Nat.max_eq_right h]
      exact ht.stop
    · rw [Nat.max_eq_left h]
      exact hs.stop

end Span

end Scriptlet
