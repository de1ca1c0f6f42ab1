import Scriptlet.Proofs.Text.Boundary
import Scriptlet.Text.Lines

/-!
# Lines of a text

Every place of a text stands on one line, between the line feed before it and the next one. The line
map finds this line by its number, and cuts it at the ends of any span that fits the text.
-/

namespace Scriptlet.Text

/-! ## One line -/

def OneLine (s : String) : Prop := '\n' ∉ s.toList

instance (s : String) : Decidable (OneLine s) := inferInstanceAs (Decidable ('\n' ∉ s.toList))

theorem OneLine.append {s t : String} (hs : OneLine s) (ht : OneLine t) : OneLine (s ++ t) := by
  unfold OneLine
  rw [String.toList_append]
  exact fun h => (List.mem_append.mp h).elim hs ht

theorem OneLine.quote {before quoted after : String} (hbefore : OneLine before)
    (hquoted : OneLine quoted) (hafter : OneLine after) : OneLine (before ++ quoted ++ after) :=
  (hbefore.append hquoted).append hafter

theorem oneLine_number (n : Nat) : OneLine (toString n) := by
  unfold OneLine
  rw [Nat.toString_eq_repr, Nat.toList_repr]
  intro h
  have hdigit := Nat.isDigit_of_mem_toDigits (by decide) (by decide) h
  revert hdigit
  decide

theorem oneLine_ofList {cs : List Char} (h : '\n' ∉ cs) : OneLine (String.ofList cs) := by
  unfold OneLine
  rwa [String.toList_ofList]

/-! ## The line of a place -/

/-- `line` is line `i` of a text: `head` goes up to its start and `rest` begins with the line feed
after it. -/
structure IsLine (cs : List Char) (i : Nat) (head line rest : List Char) : Prop where
  whole : head ++ (line ++ rest) = cs
  index : head.count '\n' = i
  first : head = [] ∨ ∃ front, head = front ++ ['\n']
  inner : '\n' ∉ line
  last : rest = [] ∨ ∃ back, rest = '\n' :: back

theorem exists_head (front : List Char) : ∃ head before, front = head ++ before ∧
    (head = [] ∨ ∃ front', head = front' ++ ['\n']) ∧ '\n' ∉ before := by
  induction front with
  | nil => exact ⟨[], [], rfl, .inl rfl, List.not_mem_nil⟩
  | cons c front ih =>
    obtain ⟨head, before, rfl, hhead, hbefore⟩ := ih
    rcases hhead with rfl | ⟨front', rfl⟩
    · by_cases hc : c = '\n'
      · exact ⟨[c], before, rfl, .inr ⟨[], by rw [hc]; rfl⟩, hbefore⟩
      · exact ⟨[], c :: before, rfl, .inl rfl, by simp [Ne.symm hc, hbefore]⟩
    · exact ⟨c :: (front' ++ ['\n']), before, rfl, .inr ⟨c :: front', rfl⟩, hbefore⟩

theorem exists_rest (back : List Char) : ∃ after rest, back = after ++ rest ∧
    (rest = [] ∨ ∃ back', rest = '\n' :: back') ∧ '\n' ∉ after := by
  induction back with
  | nil => exact ⟨[], [], rfl, .inl rfl, List.not_mem_nil⟩
  | cons c back ih =>
    by_cases hc : c = '\n'
    · exact ⟨[], c :: back, rfl, .inr ⟨back, by rw [hc]⟩, List.not_mem_nil⟩
    · obtain ⟨after, rest, rfl, hrest, hafter⟩ := ih
      exact ⟨c :: after, rest, rfl, hrest, by simp [Ne.symm hc, hafter]⟩

/-- The line on which the place between `front` and `back` stands. -/
theorem exists_isLine (front back : List Char) : ∃ head before after rest,
    front = head ++ before ∧ back = after ++ rest ∧
      IsLine (front ++ back) (front.count '\n') head (before ++ after) rest := by
  obtain ⟨head, before, rfl, hhead, hbefore⟩ := exists_head front
  obtain ⟨after, rest, rfl, hrest, hafter⟩ := exists_rest back
  refine ⟨head, before, after, rest, rfl, rfl, by simp, ?_, hhead, ?_, hrest⟩
  · rw [List.count_append, List.count_eq_zero_of_not_mem hbefore, Nat.add_zero]
  · exact fun h => (List.mem_append.mp h).elim hbefore hafter

namespace LineMap

/-! ## Starts of lines -/

theorem startsAfter_append (pos : Nat) (cs ds : List Char) :
    startsAfter pos (cs ++ ds) = startsAfter pos cs ++ startsAfter (pos + byteLength cs) ds := by
  induction cs generalizing pos with
  | nil => rfl
  | cons c cs ih =>
    simp only [List.cons_append, startsAfter, ih, byteLength_cons, ← Nat.add_assoc]
    split <;> rfl

theorem length_startsAfter (pos : Nat) (cs : List Char) :
    (startsAfter pos cs).length = cs.count '\n' := by
  induction cs generalizing pos with
  | nil => rfl
  | cons c cs ih =>
    by_cases hc : c = '\n'
    · simp [startsAfter, hc, ih]
    · simp [startsAfter, hc, ih]

theorem startsAfter_bounds (pos : Nat) (cs : List Char) :
    ∀ n ∈ startsAfter pos cs, pos < n ∧ n ≤ pos + byteLength cs := by
  induction cs generalizing pos with
  | nil => simp [startsAfter]
  | cons c cs ih =>
    have hsize := c.utf8Size_pos
    intro n hn
    have htail : n ∈ startsAfter (pos + c.utf8Size) cs →
        pos < n ∧ n ≤ pos + byteLength (c :: cs) := by
      intro hn
      have hbounds := ih (pos + c.utf8Size) n hn
      rw [byteLength_cons]
      omega
    unfold startsAfter at hn
    by_cases hc : c = '\n'
    · simp only [if_pos hc, List.mem_cons] at hn
      rcases hn with rfl | hn
      · rw [byteLength_cons]
        omega
      · exact htail hn
    · simp only [if_neg hc] at hn
      exact htail hn

theorem starts_increasing (cs : List Char) : (ofChars cs).starts.Pairwise (· < ·) := by
  have hafter : ∀ pos, (startsAfter pos cs).Pairwise (· < ·) := by
    induction cs with
    | nil => exact fun _ => List.Pairwise.nil
    | cons c cs ih =>
      intro pos
      unfold startsAfter
      split
      · exact List.pairwise_cons.mpr ⟨fun n hn => (startsAfter_bounds _ cs n hn).1, ih _⟩
      · exact ih _
  exact List.pairwise_cons.mpr ⟨fun n hn => (startsAfter_bounds 0 cs n hn).1, hafter 0⟩

/-- Whether a number is found or not, the search tells how many are not above it. -/
theorem search_eq {ns : List Nat} (h : ns.Pairwise (· < ·)) (n : Nat) :
    search n ns = if n ∈ ns then .ok (ns.countP (· ≤ n) - 1) else .error (ns.countP (· ≤ n)) := by
  induction ns with
  | nil => rfl
  | cons m ms ih =>
    obtain ⟨hm, hms⟩ := List.pairwise_cons.mp h
    -- none of the numbers after one that is not below `n` counts
    have hnone : n ≤ m → ms.countP (· ≤ n) = 0 := by
      intro hle
      rw [List.countP_eq_zero]
      intro k hk
      have hlt := hm k hk
      simp only [decide_eq_true_eq]
      omega
    unfold search
    by_cases hlt : n < m
    · have hmem : n ∉ m :: ms := by
        intro hn
        rcases List.mem_cons.mp hn with rfl | hn
        · exact Nat.lt_irrefl _ hlt
        · exact Nat.lt_asymm hlt (hm n hn)
      rw [if_pos hlt, if_neg hmem, List.countP_cons_of_neg (by simpa using hlt),
        hnone (Nat.le_of_lt hlt)]
    · by_cases heq : n = m
      · subst heq
        rw [if_neg hlt, if_pos rfl, if_pos List.mem_cons_self,
          List.countP_cons_of_pos (by simp), hnone (Nat.le_refl n)]
      · have hmem : n ∈ m :: ms ↔ n ∈ ms := by simp [heq]
        have hcount : (m :: ms).countP (· ≤ n) = ms.countP (· ≤ n) + 1 :=
          List.countP_cons_of_pos (by simpa using Nat.le_of_not_lt hlt)
        rw [if_neg hlt, if_neg heq, ih hms, hcount]
        by_cases hn : n ∈ ms
        · have hpos : 0 < ms.countP (· ≤ n) := List.countP_pos_iff.mpr ⟨n, hn, by simp⟩
          rw [if_pos hn, if_pos (hmem.mpr hn)]
          simp only [Nat.add_sub_cancel, Nat.sub_add_cancel hpos]
        · rw [if_neg hn, if_neg fun h => hn (hmem.mp h)]

/-- Both answers of the search lead to the last line that starts at `pos` or before. -/
theorem lineIndex_eq (cs : List Char) (pos : Nat) :
    (ofChars cs).lineIndex pos = (ofChars cs).starts.countP (· ≤ pos) - 1 := by
  unfold lineIndex
  rw [search_eq (starts_increasing cs)]
  by_cases hpos : pos ∈ (ofChars cs).starts
  · rw [if_pos hpos]
  · rw [if_neg hpos]

theorem startsAfter_of_not_mem {cs : List Char} (h : '\n' ∉ cs) (pos : Nat) :
    startsAfter pos cs = [] := by
  rw [List.eq_nil_iff_length_eq_zero, length_startsAfter]
  exact List.count_eq_zero_of_not_mem h

theorem dropTrailingReturns_prefix (cs : List Char) : dropTrailingReturns cs <+: cs := by
  have hsuffix := List.dropWhile_suffix (l := cs.reverse) (· == '\r')
  rw [← List.reverse_prefix, List.reverse_reverse] at hsuffix
  exact hsuffix

end LineMap

namespace IsLine

open LineMap

variable {cs head line rest : List Char} {i : Nat}

/-- The starts of the lines before, this one's, and those of the lines after it. -/
theorem starts_eq (h : IsLine cs i head line rest) : ∃ earlier,
    (ofChars cs).starts =
        earlier ++ byteLength head :: startsAfter (byteLength head + byteLength line) rest ∧
      earlier.length = i ∧ ∀ n ∈ earlier, n ≤ byteLength head := by
  have hafter : startsAfter 0 cs = startsAfter 0 head ++
      startsAfter (byteLength head + byteLength line) rest := by
    rw [← h.whole, startsAfter_append, startsAfter_append, startsAfter_of_not_mem h.inner,
      List.nil_append, Nat.zero_add]
  have hstarts : (ofChars cs).starts = 0 :: startsAfter 0 cs := rfl
  rw [hstarts, hafter, ← h.index]
  rcases h.first with rfl | ⟨front, rfl⟩
  · exact ⟨[], rfl, rfl, by simp⟩
  · refine ⟨0 :: startsAfter 0 front, ?_, ?_, ?_⟩
    · simp [startsAfter_append, startsAfter]
    · simp [length_startsAfter]
    · refine List.forall_mem_cons.mpr ⟨Nat.zero_le _, fun n hn => ?_⟩
      have hbounds := startsAfter_bounds 0 front n hn
      rw [byteLength_append]
      omega

theorem start (h : IsLine cs i head line rest) :
    (ofChars cs).starts[i]? = some (byteLength head) := by
  obtain ⟨earlier, hstarts, rfl, _⟩ := h.starts_eq
  rw [hstarts]
  simp

theorem next (h : IsLine cs i head line rest) :
    (ofChars cs).starts[i + 1]? =
      (startsAfter (byteLength head + byteLength line) rest).head? := by
  obtain ⟨earlier, hstarts, rfl, _⟩ := h.starts_eq
  rw [hstarts, List.getElem?_append_right (by omega), Nat.add_sub_cancel_left,
    List.getElem?_cons_succ, List.head?_eq_getElem?]

/-- No place of a line is counted to another line. -/
theorem lineIndex (h : IsLine cs i head line rest) {pos : Nat} (hlo : byteLength head ≤ pos)
    (hhi : pos ≤ byteLength head + byteLength line) :
    search pos (ofChars cs).starts ≠ .error 0 ∧ (ofChars cs).lineIndex pos = i := by
  obtain ⟨earlier, hstarts, rfl, hearlier⟩ := h.starts_eq
  have hcount : (ofChars cs).starts.countP (· ≤ pos) = earlier.length + 1 := by
    have hbefore : earlier.countP (· ≤ pos) = earlier.length := by
      rw [List.countP_eq_length]
      intro n hn
      have hle := hearlier n hn
      simp only [decide_eq_true_eq]
      omega
    have hafter : (startsAfter (byteLength head + byteLength line) rest).countP (· ≤ pos) = 0 := by
      rw [List.countP_eq_zero]
      intro n hn
      have hbounds := startsAfter_bounds _ rest n hn
      simp only [decide_eq_true_eq]
      omega
    rw [hstarts, List.countP_append, List.countP_cons_of_pos (by simpa using hlo), hbefore, hafter]
  refine ⟨?_, by rw [lineIndex_eq, hcount, Nat.add_sub_cancel]⟩
  rw [search_eq (starts_increasing cs), hcount]
  by_cases hpos : pos ∈ (ofChars cs).starts
  · rw [if_pos hpos]
    exact fun h => by cases h
  · rw [if_neg hpos]
    exact fun h => by cases h

theorem line? (h : IsLine cs i head line rest) :
    (ofChars cs).line? i = some (dropTrailingReturns line) := by
  have hstop : ((ofChars cs).starts[i + 1]?).elim (byteLength cs) (· - 1) =
      byteLength head + byteLength line := by
    rw [h.next]
    rcases h.last with rfl | ⟨back, rfl⟩
    · rw [← h.whole]
      simp [startsAfter]
    · simp [startsAfter, Char.utf8Size]
  have hslice : slice? (byteLength head) (byteLength head + byteLength line) cs = some line := by
    rw [← h.whole]
    exact slice?_append head line rest
  have hchars : (ofChars cs).chars = cs := rfl
  simp [LineMap.line?, h.start, hchars, hstop, hslice]

theorem position? {before after : List Char} (h : IsLine cs i head (before ++ after) rest) :
    (ofChars cs).position? (byteLength head + byteLength before) =
      some (i + 1, before.length + 1) := by
  obtain ⟨_, hindex⟩ := h.lineIndex (Nat.le_add_right _ _)
    (Nat.add_le_add_left (isBoundary_append before after).le _)
  have hslice : slice? (byteLength head) (byteLength head + byteLength before) cs =
      some before := by
    rw [← h.whole, List.append_assoc]
    exact slice?_append head before (after ++ rest)
  have hchars : (ofChars cs).chars = cs := rfl
  simp [LineMap.position?, hindex, h.start, hchars, hslice]

theorem cut? (h : IsLine cs i head line rest) {s : Span} (hpos : IsBoundary cs s.pos)
    (hstop : IsBoundary cs s.stop) (hlo : byteLength head ≤ s.pos)
    (hhi : s.pos ≤ byteLength head + byteLength line) :
    ∃ cut, (ofChars cs).cut? s = some cut ∧
      cut.before ++ cut.covered ++ cut.after = dropTrailingReturns line := by
  obtain ⟨_, hindex⟩ := h.lineIndex hlo hhi
  obtain ⟨returns, hline⟩ := dropTrailingReturns_prefix line
  have hle : s.pos ≤ s.stop := Nat.le_add_right _ _
  -- both ends are boundaries from the start of the line on, and so are they when clipped
  have hclip : ∀ n, IsBoundary cs n → byteLength head ≤ n → IsBoundary (dropTrailingReturns line)
      (min (n - byteLength head) (byteLength (dropTrailingReturns line))) := by
    intro n hn hle
    rw [← h.whole] at hn
    have hdrop := hn.drop hle
    rw [← hline, List.append_assoc] at hdrop
    exact hdrop.clip
  have hhigh : min (max (s.stop - byteLength head)
        (min (s.pos - byteLength head) (byteLength (dropTrailingReturns line))))
      (byteLength (dropTrailingReturns line)) =
      min (s.stop - byteLength head) (byteLength (dropTrailingReturns line)) := by omega
  obtain ⟨before, back, hbefore, hback, hlen⟩ := (hclip s.pos hpos hlo).splitAt?
  have hrest := hclip s.stop hstop (by omega)
  rw [← hback] at hrest
  obtain ⟨covered, after, hcovered, hafter, _⟩ := (hrest.drop (by rw [hlen, hback]; omega)).splitAt?
  rw [hlen, hback] at hcovered
  refine ⟨⟨before, covered, after⟩, ?_, ?_⟩
  · simp only [LineMap.cut?, hindex, h.start, h.line?, hhigh, hbefore, hcovered,
      Option.bind_eq_bind, Option.bind_some, Option.pure_def]
  · rw [List.append_assoc, hafter, hback]

end IsLine

end Scriptlet.Text
