import Mathlib.Data.List.DropRight
import Scriptlet.Proofs.Text.Lines

/-!
# Positions and lines, counted in the text

The line map told without its starts: lines are the pieces between line feeds, the line of a place
is the number of line feeds before it, and its column counts the characters after the last of them.
Positions grow with the place. A span is cut where it meets the line that it starts on.
-/

namespace Scriptlet.Text

/-! ## Characters by their offsets -/

def offsets (pos : Nat) : List Char → List (Nat × Char)
  | [] => []
  | c :: cs => (pos, c) :: offsets (pos + c.utf8Size) cs

def charsIn (lo hi : Nat) (cs : List Char) : List Char :=
  ((offsets 0 cs).filter fun p => lo ≤ p.1 ∧ p.1 < hi).map (·.2)

theorem offsets_append (pos : Nat) (cs ds : List Char) :
    offsets pos (cs ++ ds) = offsets pos cs ++ offsets (pos + byteLength cs) ds := by
  induction cs generalizing pos with
  | nil => rfl
  | cons c cs ih => simp only [List.cons_append, offsets, ih, byteLength_cons, Nat.add_assoc]

theorem offsets_bounds {pos : Nat} {cs : List Char} {p : Nat × Char} (h : p ∈ offsets pos cs) :
    pos ≤ p.1 ∧ p.1 < pos + byteLength cs := by
  induction cs generalizing pos with
  | nil => cases h
  | cons c cs ih =>
    have hsize := c.utf8Size_pos
    rw [byteLength_cons]
    rcases List.mem_cons.mp h with rfl | h
    · exact ⟨Nat.le_refl pos, by show pos < _; omega⟩
    · have hbounds := ih h
      omega

theorem map_snd_offsets (pos : Nat) (cs : List Char) : (offsets pos cs).map (·.2) = cs := by
  induction cs generalizing pos with
  | nil => rfl
  | cons c cs ih => simp only [offsets, List.map_cons, ih]

theorem filter_offsets_inside {lo hi pos : Nat} {cs : List Char} (hlo : lo ≤ pos)
    (hhi : pos + byteLength cs ≤ hi) :
    (offsets pos cs).filter (fun p => lo ≤ p.1 ∧ p.1 < hi) = offsets pos cs := by
  rw [List.filter_eq_self]
  intro p hp
  have hbounds := offsets_bounds hp
  simp only [decide_eq_true_eq]
  omega

theorem filter_offsets_outside {lo hi pos : Nat} {cs : List Char}
    (h : hi ≤ pos ∨ pos + byteLength cs ≤ lo) :
    (offsets pos cs).filter (fun p => lo ≤ p.1 ∧ p.1 < hi) = [] := by
  rw [List.filter_eq_nil_iff]
  intro p hp
  have hbounds := offsets_bounds hp
  simp only [decide_eq_true_eq]
  omega

theorem charsIn_append (front middle back : List Char) :
    charsIn (byteLength front) (byteLength front + byteLength middle)
      (front ++ (middle ++ back)) = middle := by
  unfold charsIn
  rw [offsets_append, offsets_append, List.filter_append, List.filter_append,
    filter_offsets_outside (.inr (by omega)), filter_offsets_inside (by omega) (by omega),
    filter_offsets_outside (.inl (by omega)), List.nil_append, List.append_nil, map_snd_offsets]

theorem charsIn_of_le {lo hi : Nat} (h : hi ≤ lo) (cs : List Char) : charsIn lo hi cs = [] := by
  unfold charsIn
  rw [List.map_eq_nil_iff, List.filter_eq_nil_iff]
  intro p _
  simp only [decide_eq_true_eq]
  omega

theorem eq_nil_of_byteLength {cs : List Char} (h : byteLength cs = 0) : cs = [] := by
  cases cs with
  | nil => rfl
  | cons c cs =>
    have hsize := c.utf8Size_pos
    rw [byteLength_cons] at h
    omega

/-! ## Pieces between line feeds -/

theorem length_splitOn (cs : List Char) : (cs.splitOn '\n').length = cs.count '\n' + 1 := by
  induction cs with
  | nil => rfl
  | cons c cs ih =>
    rw [List.splitOn_cons_eq_if_modifyHead, List.count_cons]
    by_cases hc : (c == '\n') = true
    · simp only [if_pos hc, List.length_cons, ih]
    · simp only [if_neg hc, List.length_modifyHead, ih, Nat.add_zero]

namespace IsLine

variable {cs head line rest : List Char} {i : Nat}

theorem piece (h : IsLine cs i head line rest) : (cs.splitOn '\n')[i]? = some line := by
  obtain ⟨later, hlater⟩ : ∃ later, (line ++ rest).splitOn '\n' = line :: later := by
    rcases h.last with rfl | ⟨back, rfl⟩
    · exact ⟨[], by rw [List.append_nil, List.splitOn_eq_singleton h.inner]⟩
    · exact ⟨_, List.splitOn_append_cons_self_of_not_mem h.inner back⟩
  rw [← h.whole, ← h.index]
  rcases h.first with rfl | ⟨front, rfl⟩
  · rw [List.nil_append, hlater]
    rfl
  · have hfront : (front ++ ['\n'] ++ (line ++ rest)).splitOn '\n' =
        front.splitOn '\n' ++ line :: later := by
      rw [List.append_assoc, List.singleton_append, List.splitOn_append_cons_self, hlater]
    have hcount : (front ++ ['\n']).count '\n' = (front.splitOn '\n').length := by
      rw [length_splitOn, List.count_append, List.count_singleton_self]
    rw [hfront, hcount, List.getElem?_append_right (Nat.le_refl _), Nat.sub_self]
    rfl

end IsLine

/-! ## Line feeds before a place -/

/-- The last line feed of a text parts it into what goes up to it and what comes after it. -/
theorem parted_at_last {head before : List Char}
    (hhead : head = [] ∨ ∃ front, head = front ++ ['\n']) (hbefore : '\n' ∉ before) :
    (head ++ before).rdropWhile (· != '\n') = head ∧
      (head ++ before).rtakeWhile (· != '\n') = before := by
  have hall : ∀ c ∈ before.reverse, (c != '\n') = true := by
    intro c hc
    rw [bne_iff_ne]
    rintro rfl
    exact hbefore (List.mem_reverse.mp hc)
  unfold List.rdropWhile List.rtakeWhile
  rw [List.reverse_append, List.dropWhile_append_of_pos hall, List.takeWhile_append_of_pos hall]
  rcases hhead with rfl | ⟨front, rfl⟩
  · simp
  · simp

theorem exists_front : ∀ (cs : List Char) (i : Nat), i ≤ cs.count '\n' →
    ∃ front back, front ++ back = cs ∧ front.count '\n' = i
  | cs, 0, _ => ⟨[], cs, rfl, rfl⟩
  | [], i + 1, h => by simp at h
  | c :: cs, i + 1, h => by
    by_cases hc : c = '\n'
    · subst hc
      obtain ⟨front, back, rfl, rfl⟩ := exists_front cs i (by simpa using h)
      exact ⟨'\n' :: front, back, rfl, by simp⟩
    · rw [List.count_cons_of_ne hc] at h
      obtain ⟨front, back, rfl, hcount⟩ := exists_front cs (i + 1) h
      exact ⟨c :: front, back, rfl, by rw [List.count_cons_of_ne hc, hcount]⟩

/-- The line of the place after `front`, with its start and the part of it before the place. -/
theorem exists_line_at (front back : List Char) : ∃ after rest, back = after ++ rest ∧
    IsLine (front ++ back) (front.count '\n') (front.rdropWhile (· != '\n'))
      (front.rtakeWhile (· != '\n') ++ after) rest := by
  obtain ⟨head, before, after, rest, rfl, rfl, hline⟩ := exists_isLine front back
  have hbefore : '\n' ∉ before := fun h => hline.inner (List.mem_append_left _ h)
  obtain ⟨hhead, htail⟩ := parted_at_last hline.first hbefore
  rw [hhead, htail]
  exact ⟨after, rest, rfl, hline⟩

theorem byteLength_parted (front : List Char) :
    byteLength (front.rdropWhile (· != '\n')) + byteLength (front.rtakeWhile (· != '\n')) =
      byteLength front := by
  rw [← byteLength_append, List.rdropWhile_append_rtakeWhile]

namespace LineMap

/-! ## Positions -/

def positionOf (front : List Char) : Nat × Nat :=
  (front.count '\n' + 1, (front.rtakeWhile (· != '\n')).length + 1)

theorem lineIndex_front (front back : List Char) :
    (ofChars (front ++ back)).lineIndex (byteLength front) = front.count '\n' := by
  obtain ⟨after, rest, rfl, hline⟩ := exists_line_at front back
  have hlength := byteLength_parted front
  refine (hline.lineIndex ?_ ?_).2
  · omega
  · rw [byteLength_append]
    omega

theorem position?_front (front back : List Char) :
    (ofChars (front ++ back)).position? (byteLength front) = some (positionOf front) := by
  obtain ⟨after, rest, rfl, hline⟩ := exists_line_at front back
  have hposition := hline.position?
  rw [byteLength_parted] at hposition
  exact hposition

theorem positionOf_lt (front : List Char) {more : List Char} (hmore : more ≠ []) :
    Prod.Lex (· < ·) (· < ·) (positionOf front) (positionOf (front ++ more)) := by
  rw [Prod.lex_def]
  simp only [positionOf, List.count_append]
  by_cases hfeed : '\n' ∈ more
  · have hcount := List.count_pos_iff.mpr hfeed
    exact .inl (by omega)
  · -- The place stays on the line, and the characters between are more in the column.
    obtain ⟨head, before, rfl, hhead, hbefore⟩ := exists_head front
    have hlonger : '\n' ∉ before ++ more := by simp [hbefore, hfeed]
    have hlength := List.length_pos_iff.mpr hmore
    rw [(parted_at_last hhead hbefore).2, List.append_assoc, (parted_at_last hhead hlonger).2,
      List.count_eq_zero_of_not_mem hfeed, List.length_append]
    exact .inr ⟨rfl, by omega⟩

theorem position?_increasing {cs : List Char} {p q : Nat} (hp : IsBoundary cs p)
    (hq : IsBoundary cs q) (hlt : p < q) : ∃ a b, (ofChars cs).position? p = some a ∧
      (ofChars cs).position? q = some b ∧ Prod.Lex (· < ·) (· < ·) a b := by
  obtain ⟨front, back, rfl, rfl⟩ := hp
  obtain ⟨more, later, rfl, hlength⟩ := hq.drop (Nat.le_of_lt hlt)
  have hmore : more ≠ [] := by
    rintro rfl
    rw [byteLength_nil] at hlength
    omega
  have hstop : q = byteLength (front ++ more) := by
    rw [byteLength_append]
    omega
  refine ⟨_, _, position?_front front (more ++ later), ?_, positionOf_lt front hmore⟩
  rw [hstop, ← List.append_assoc]
  exact position?_front (front ++ more) later

/-! ## Lines -/

theorem lineCount_eq (cs : List Char) : (ofChars cs).lineCount = cs.count '\n' + 1 := by
  show (startsAfter 0 cs).length + 1 = _
  rw [length_startsAfter]

theorem line?_eq (cs : List Char) (i : Nat) :
    (ofChars cs).line? i = (cs.splitOn '\n')[i]?.map (·.rdropWhile (· == '\r')) := by
  by_cases hi : i ≤ cs.count '\n'
  · obtain ⟨front, back, rfl, rfl⟩ := exists_front cs i hi
    obtain ⟨after, rest, _, hline⟩ := exists_line_at front back
    rw [hline.line?, hline.piece]
    rfl
  · have hpieces : (cs.splitOn '\n')[i]? = none := by
      rw [List.getElem?_eq_none_iff, length_splitOn]
      omega
    have hstarts : (ofChars cs).starts[i]? = none := by
      have hcount : (ofChars cs).starts.length = cs.count '\n' + 1 := lineCount_eq cs
      rw [List.getElem?_eq_none_iff, hcount]
      omega
    rw [hpieces, LineMap.line?, hstarts]
    rfl

/-! ## Cuts -/

theorem cut?_eq_some {m : LineMap} {s : Span} {cut : Cut} {start : Nat} {line : List Char}
    (hcut : m.cut? s = some cut) (hstart : m.starts[m.lineIndex s.pos]? = some start)
    (hline : m.line? (m.lineIndex s.pos) = some line) :
    cut.before ++ (cut.covered ++ cut.after) = line ∧
      byteLength cut.before = min (s.pos - start) (byteLength line) ∧
      byteLength cut.before + byteLength cut.covered =
        min (max (s.stop - start) (byteLength cut.before)) (byteLength line) := by
  simp only [LineMap.cut?, hstart, hline, Option.bind_eq_bind, Option.bind_some,
    Option.bind_eq_some_iff, Prod.exists, Option.pure_def, Option.some.injEq] at hcut
  obtain ⟨before, back, hbefore, covered, after, hcovered, rfl⟩ := hcut
  obtain ⟨hwhole, hlo⟩ := append_of_splitAt? hbefore
  obtain ⟨hrest, hhi⟩ := append_of_splitAt? hcovered
  refine ⟨by rw [hrest, hwhole], hlo, ?_⟩
  simp only [hlo, hhi]
  omega

/-- A span that starts after `front` covers what it has in common with its line. -/
theorem cut?_front (front back : List Char) {s : Span} (hpos : s.pos = byteLength front)
    (hstop : IsBoundary (front ++ back) s.stop) :
    let start := byteLength (front.rdropWhile (· != '\n'))
    ∃ cut line, (ofChars (front ++ back)).cut? s = some cut ∧
      (ofChars (front ++ back)).line? (front.count '\n') = some line ∧
      cut.before ++ cut.covered ++ cut.after = line ∧
      cut.covered = charsIn (max s.pos start) (min s.stop (start + byteLength line))
        (front ++ back) := by
  intro start
  have hparted := byteLength_parted front
  have hindex := lineIndex_front front back
  have hlo : start ≤ s.pos := by omega
  obtain ⟨after, rest, hback, hline⟩ := exists_line_at front back
  have hhi : s.pos ≤ start + byteLength (front.rtakeWhile (· != '\n') ++ after) := by
    rw [byteLength_append]
    omega
  have hfront : IsBoundary (front ++ back) s.pos := ⟨front, back, rfl, hpos.symm⟩
  obtain ⟨cut, hcut, hwhole⟩ := hline.cut? hfront hstop hlo hhi
  refine ⟨cut, _, hcut, hline.line?, hwhole, ?_⟩
  have hstart := hline.start
  have htrimmed := hline.line?
  rw [← hindex, ← hpos] at hstart htrimmed
  obtain ⟨hparts, hbefore, hcovered⟩ := cut?_eq_some hcut hstart htrimmed
  obtain ⟨returns, hreturns⟩ :=
    dropTrailingReturns_prefix (front.rtakeWhile (· != '\n') ++ after)
  generalize dropTrailingReturns (front.rtakeWhile (· != '\n') ++ after) = line at *
  have htext : front ++ back = front.rdropWhile (· != '\n') ++ cut.before ++
      (cut.covered ++ (cut.after ++ (returns ++ rest))) := by
    rw [← hline.whole, ← hreturns, ← hparts]
    simp only [List.append_assoc]
  have hchars := charsIn_append (front.rdropWhile (· != '\n') ++ cut.before) cut.covered
    (cut.after ++ (returns ++ rest))
  rw [← htext, byteLength_append, Nat.add_assoc, hcovered] at hchars
  have hle : s.pos ≤ s.stop := Nat.le_add_right _ _
  have hmax : max s.pos start = s.pos := Nat.max_eq_left hlo
  rw [hmax]
  by_cases hinside : s.pos - start ≤ byteLength line
  · have hfirst : byteLength (front.rdropWhile (· != '\n')) + byteLength cut.before = s.pos := by
      omega
    have hlast : byteLength (front.rdropWhile (· != '\n')) +
        min (max (s.stop - start) (byteLength cut.before)) (byteLength line) =
        min s.stop (start + byteLength line) := by omega
    rw [hfirst, hlast] at hchars
    exact hchars.symm
  · -- The span starts among the carriage returns at the end of the line.
    rw [charsIn_of_le (by omega)]
    apply eq_nil_of_byteLength
    omega

end LineMap

/-- Where a place stands in a text, by the line feeds before it; what the lines are; and how a span
cuts the line that it starts on. -/
theorem places_and_lines (text : String) :
    let cs := text.toList
    let m := LineMap.ofText text
    (∀ front back, front ++ back = cs →
      m.lineIndex (byteLength front) = front.count '\n' ∧
      m.position? (byteLength front) =
        some (front.count '\n' + 1, (front.rtakeWhile (· != '\n')).length + 1)) ∧
    (∀ p q, IsBoundary cs p → IsBoundary cs q → p < q → ∃ a b, m.position? p = some a ∧
      m.position? q = some b ∧ Prod.Lex (· < ·) (· < ·) a b) ∧
    (∀ p q, IsBoundary cs p → IsBoundary cs q → m.position? p = m.position? q → p = q) ∧
    m.lineCount = cs.count '\n' + 1 ∧
    (∀ i, m.line? i = (cs.splitOn '\n')[i]?.map (·.rdropWhile (· == '\r'))) ∧
    ∀ (s : Span) (front back : List Char), front ++ back = cs → s.pos = byteLength front →
      IsBoundary cs s.stop →
      let start := byteLength (front.rdropWhile (· != '\n'))
      ∃ cut line, m.cut? s = some cut ∧ m.line? (m.lineIndex s.pos) = some line ∧
        cut.before ++ cut.covered ++ cut.after = line ∧
        cut.covered = charsIn (max s.pos start) (min s.stop (start + byteLength line)) cs := by
  intro cs m
  have hincreasing : ∀ p q, IsBoundary cs p → IsBoundary cs q → p < q →
      ∃ a b, m.position? p = some a ∧ m.position? q = some b ∧ Prod.Lex (· < ·) (· < ·) a b :=
    fun p q hp hq => LineMap.position?_increasing hp hq
  have hapart : ∀ p q, IsBoundary cs p → IsBoundary cs q → p < q →
      m.position? p ≠ m.position? q := by
    intro p q hp hq hlt heq
    obtain ⟨a, b, ha, hb, hab⟩ := hincreasing p q hp hq hlt
    rw [ha, hb] at heq
    cases heq
    rw [Prod.lex_def] at hab
    omega
  refine ⟨?_, hincreasing, ?_, LineMap.lineCount_eq cs, LineMap.line?_eq cs, ?_⟩
  · intro front back hwhole
    have hm : m = LineMap.ofChars (front ++ back) := by rw [hwhole]; rfl
    rw [hm]
    exact ⟨LineMap.lineIndex_front front back, LineMap.position?_front front back⟩
  · intro p q hp hq heq
    rcases Nat.lt_trichotomy p q with hlt | rfl | hlt
    · exact absurd heq (hapart p q hp hq hlt)
    · rfl
    · exact absurd heq.symm (hapart q p hq hp hlt)
  · intro s front back hwhole hpos hstop start
    have hm : m = LineMap.ofChars (front ++ back) := by rw [hwhole]; rfl
    rw [hm, hpos, LineMap.lineIndex_front, ← hwhole, ← hpos]
    rw [← hwhole] at hstop
    exact LineMap.cut?_front front back hpos hstop

/-- A span from within the first line into the second covers neither the carriage returns of the
first line nor anything of the second. -/
theorem span_over_returns_cut :
    let text := "aé\r\r\nb"
    let m := LineMap.ofText text
    let s : Span := ⟨1, 6⟩
    m.position? 7 = some (2, 2) ∧ IsBoundary text.toList s.stop ∧
      ∃ cut, m.cut? s = some cut ∧ cut.before ++ cut.covered ++ cut.after = ['a', 'é'] ∧
        cut.covered = ['é'] := by
  intro text m s
  have hstop : IsBoundary text.toList s.stop := ⟨text.toList, [], by simp, by decide⟩
  have hline : m.line? (m.lineIndex s.pos) = some ['a', 'é'] := by decide
  obtain ⟨hplace, _, _, _, _, hcut⟩ := places_and_lines text
  obtain ⟨cut, line, hsome, hline', hwhole, hcovered⟩ :=
    hcut s ['a'] ['é', '\r', '\r', '\n', 'b'] (by decide) (by decide) hstop
  cases hline.symm.trans hline'
  have hlength : byteLength text.toList = 7 := by decide
  have hend := (hplace text.toList [] (by simp)).2
  rw [hlength] at hend
  have hnumbers : (text.toList.count '\n' + 1,
      (text.toList.rtakeWhile (· != '\n')).length + 1) = (2, 2) := by decide
  rw [hnumbers] at hend
  exact ⟨hend, hstop, cut, hsome, hwhole, hcovered.trans (by decide)⟩

end Scriptlet.Text
