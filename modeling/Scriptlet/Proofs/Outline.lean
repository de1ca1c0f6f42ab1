import Scriptlet.Outline
import Scriptlet.Proofs.Text.Lines

/-!
# Drawings tell trees apart

Every node of a tree has a line in its drawing, and the indent of the line shows how deep the node
is. The depths and labels of the nodes, parents first, are enough to put the tree together again.
-/

namespace Scriptlet.Outline

open Text (OneLine)

/-! ## Rows -/

mutual

def rows (depth : Nat) : Outline → List (Nat × String)
  | node label children => (depth, label) :: rowsAll (depth + 1) children

def rowsAll (depth : Nat) : List Outline → List (Nat × String)
  | [] => []
  | o :: os => rows depth o ++ rowsAll depth os

end

def EndsAt (depth : Nat) (rest : List (Nat × String)) : Prop := ∀ r ∈ rest.head?, r.1 < depth

theorem EndsAt.rowsAll {depth : Nat} {rest : List (Nat × String)} (h : EndsAt depth rest) :
    ∀ os : List Outline, EndsAt (depth + 1) (Outline.rowsAll depth os ++ rest)
  | [] => fun r hr => Nat.lt_succ_of_lt (h r hr)
  | .node _ _ :: _ => by
    intro r hr
    cases hr
    exact Nat.lt_succ_self depth

/-- Rows show where a forest ends and what it is. The children of the first node are a forest one
deeper, which ends where the row of its next sibling is. -/
theorem rowsAll_append_inj : ∀ (os os' : List Outline) {depth : Nat}
    {rest rest' : List (Nat × String)}, EndsAt depth rest → EndsAt depth rest' →
    rowsAll depth os ++ rest = rowsAll depth os' ++ rest' → os = os' ∧ rest = rest'
  | [], [], _, _, _, _, _, h => ⟨rfl, h⟩
  | [], .node label' _ :: _, depth, rest, _, hrest, _, h => by
    have hfirst : rest.head? = some (depth, label') := congrArg List.head? h
    exact absurd (hrest _ hfirst) (Nat.lt_irrefl depth)
  | .node label _ :: _, [], depth, _, rest', _, hrest', h => by
    have hfirst : rest'.head? = some (depth, label) := congrArg List.head? h.symm
    exact absurd (hrest' _ hfirst) (Nat.lt_irrefl depth)
  | .node label children :: os, .node label' children' :: os', depth, rest, rest', hrest,
      hrest', h => by
    simp only [rowsAll, rows, List.cons_append, List.append_assoc, List.cons.injEq, Prod.mk.injEq,
      true_and] at h
    obtain ⟨hchildren, hlater⟩ := rowsAll_append_inj children children' (hrest.rowsAll os)
      (hrest'.rowsAll os') h.2
    obtain ⟨hsiblings, hend⟩ := rowsAll_append_inj os os' hrest hrest' hlater
    exact ⟨by rw [h.1, hchildren, hsiblings], hend⟩

theorem eq_of_rows {o o' : Outline} (h : o.rows 0 = o'.rows 0) : o = o' := by
  have hnil : EndsAt 0 [] := nofun
  obtain ⟨hsame, _⟩ := rowsAll_append_inj [o] [o'] hnil hnil (by simp [rowsAll, h])
  exact List.singleton_inj.mp hsame

/-! ## Lines -/

/-- The depth that the indent of a line shows, and what comes after its mark. -/
def readChars : List Char → Nat × List Char
  | ' ' :: ' ' :: ' ' :: ' ' :: cs | '│' :: ' ' :: ' ' :: ' ' :: cs =>
    ((readChars cs).1 + 1, (readChars cs).2)
  | cs => (0, cs.drop 3)

def readRow (line : String) : Nat × String :=
  ((readChars line.toList).1, String.ofList (readChars line.toList).2)

def Indents (depth : Nat) (indent : String) : Prop :=
  OneLine indent ∧ ∀ cs, readChars (indent.toList ++ cs) =
    ((readChars cs).1 + depth, (readChars cs).2)

theorem indents_empty : Indents 0 "" := ⟨by decide, fun _ => rfl⟩

theorem Indents.inset {depth : Nat} {indent : String} (h : Indents depth indent) (last : Bool) :
    Indents (depth + 1) (indent ++ Outline.inset last) := by
  have hinset : OneLine (Outline.inset last) := by cases last <;> decide
  refine ⟨h.1.append hinset, fun cs => ?_⟩
  have hone : readChars ((Outline.inset last).toList ++ cs) =
      ((readChars cs).1 + 1, (readChars cs).2) := by
    cases last <;> rfl
  rw [String.toList_append, List.append_assoc, h.2, hone]
  simp only [Nat.add_assoc, Nat.add_comm 1 depth]

theorem Indents.readRow {depth : Nat} {indent : String} (h : Indents depth indent) (last : Bool)
    (label : String) : Outline.readRow (indent ++ mark last ++ label) = (depth, label) := by
  have hmark : readChars ((mark last).toList ++ label.toList) = (0, label.toList) := by
    cases last <;> rfl
  unfold Outline.readRow
  rw [String.append_assoc, String.toList_append, String.toList_append, h.2, hmark]
  simp

mutual

theorem lines_read : ∀ (o : Outline) {depth : Nat} {indent : String} (last : Bool),
    Indents depth indent → (lines indent last o).map readRow = rows depth o
  | .node label children, depth, indent, last, h => by
    rw [lines, rows, List.map_cons, h.readRow, linesAll_read children (h.inset last)]

theorem linesAll_read : ∀ (os : List Outline) {depth : Nat} {indent : String},
    Indents depth indent → (linesAll indent os).map readRow = rowsAll depth os
  | [], _, _, _ => rfl
  | o :: os, _, _, h => by
    rw [linesAll, rowsAll, List.map_append, lines_read o _ h, linesAll_read os h]

end

/-! ## Drawings -/

def Plain (o : Outline) : Prop := ∀ r ∈ o.rows 0, OneLine r.2

mutual

theorem rows_succ : ∀ (o : Outline) (depth : Nat),
    o.rows (depth + 1) = (o.rows depth).map fun r => (r.1 + 1, r.2)
  | .node label children, depth => by
    rw [rows, rows, List.map_cons, rowsAll_succ children]

theorem rowsAll_succ : ∀ (os : List Outline) (depth : Nat),
    rowsAll (depth + 1) os = (rowsAll depth os).map fun r => (r.1 + 1, r.2)
  | [], _ => rfl
  | o :: os, depth => by rw [rowsAll, rowsAll, List.map_append, rows_succ o, rowsAll_succ os]

end

theorem forall_rowsAll {depth : Nat} {P : Nat × String → Prop} : ∀ {os : List Outline},
    (∀ r ∈ rowsAll depth os, P r) ↔ ∀ o ∈ os, ∀ r ∈ o.rows depth, P r
  | [] => by simp [rowsAll]
  | o :: os => by rw [rowsAll, List.forall_mem_append, List.forall_mem_cons, forall_rowsAll]

theorem plain_node_iff {label : String} {children : List Outline} :
    (node label children).Plain ↔ OneLine label ∧ ∀ o ∈ children, o.Plain := by
  unfold Plain
  rw [rows, List.forall_mem_cons, forall_rowsAll]
  simp only [rows_succ, List.forall_mem_map]

mutual

theorem oneLine_lines : ∀ (o : Outline) {depth : Nat} {indent : String} (last : Bool),
    Indents depth indent → (∀ r ∈ rows depth o, OneLine r.2) →
    ∀ line ∈ lines indent last o, OneLine line
  | .node label children, depth, indent, last, h, hrows => by
    rw [rows, List.forall_mem_cons] at hrows
    have hmark : OneLine (mark last) := by cases last <;> decide
    rw [lines, List.forall_mem_cons]
    exact ⟨(h.1.append hmark).append hrows.1,
      oneLine_linesAll children (h.inset last) hrows.2⟩

theorem oneLine_linesAll : ∀ (os : List Outline) {depth : Nat} {indent : String},
    Indents depth indent → (∀ r ∈ rowsAll depth os, OneLine r.2) →
    ∀ line ∈ linesAll indent os, OneLine line
  | [], _, _, _, _ => nofun
  | o :: os, _, _, h, hrows => by
    rw [rowsAll, List.forall_mem_append] at hrows
    rw [linesAll, List.forall_mem_append]
    exact ⟨oneLine_lines o _ h hrows.1, oneLine_linesAll os h hrows.2⟩

end

/-- The drawing has a line for each row, and nothing else. -/
theorem Plain.draw_eq {o : Outline} (h : o.Plain) : ∃ ls : List String,
    o.draw = String.join (ls.map (· ++ "\n")) ∧ (∀ line ∈ ls, OneLine line) ∧
      ls.map readRow = o.rows 0 :=
  ⟨lines "" true o, rfl, oneLine_lines o true indents_empty h, lines_read o true indents_empty⟩

theorem splitOn_join : ∀ {ls : List String}, (∀ line ∈ ls, OneLine line) →
    (String.join (ls.map (· ++ "\n"))).toList.splitOn '\n' = ls.map String.toList ++ [[]]
  | [], _ => rfl
  | line :: ls, h => by
    obtain ⟨hline, hls⟩ := List.forall_mem_cons.mp h
    have hchars : (String.join ((line :: ls).map (· ++ "\n"))).toList =
        line.toList ++ '\n' :: (String.join (ls.map (· ++ "\n"))).toList := by
      rw [List.map_cons, String.join_cons, String.toList_append, String.toList_append,
        List.append_assoc]
      rfl
    rw [hchars, List.splitOn_append_cons_self_of_not_mem hline, splitOn_join hls]
    rfl

theorem rows_of_draw {o o' : Outline} (ho : o.Plain) (ho' : o'.Plain) (h : o.draw = o'.draw) :
    o.rows 0 = o'.rows 0 := by
  obtain ⟨ls, hdraw, hls, hrows⟩ := ho.draw_eq
  obtain ⟨ls', hdraw', hls', hrows'⟩ := ho'.draw_eq
  have hsplit : ls.map String.toList ++ [[]] = ls'.map String.toList ++ [[]] := by
    rw [← splitOn_join hls, ← splitOn_join hls', ← hdraw, ← hdraw', h]
  have hlines : ls = ls' :=
    (List.map_inj_right fun _ _ => String.toList_inj.mp).mp (List.append_cancel_right hsplit)
  rw [← hrows, ← hrows', hlines]

end Scriptlet.Outline
