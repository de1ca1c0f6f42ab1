import Mathlib.Data.List.Infix
import Scriptlet.Console

/-!
# How input is cut into submissions

What a line means depends on the lines pending before it, but never on the session. So the lines of
an input fall into pieces before anything runs: blank lines, commands, and blocks that are submitted
as they stand. There is just one way to cut them, as no piece is the start of another.
-/

namespace Scriptlet.Console

open Syntax (Fragment)

/-! ## Pieces -/

def joined (lines : List String) : String := "\n".intercalate lines

def IsBlank (line : String) : Prop := Text.isBlank line.toList = true

def IsCommand (line : String) : Prop := line.toList.head? = some '#'

def Enough (lines : List String) : Prop :=
  (Fragment.parse (joined lines)).diagnostics = [] ∨ ∃ last ∈ lines.getLast?, IsBlank last

structure Unfinished (lines : List String) : Prop where
  opening : ∀ first ∈ lines.head?, ¬ IsBlank first ∧ ¬ IsCommand first
  lacking : ∀ front, front <+: lines → front ≠ [] → ¬ Enough front

structure Block (lines : List String) : Prop where
  opening : ∃ first ∈ lines.head?, ¬ IsBlank first ∧ ¬ IsCommand first
  enough : Enough lines
  shortest : ∀ front, front <+: lines → front ≠ [] → front ≠ lines → ¬ Enough front

instance : DecidablePred IsBlank := fun _ => inferInstanceAs (Decidable (_ = true))

instance : DecidablePred IsCommand := fun _ => inferInstanceAs (Decidable (_ = some '#'))

instance : DecidablePred Enough := fun lines =>
  inferInstanceAs (Decidable (_ = [] ∨ ∃ last ∈ lines.getLast?, IsBlank last))

instance : DecidablePred Unfinished := fun lines =>
  decidable_of_iff ((∀ first ∈ lines.head?, ¬ IsBlank first ∧ ¬ IsCommand first) ∧
      ∀ front ∈ lines.inits, front ≠ [] → ¬ Enough front)
    ⟨fun h => ⟨h.1, fun front hfront => h.2 front ((List.mem_inits ..).mpr hfront)⟩,
      fun h => ⟨h.opening, fun front hfront => h.lacking front ((List.mem_inits ..).mp hfront)⟩⟩

instance : DecidablePred Block := fun lines =>
  decidable_of_iff ((∃ first ∈ lines.head?, ¬ IsBlank first ∧ ¬ IsCommand first) ∧ Enough lines ∧
      ∀ front ∈ lines.inits, front ≠ [] → front ≠ lines → ¬ Enough front)
    ⟨fun h => ⟨h.1, h.2.1, fun front hfront => h.2.2 front ((List.mem_inits ..).mpr hfront)⟩,
      fun h => ⟨h.opening, h.enough,
        fun front hfront => h.shortest front ((List.mem_inits ..).mp hfront)⟩⟩

/-- What a console reads before it is ready for something new. -/
inductive Piece
  | idle (line : String)
  | command (line : String)
  | block (lines : List String)
  deriving DecidableEq, Repr

namespace Piece

def lines : Piece → List String
  | .idle line | .command line => [line]
  | .block lines => lines

def Proper : Piece → Prop
  | .idle line => IsBlank line
  | .command line => IsCommand line
  | .block lines => Block lines

end Piece

instance Piece.decidableProper : DecidablePred Proper
  | .idle line => inferInstanceAs (Decidable (IsBlank line))
  | .command line => inferInstanceAs (Decidable (IsCommand line))
  | .block lines => inferInstanceAs (Decidable (Block lines))

/-- The pieces that lines are cut into, and the lines at the end that still wait for more. -/
structure Cut (lines : List String) (pieces : List Piece) (rest : List String) : Prop where
  whole : pieces.flatMap Piece.lines ++ rest = lines
  proper : ∀ p ∈ pieces, p.Proper
  unfinished : Unfinished rest

theorem not_isBlank_of_isCommand {line : String} (h : IsCommand line) : ¬ IsBlank line := by
  unfold IsCommand at h
  unfold IsBlank Text.isBlank
  cases hc : line.toList with
  | nil => rw [hc] at h; cases h
  | cons c cs =>
    rw [hc, List.head?_cons, Option.some.injEq] at h
    subst h
    rw [List.all_cons, Bool.and_eq_true]
    exact fun hall => absurd hall.1 (by decide)

theorem unfinished_nil : Unfinished [] where
  opening _ h := by cases h
  lacking front h hne := absurd (List.prefix_nil.mp h) hne

theorem Block.exists_last {lines : List String} (h : Block lines) :
    ∃ pending last, lines = pending ++ [last] ∧ Unfinished pending := by
  obtain ⟨first, hfirst, hopening⟩ := h.opening
  have hne : lines ≠ [] := by
    rintro rfl
    cases hfirst
  obtain ⟨pending, last, rfl⟩ : ∃ pending last, lines = pending ++ [last] :=
    ⟨_, _, (List.dropLast_concat_getLast hne).symm⟩
  refine ⟨pending, last, rfl, ?_, ?_⟩
  · intro first' hfirst'
    have hsame : (pending ++ [last]).head? = some first' := by
      cases pending with
      | nil => cases hfirst'
      | cons line pending => exact hfirst'
    rw [hsame] at hfirst
    cases hfirst
    exact hopening
  · -- What is a start of all lines but the last is not the whole block.
    intro front hfront hfront'
    refine h.shortest front (hfront.trans (List.prefix_append _ _)) hfront' ?_
    rintro rfl
    have hle := hfront.length_le
    rw [List.length_append, List.length_singleton] at hle
    omega

/-- One line more for lines that wait: enough or not, they are as they should be. -/
theorem Unfinished.concat {pending : List String} {line : String} (h : Unfinished pending)
    (hopening : pending = [] → ¬ IsBlank line ∧ ¬ IsCommand line) :
    (Enough (pending ++ [line]) → Block (pending ++ [line])) ∧
      (¬ Enough (pending ++ [line]) → Unfinished (pending ++ [line])) := by
  have hfirst : ∃ first ∈ (pending ++ [line]).head?, ¬ IsBlank first ∧ ¬ IsCommand first := by
    cases pending with
    | nil => exact ⟨line, rfl, hopening rfl⟩
    | cons first pending => exact ⟨first, rfl, h.opening first rfl⟩
  refine ⟨fun henough => ⟨hfirst, henough, ?_⟩, fun hnot => ⟨?_, ?_⟩⟩
  · intro front hfront hne hproper
    rcases List.prefix_concat_iff.mp hfront with heq | hfront
    · exact absurd heq hproper
    · exact h.lacking front hfront hne
  · obtain ⟨first, hmem, hfirst⟩ := hfirst
    intro first' hmem'
    cases Option.mem_unique hmem hmem'
    exact hfirst
  · intro front hfront hne
    rcases List.prefix_concat_iff.mp hfront with rfl | hfront
    · exact hnot
    · exact h.lacking front hfront hne

/-- A line alone, or added to the lines before it, makes a piece or waits for more. -/
theorem Unfinished.piece_or_more {pending : List String} (h : Unfinished pending) (line : String) :
    (∃ p : Piece, p.Proper ∧ p.lines = pending ++ [line]) ∨ Unfinished (pending ++ [line]) := by
  by_cases hopening : pending = [] → ¬ IsBlank line ∧ ¬ IsCommand line
  · obtain ⟨hblock, hmore⟩ := h.concat hopening
    by_cases henough : Enough (pending ++ [line])
    · exact .inl ⟨.block _, hblock henough, rfl⟩
    · exact .inr (hmore henough)
  · obtain ⟨rfl, hline⟩ := Classical.not_imp.mp hopening
    by_cases hblank : IsBlank line
    · exact .inl ⟨.idle line, hblank, rfl⟩
    · have hcommand : IsCommand line := Classical.byContradiction fun hc => hline ⟨hblank, hc⟩
      exact .inl ⟨.command line, hcommand, rfl⟩

theorem Cut.cons {lines rest : List String} {pieces : List Piece} {p : Piece} (hp : p.Proper)
    (h : Cut lines pieces rest) : Cut (p.lines ++ lines) (p :: pieces) rest where
  whole := by rw [List.flatMap_cons, List.append_assoc, h.whole]
  proper := List.forall_mem_cons.mpr ⟨hp, h.proper⟩
  unfinished := h.unfinished

theorem exists_cut : ∀ {pending : List String}, Unfinished pending → ∀ lines : List String,
    ∃ pieces rest, Cut (pending ++ lines) pieces rest
  | pending, h, [] => ⟨[], pending, by simp, by simp, h⟩
  | pending, h, line :: lines => by
    have hwhole : pending ++ line :: lines = (pending ++ [line]) ++ lines := by simp
    rw [hwhole]
    rcases h.piece_or_more line with ⟨p, hp, hlines⟩ | hmore
    · obtain ⟨pieces, rest, hcut⟩ := exists_cut unfinished_nil lines
      exact ⟨p :: pieces, rest, hlines ▸ hcut.cons hp⟩
    · exact exists_cut hmore lines

/-! ## Only one way to cut -/

theorem Piece.Proper.exists_first {p : Piece} (h : p.Proper) : ∃ first ∈ p.lines.head?,
    match p with
    | .idle line => line = first ∧ IsBlank first
    | .command line => line = first ∧ ¬ IsBlank first ∧ IsCommand first
    | .block _ => ¬ IsBlank first ∧ ¬ IsCommand first := by
  cases p with
  | idle line => exact ⟨line, rfl, rfl, h⟩
  | command line => exact ⟨line, rfl, rfl, not_isBlank_of_isCommand h, h⟩
  | block lines => exact h.opening

theorem Piece.Proper.lines_ne_nil {p : Piece} (h : p.Proper) : p.lines ≠ [] := by
  obtain ⟨first, hfirst, _⟩ := h.exists_first
  intro hnil
  rw [hnil] at hfirst
  cases hfirst

theorem Piece.Proper.not_front {p : Piece} (h : p.Proper) {rest : List String}
    (hrest : Unfinished rest) : ¬ p.lines <+: rest := by
  rintro ⟨more, rfl⟩
  cases p with
  | idle line => exact (hrest.opening line rfl).1 h
  | command line => exact (hrest.opening line rfl).2 h
  | block lines => exact hrest.lacking lines (List.prefix_append _ _) h.lines_ne_nil h.enough

/-- No piece is the start of another. -/
theorem Piece.Proper.eq_of_front {p q : Piece} (hp : p.Proper) (hq : q.Proper)
    (h : p.lines <+: q.lines) : p = q := by
  obtain ⟨first, hfirst, hkind⟩ := hp.exists_first
  obtain ⟨first', hfirst', hkind'⟩ := hq.exists_first
  obtain ⟨more, hmore⟩ := h
  -- Both have the same first line, which says of which kind they are.
  have hsame : first' = first := by
    rw [← hmore] at hfirst'
    exact Option.mem_unique hfirst' (List.mem_head?_append_of_mem_head? hfirst)
  subst hsame
  cases p with
  | idle line =>
    cases q with
    | idle line' => rw [hkind.1, hkind'.1]
    | command line' => exact absurd hkind.2 hkind'.2.1
    | block lines' => exact absurd hkind.2 hkind'.1
  | command line =>
    cases q with
    | idle line' => exact absurd hkind'.2 hkind.2.1
    | command line' => rw [hkind.1, hkind'.1]
    | block lines' => exact absurd hkind.2.2 hkind'.2
  | block lines =>
    cases q with
    | idle line' => exact absurd hkind'.2 hkind.1
    | command line' => exact absurd hkind'.2.2 hkind.2
    | block lines' =>
      by_cases heq : lines = lines'
      · rw [heq]
      · exact absurd hp.enough (hq.shortest lines ⟨more, hmore⟩ hp.lines_ne_nil heq)

theorem Piece.Proper.eq_of_append {p q : Piece} (hp : p.Proper) (hq : q.Proper)
    {more more' : List String} (h : p.lines ++ more = q.lines ++ more') : p = q := by
  have hprefix : p.lines <+: q.lines ++ more' := ⟨more, h⟩
  rcases List.prefix_or_prefix_of_prefix hprefix (List.prefix_append q.lines more') with h | h
  · exact hp.eq_of_front hq h
  · exact (hq.eq_of_front hp h).symm

theorem Cut.unique : ∀ {pieces pieces' : List Piece} {lines rest rest' : List String},
    Cut lines pieces rest → Cut lines pieces' rest' → pieces' = pieces ∧ rest' = rest
  | [], [], _, _, _, h, h' => ⟨rfl, h'.whole.trans h.whole.symm⟩
  | [], q :: qs, _, rest, rest', h, h' => by
    have hwhole : q.lines ++ (qs.flatMap Piece.lines ++ rest') = rest := by
      simpa using h'.whole.trans h.whole.symm
    exact absurd ⟨_, hwhole⟩ ((h'.proper q List.mem_cons_self).not_front h.unfinished)
  | p :: ps, [], _, rest, rest', h, h' => by
    have hwhole : p.lines ++ (ps.flatMap Piece.lines ++ rest) = rest' := by
      simpa using h.whole.trans h'.whole.symm
    exact absurd ⟨_, hwhole⟩ ((h.proper p List.mem_cons_self).not_front h'.unfinished)
  | p :: ps, q :: qs, _, rest, rest', h, h' => by
    obtain ⟨hp, hps⟩ := List.forall_mem_cons.mp h.proper
    obtain ⟨hq, hqs⟩ := List.forall_mem_cons.mp h'.proper
    have hwhole := h'.whole.trans h.whole.symm
    simp only [List.flatMap_cons, List.append_assoc] at hwhole
    have hqp : q = p := hq.eq_of_append hp hwhole
    rw [hqp] at hwhole
    have hcut : Cut (ps.flatMap Piece.lines ++ rest) ps rest := ⟨rfl, hps, h.unfinished⟩
    obtain ⟨hpieces, hrest⟩ := hcut.unique
      ⟨List.append_cancel_left hwhole, hqs, h'.unfinished⟩
    exact ⟨by rw [hqp, hpieces], hrest⟩

end Scriptlet.Console
