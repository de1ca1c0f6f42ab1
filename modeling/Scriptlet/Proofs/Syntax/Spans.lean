import Scriptlet.Proofs.Syntax.Accounting
import Scriptlet.Proofs.Text.Lines

/-!
# Places of tokens, trees and reports

Tokens stand between boundaries of the text, one after the other. A placeholder stands where the
token at hand starts, so it fits the text too, and so does every phrase, however little was read for
it. Reports of the lexer and of the grammar follow the text.
-/

namespace Scriptlet

inductive Fault.Stage
  | lexical
  | grammar
  | binding
  deriving DecidableEq, Repr

def Fault.stage : Fault → Fault.Stage
  | .badCharacter _ | .invalidNumber _ _ => .lexical
  | .unexpectedToken _ _ => .grammar
  | .undefinedName _ | .alreadyDeclared _ | .cannotConvert _ _ | .cannotAssign _
  | .undefinedUnary _ _ | .undefinedBinary _ _ _ => .binding

namespace Token

open Text

/-! ## Tokens -/

structure Placed (text : String) (t : Token) : Prop where
  fits : t.span.Fits text
  plain : OneLine t.text

theorem tokens_fit {text : String} (hlen : byteLength text.toList < Span.lengthBound) :
    ∀ t ∈ tokens text, t.span.Fits text :=
  fun t ht => .of_slice? (tokens_slices hlen t ht)

theorem tokens_placed {text : String} (hlen : byteLength text.toList < Span.lengthBound) {t : Token}
    (ht : t ∈ tokens text) (hblank : t.kind ≠ .whitespace) : t.Placed text := by
  refine ⟨tokens_fit hlen t ht, fun hfeed => ?_⟩
  obtain ⟨rest, hmunch⟩ := tokens_munch hlen ht
  have hfalse := hmunch.isWhitespace_eq '\n' hfeed
  rw [decide_eq_false hblank] at hfalse
  revert hfalse
  decide

theorem significantTokens_placed {text : String}
    (hlen : byteLength text.toList < Span.lengthBound) :
    ∀ t ∈ significantTokens text, t.Placed text := by
  intro t ht
  obtain ⟨hmem, hsignificant⟩ := List.mem_filter.mp ht
  simp only [isSignificant, Bool.and_eq_true, bne_iff_ne] at hsignificant
  exact tokens_placed hlen hmem hsignificant.1

theorem Lexeme.all_increasing {p : Place} {cs : List Char} (h : p.Level cs) :
    (all p cs).Pairwise (·.token.span.pos < ·.token.span.pos) ∧
      ∀ l ∈ all p cs, p.pos ≤ l.token.span.pos := by
  fun_induction all p cs with
  | case1 => simp
  | case2 p c cs step ih =>
    obtain ⟨chars, _, hmunch, hsound, hlevel⟩ := read_munch h
    have hchars : 0 < byteLength chars := by
      obtain ⟨d, chars', rfl⟩ := List.exists_cons_of_ne_nil hmunch.ne_nil
      have hsize := d.utf8Size_pos
      rw [byteLength_cons]
      omega
    obtain ⟨hpairs, hlater⟩ := ih hlevel
    have hfirst : (read p c cs).1.token.span.pos = p.pos := congrArg Span.pos hsound.span
    have hafter : ∀ l ∈ all (p.move step.1.token.span.len) step.2, p.pos < l.token.span.pos := by
      intro l hl
      have hle : (p.move (read p c cs).1.token.span.len).pos ≤ l.token.span.pos := hlater l hl
      rw [hsound.pos_move] at hle
      omega
    refine ⟨List.pairwise_cons.mpr ⟨fun l hl => ?_, hpairs⟩, List.forall_mem_cons.mpr ⟨?_, ?_⟩⟩
    · exact hfirst.symm ▸ hafter l hl
    · exact Nat.le_of_eq hfirst.symm
    · exact fun l hl => Nat.le_of_lt (hafter l hl)

theorem tokens_increasing {text : String} (hlen : byteLength text.toList < Span.lengthBound) :
    (tokens text).Pairwise (·.span.pos < ·.span.pos) :=
  List.pairwise_map.mpr (Lexeme.all_increasing (Place.level_start hlen)).1

/-! ## Reports of the lexer -/

theorem span_of_fault? {t : Token} {d : Diagnostic} (h : fault? t = some d) :
    d.span = t.span ∧ d.fault.stage = .lexical := by
  unfold fault? at h
  split at h
  · obtain ⟨c, _, rfl⟩ := Option.map_eq_some_iff.mp h
    exact ⟨rfl, rfl⟩
  · split at h
    · cases h
      exact ⟨rfl, rfl⟩
    · cases h
  · cases h

theorem lexicalReports_increasing {text : String}
    (hlen : byteLength text.toList < Span.lengthBound) :
    (lexicalReports text).Pairwise (·.span.pos < ·.span.pos) := by
  rw [lexicalReports_eq hlen]
  refine (tokens_increasing hlen).filterMap fault? fun t u htu d hd d' hd' => ?_
  rw [(span_of_fault? hd).1, (span_of_fault? hd').1]
  exact htu

end Token

namespace Syntax

open Text
open Token (significantTokens stopOf)

/-! ## Phrases -/

section
variable {text : String}

mutual

theorem Node.span_fits (hlen : byteLength text.toList < Span.lengthBound) : ∀ n : Node,
    (∀ t ∈ n.tokens, t.span.Fits text) → n.span.Fits text
  | .token t, h => h t (by simp [Node.tokens])
  | .phrase _ first rest, h => by
    obtain ⟨hfirst, hrest⟩ := List.forall_mem_append.mp h
    have hspan := Node.span_fits hlen first hfirst
    exact hspan.cover hlen (Node.lastSpan_fits hlen hspan rest hrest)

theorem Node.lastSpan_fits (hlen : byteLength text.toList < Span.lengthBound) {s : Span}
    (hs : s.Fits text) : ∀ ns : List Node,
    (∀ t ∈ Node.tokensAll ns, t.span.Fits text) → (Node.lastSpan s ns).Fits text
  | [], _ => hs
  | n :: ns, h => by
    obtain ⟨hn, hns⟩ := List.forall_mem_append.mp h
    exact Node.lastSpan_fits hlen (Node.span_fits hlen n hn) ns hns

end

theorem Expr.span_fits (hlen : byteLength text.toList < Span.lengthBound) {e : Expr}
    (h : ∀ t ∈ e.tokens, t.Placed text) : e.span.Fits text :=
  Node.span_fits hlen e.node fun t ht => (h t ht).fits

end

/-! ## What reading enters and reports -/

theorem current_mem (stop : Nat) (ts : List Token) : current stop ts ∈ ts ++ [.eofAt stop] := by
  cases ts with
  | nil => exact List.mem_cons_self
  | cons t ts => exact List.mem_cons_self

namespace Takes

variable {stop : Nat} {ts rest : List Token} {es : List Entry} {ds : List Diagnostic}

/-- A leaf is a token that was given, or a placeholder where one starts. -/
theorem leaf_cases (h : Takes stop ts es rest ds) : ∀ t ∈ es.filterMap Entry.leaf?,
    t ∈ ts ∨ ∃ kind, ∃ u ∈ ts ++ [.eofAt stop], t = .missing kind u.span.pos := by
  induction h with
  | nil => simp
  | @leaf t ts _ _ _ _ ih =>
    refine List.forall_mem_cons.mpr ⟨.inl List.mem_cons_self, fun u hu => ?_⟩
    rcases ih u hu with hu | ⟨kind, v, hv, rfl⟩
    · exact .inl (List.mem_cons_of_mem _ hu)
    · exact .inr ⟨kind, v, List.mem_cons_of_mem _ hv, rfl⟩
  | dropped _ ih =>
    intro u hu
    rcases ih u hu with hu | ⟨kind, v, hv, rfl⟩
    · exact .inl (List.mem_cons_of_mem _ hu)
    · exact .inr ⟨kind, v, List.mem_cons_of_mem _ hv, rfl⟩
  | @missing kind ts _ _ _ _ _ ih =>
    exact List.forall_mem_cons.mpr ⟨.inr ⟨kind, _, current_mem stop ts, rfl⟩, ih⟩

theorem report_cases (h : Takes stop ts es rest ds) :
    ∀ d ∈ ds, ∃ kind, ∃ u ∈ ts ++ [.eofAt stop], d = unexpected u kind := by
  induction h with
  | nil => simp
  | leaf _ ih | dropped _ ih =>
    intro d hd
    obtain ⟨kind, u, hu, rfl⟩ := ih d hd
    exact ⟨kind, u, List.mem_cons_of_mem _ hu, rfl⟩
  | @missing kind ts _ _ _ _ _ ih =>
    exact List.forall_mem_cons.mpr ⟨⟨kind, _, current_mem stop ts, rfl⟩, ih⟩

/-- If tokens stand in order, so do the reports, from the token at hand on. -/
theorem reports_ordered (h : Takes stop ts es rest ds)
    (hts : ts.Pairwise (·.span.pos ≤ ·.span.pos)) (hend : ∀ t ∈ ts, t.span.pos ≤ stop) :
    ds.Pairwise (·.span.pos ≤ ·.span.pos) ∧
      ∀ d ∈ ds, (current stop ts).span.pos ≤ d.span.pos := by
  induction h with
  | nil => simp
  | @leaf t ts _ _ _ _ ih | @dropped t ts _ _ _ _ ih =>
    obtain ⟨ht, hts⟩ := List.pairwise_cons.mp hts
    obtain ⟨htend, hend⟩ := List.forall_mem_cons.mp hend
    obtain ⟨hpairs, hlater⟩ := ih hts hend
    have hcurrent : t.span.pos ≤ (current stop ts).span.pos := by
      cases ts with
      | nil => exact htend
      | cons u ts => exact ht u List.mem_cons_self
    exact ⟨hpairs, fun d hd => Nat.le_trans hcurrent (hlater d hd)⟩
  | missing _ _ ih =>
    obtain ⟨hpairs, hlater⟩ := ih hts hend
    exact ⟨List.pairwise_cons.mpr ⟨hlater, hpairs⟩,
      List.forall_mem_cons.mpr ⟨Nat.le_refl _, hlater⟩⟩

end Takes

/-! ## Fragments -/

section
variable {text : String} (hlen : byteLength text.toList < Span.lengthBound)
include hlen

theorem given_placed :
    ∀ u ∈ tokensOf text ++ [.eofAt (stopOf text)], u.Placed text := by
  have hend : (Token.eofAt (stopOf text)).Placed text := by
    rw [Token.stopOf_eq hlen]
    exact ⟨.empty (isBoundary_length _), by simp [Token.eofAt, OneLine]⟩
  intro u hu
  simp only [tokensOf, List.mem_append, List.mem_singleton] at hu
  rcases hu with (hu | rfl) | rfl
  · exact Token.significantTokens_placed hlen u hu
  · exact hend
  · exact hend

theorem given_ordered : (tokensOf text).Pairwise (·.span.pos ≤ ·.span.pos) ∧
    ∀ t ∈ tokensOf text, t.span.pos ≤ stopOf text := by
  have hend : ∀ t ∈ significantTokens text, t.span.pos ≤ stopOf text := by
    rw [Token.stopOf_eq hlen]
    exact fun t ht => (Token.significantTokens_placed hlen t ht).fits.pos.le
  have hpairs : (significantTokens text).Pairwise (·.span.pos ≤ ·.span.pos) :=
    ((Token.tokens_increasing hlen).imp Nat.le_of_lt).filter _
  refine ⟨List.pairwise_append.mpr ⟨hpairs, List.pairwise_singleton _ _, ?_⟩, ?_⟩
  · intro t ht u hu
    rw [List.mem_singleton.mp hu]
    exact hend t ht
  · refine List.forall_mem_append.mpr ⟨hend, ?_⟩
    simp [Token.eofAt, Span.empty]

/-- Every leaf of a fragment fits its text, placeholders included. -/
theorem Fragment.tokens_placed : ∀ t ∈ (Fragment.parse text).unit.tokens, t.Placed text := by
  obtain ⟨es, hledger, htakes⟩ := parseUnit_takes (Token.significantTokens_genuine hlen)
  have hleaves : es.filterMap Entry.leaf? = (Fragment.parse text).unit.tokens := hledger.leaves_eq
  intro t ht
  rw [← hleaves] at ht
  rcases htakes.leaf_cases t ht with ht | ⟨kind, u, hu, rfl⟩
  · exact given_placed hlen t (List.mem_append_left _ ht)
  · exact ⟨.empty (given_placed hlen u hu).fits.pos, by simp [Token.missing, OneLine]⟩

/-- The grammar reports tokens of the text, or its end, in order. -/
theorem parseUnit_reports :
    let ds := (parseUnit (stopOf text) (significantTokens text)).reports
    ds.Pairwise (·.span.pos ≤ ·.span.pos) ∧
      ∀ d ∈ ds, ∃ kind u, u.Placed text ∧ d = unexpected u kind := by
  obtain ⟨es, _, htakes⟩ := parseUnit_takes (Token.significantTokens_genuine hlen)
  obtain ⟨hpairs, hend⟩ := given_ordered hlen
  refine ⟨(htakes.reports_ordered hpairs hend).1, fun d hd => ?_⟩
  obtain ⟨kind, u, hu, rfl⟩ := htakes.report_cases d hd
  exact ⟨kind, u, given_placed hlen u hu, rfl⟩

end

end Syntax

end Scriptlet
