import Scriptlet.Proofs.Syntax.Spans

/-!
# How far nodes reach

The leaves of a parsed tree stand one after the other: a placeholder covers nothing and stands where
the token at hand starts, and tokens that are dropped leave a gap. So the first and the last part of
a phrase tell how far all its leaves reach.
-/

namespace Scriptlet

open Text

/-! ## Spans that hold others -/

namespace Span

def Holds (s t : Span) : Prop := s.pos ≤ t.pos ∧ t.stop ≤ s.stop

structure IsHull (s : Span) (spans : List Span) : Prop where
  holds : ∀ t ∈ spans, s.Holds t
  least : ∀ u : Span, (∀ t ∈ spans, u.Holds t) → u.Holds s

structure Bounds (s : Span) (spans : List Span) : Prop where
  holds : ∀ t ∈ spans, s.Holds t
  pos : ∃ t ∈ spans, t.pos = s.pos
  stop : ∃ t ∈ spans, t.stop = s.stop

theorem Bounds.isHull {s : Span} {spans : List Span} (h : s.Bounds spans) : s.IsHull spans := by
  refine ⟨h.holds, fun u hu => ?_⟩
  obtain ⟨t, ht, hpos⟩ := h.pos
  obtain ⟨t', ht', hstop⟩ := h.stop
  exact ⟨hpos ▸ (hu t ht).1, hstop ▸ (hu t' ht').2⟩

theorem pos_le_stop (s : Span) : s.pos ≤ s.stop := Nat.le_add_right _ _

theorem Holds.trans {s t u : Span} (h : s.Holds t) (h' : t.Holds u) : s.Holds u :=
  ⟨Nat.le_trans h.1 h'.1, Nat.le_trans h'.2 h.2⟩

theorem cover_of_le {s t : Span} (hpos : s.pos ≤ t.pos) (hstop : s.stop ≤ t.stop)
    (hlen : t.stop < lengthBound) : (s.cover t).pos = s.pos ∧ (s.cover t).stop = t.stop := by
  have hs := s.pos_le_stop
  unfold cover
  rw [Nat.min_eq_left hpos, Nat.max_eq_right hstop]
  exact ⟨rfl, stop_between (by omega) (by omega)⟩

end Span

/-! ## Leaves in order -/

namespace Token

def Ordered (ts : List Token) : Prop := ts.Pairwise (·.span.stop ≤ ·.span.pos)

theorem Contiguous.ordered : ∀ {ts : List Token} {pos stop : Nat}, Contiguous pos ts stop →
    Ordered ts ∧ ∀ t ∈ ts, pos ≤ t.span.pos
  | [], _, _, _ => by simp [Ordered]
  | t :: ts, pos, stop, ⟨hpos, hrest⟩ => by
    obtain ⟨hordered, hafter⟩ := Contiguous.ordered hrest
    have hstop := t.span.pos_le_stop
    refine ⟨List.pairwise_cons.mpr ⟨hafter, hordered⟩, ?_⟩
    intro u hu
    rcases List.mem_cons.mp hu with rfl | hu
    · exact Nat.le_of_eq hpos.symm
    · have := hafter u hu
      omega

end Token

namespace Syntax

open Token (significantTokens Ordered)

section
variable {stop : Nat} {ts rest : List Token} {es : List Entry} {ds : List Diagnostic}

theorem stop_le_current {t : Token} (hts : Ordered (t :: ts))
    (hend : ∀ u ∈ t :: ts, u.span.stop ≤ stop) : t.span.stop ≤ (current stop ts).span.pos := by
  cases ts with
  | nil => exact hend t List.mem_cons_self
  | cons u ts => exact (List.pairwise_cons.mp hts).1 u List.mem_cons_self

theorem Takes.leaves_ordered (h : Takes stop ts es rest ds) (hts : Ordered ts)
    (hend : ∀ t ∈ ts, t.span.stop ≤ stop) :
    Ordered (es.filterMap Entry.leaf?) ∧
      ∀ t ∈ es.filterMap Entry.leaf?, (current stop ts).span.pos ≤ t.span.pos := by
  induction h with
  | nil => simp [Ordered]
  | @leaf t ts _ _ _ _ ih =>
    have hnext := stop_le_current hts hend
    obtain ⟨hordered, hafter⟩ :=
      ih (List.pairwise_cons.mp hts).2 (List.forall_mem_cons.mp hend).2
    have hlater : ∀ u ∈ List.filterMap Entry.leaf? _, t.span.stop ≤ u.span.pos := fun u hu =>
      Nat.le_trans hnext (hafter u hu)
    refine ⟨List.pairwise_cons.mpr ⟨hlater, hordered⟩, ?_⟩
    refine List.forall_mem_cons.mpr ⟨Nat.le_refl _, fun u hu => ?_⟩
    exact Nat.le_trans t.span.pos_le_stop (hlater u hu)
  | @dropped t ts _ _ _ _ ih =>
    have hnext := stop_le_current hts hend
    obtain ⟨hordered, hafter⟩ :=
      ih (List.pairwise_cons.mp hts).2 (List.forall_mem_cons.mp hend).2
    refine ⟨hordered, fun u hu => ?_⟩
    exact Nat.le_trans t.span.pos_le_stop (Nat.le_trans hnext (hafter u hu))
  | missing _ _ ih =>
    obtain ⟨hordered, hafter⟩ := ih hts hend
    exact ⟨List.pairwise_cons.mpr ⟨hafter, hordered⟩,
      List.forall_mem_cons.mpr ⟨Nat.le_refl _, hafter⟩⟩

end

theorem Fragment.tokens_ordered {text : String}
    (hlen : byteLength text.toList < Span.lengthBound) :
    Ordered (Fragment.parse text).unit.tokens := by
  obtain ⟨es, hledger, htakes⟩ := parseUnit_takes (Token.significantTokens_genuine hlen)
  have hleaves : es.filterMap Entry.leaf? = (Fragment.parse text).unit.tokens := hledger.leaves_eq
  have hsignificant : Ordered (significantTokens text) :=
    (Token.tokens_contiguous hlen).ordered.1.filter _
  have hend : ∀ t ∈ significantTokens text, t.span.stop ≤ Token.stopOf text := by
    rw [Token.stopOf_eq hlen]
    exact fun t ht => (Token.significantTokens_placed hlen t ht).fits.stop.le
  have hgiven : Ordered (tokensOf text) := by
    refine List.pairwise_append.mpr ⟨hsignificant, List.pairwise_singleton _ _, ?_⟩
    intro t ht u hu
    rw [List.mem_singleton.mp hu]
    exact hend t ht
  rw [← hleaves]
  refine (htakes.leaves_ordered hgiven ?_).1
  exact List.forall_mem_append.mpr ⟨hend, by simp [Token.eofAt]⟩

/-! ## Nodes -/

namespace Node

def children : Node → List Node
  | token _ => []
  | phrase _ first rest => first :: rest

theorem lastSpan_eq : ∀ (first : Node) (rest : List Node), ∃ last,
    (first :: rest).getLast? = some last ∧ lastSpan first.span rest = last.span
  | first, [] => ⟨first, rfl, rfl⟩
  | _, n :: ns => by
    obtain ⟨last, hlast, hspan⟩ := lastSpan_eq n ns
    exact ⟨last, by rw [List.getLast?_cons_cons, hlast], hspan⟩

mutual

/-- The leaves of a node in a walk stand together among those of the node walked over. -/
theorem tokens_of_walk : ∀ (n : Node) (depth : Nat), ∀ m ∈ n.walk depth, m.2.tokens <:+: n.tokens
  | .token t, depth => by simp [walk]
  | .phrase p first rest, depth => by
    unfold walk
    refine List.forall_mem_cons.mpr ⟨List.infix_refl _, List.forall_mem_append.mpr ⟨?_, ?_⟩⟩
    · intro m hm
      exact (tokens_of_walk first (depth + 1) m hm).trans (List.prefix_append _ _).isInfix
    · intro m hm
      exact (tokens_of_walkAll rest (depth + 1) m hm).trans (List.suffix_append _ _).isInfix

theorem tokens_of_walkAll : ∀ (ns : List Node) (depth : Nat),
    ∀ m ∈ walkAll depth ns, m.2.tokens <:+: tokensAll ns
  | [], depth => by simp [walkAll]
  | n :: ns, depth => by
    unfold walkAll
    refine List.forall_mem_append.mpr ⟨?_, ?_⟩
    · intro m hm
      exact (tokens_of_walk n depth m hm).trans (List.prefix_append _ _).isInfix
    · intro m hm
      exact (tokens_of_walkAll ns depth m hm).trans (List.suffix_append _ _).isInfix

end

def Reaches (n : Node) : Prop := n.span.Bounds (n.tokens.map (·.span))

theorem mem_tokensAll {t : Token} {n : Node} : ∀ {ns : List Node}, n ∈ ns → t ∈ n.tokens →
    t ∈ tokensAll ns
  | m :: ns, hn, ht => by
    unfold tokensAll
    rcases List.mem_cons.mp hn with rfl | hn
    · exact List.mem_append_left _ ht
    · exact List.mem_append_right _ (mem_tokensAll hn ht)

theorem exists_of_mem_tokensAll {t : Token} : ∀ {ns : List Node}, t ∈ tokensAll ns →
    ∃ n ∈ ns, t ∈ n.tokens
  | [], ht => by simp [tokensAll] at ht
  | n :: ns, ht => by
    unfold tokensAll at ht
    rcases List.mem_append.mp ht with ht | ht
    · exact ⟨n, List.mem_cons_self, ht⟩
    · obtain ⟨m, hm, ht⟩ := exists_of_mem_tokensAll ht
      exact ⟨m, List.mem_cons_of_mem _ hm, ht⟩

/-- Nodes whose leaves are in order are in order themselves. -/
theorem pairwise_of_ordered : ∀ {ns : List Node}, (∀ n ∈ ns, n.Reaches) → Ordered (tokensAll ns) →
    ns.Pairwise (·.span.stop ≤ ·.span.pos)
  | [], _, _ => List.Pairwise.nil
  | n :: ns, hreaches, hordered => by
    obtain ⟨hn, hns⟩ := List.forall_mem_cons.mp hreaches
    obtain ⟨_, hrest, hacross⟩ := List.pairwise_append.mp hordered
    refine List.pairwise_cons.mpr ⟨fun m hm => ?_, pairwise_of_ordered hns hrest⟩
    obtain ⟨s, hs, hstop⟩ := hn.stop
    obtain ⟨s', hs', hpos⟩ := (hns m hm).pos
    obtain ⟨t, ht, rfl⟩ := List.mem_map.mp hs
    obtain ⟨u, hu, rfl⟩ := List.mem_map.mp hs'
    rw [← hstop, ← hpos]
    exact hacross t ht u (mem_tokensAll hm hu)

/-- Nodes in order lie between the start of the first and the stop of the last. -/
theorem between_ends {first last : Node} {rest : List Node}
    (h : (first :: rest).Pairwise (·.span.stop ≤ ·.span.pos))
    (hlast : (first :: rest).getLast? = some last) :
    ∀ n ∈ first :: rest, first.span.pos ≤ n.span.pos ∧ n.span.stop ≤ last.span.stop := by
  intro n hn
  constructor
  · rcases List.mem_cons.mp hn with rfl | hn
    · exact Nat.le_refl _
    · exact Nat.le_trans first.span.pos_le_stop ((List.pairwise_cons.mp h).1 n hn)
  · obtain ⟨front, hfront⟩ := List.getLast?_eq_some_iff.mp hlast
    rw [hfront] at h hn
    rcases List.mem_append.mp hn with hn | hn
    · have hle := (List.pairwise_append.mp h).2.2 n hn last List.mem_cons_self
      exact Nat.le_trans hle last.span.pos_le_stop
    · rw [List.mem_singleton.mp hn]

section
variable {p : Phrase} {first : Node} {rest : List Node} (hreaches : ∀ n ∈ first :: rest, n.Reaches)
  (hordered : Ordered (tokensAll (first :: rest)))
  (hstop : ∀ t ∈ tokensAll (first :: rest), t.span.stop < Span.lengthBound)
include hreaches hordered hstop

/-- A phrase starts where its first part does, stops where its last part does, and holds all of
them. -/
theorem span_phrase : ∃ last ∈ first :: rest,
    (phrase p first rest).span.pos = first.span.pos ∧
      (phrase p first rest).span.stop = last.span.stop ∧
      ∀ n ∈ first :: rest, (phrase p first rest).span.Holds n.span := by
  obtain ⟨last, hlast, hspan⟩ := lastSpan_eq first rest
  have hmem : last ∈ first :: rest := List.mem_of_getLast? hlast
  have hends := between_ends (pairwise_of_ordered hreaches hordered) hlast
  have hlen : last.span.stop < Span.lengthBound := by
    obtain ⟨s, hs, hs'⟩ := (hreaches last hmem).stop
    obtain ⟨t, ht, rfl⟩ := List.mem_map.mp hs
    rw [← hs']
    exact hstop t (mem_tokensAll hmem ht)
  obtain ⟨hpos, hstop⟩ := Span.cover_of_le (hends last hmem).1 (hends first List.mem_cons_self).2 hlen
  have hcover : (phrase p first rest).span = first.span.cover last.span := by rw [span, hspan]
  rw [hcover]
  refine ⟨last, hmem, hpos, hstop, fun n hn => ?_⟩
  rw [Span.Holds, hpos, hstop]
  exact hends n hn

theorem reaches_phrase : (phrase p first rest).Reaches := by
  obtain ⟨last, hlast, hpos, hend, hholds⟩ := span_phrase (p := p) hreaches hordered hstop
  have htokens : (phrase p first rest).tokens = tokensAll (first :: rest) := by
    rw [tokens, tokensAll]
  constructor
  · intro s hs
    obtain ⟨t, ht, rfl⟩ := List.mem_map.mp hs
    rw [htokens] at ht
    obtain ⟨n, hn, ht⟩ := exists_of_mem_tokensAll ht
    exact (hholds n hn).trans ((hreaches n hn).holds _ (List.mem_map_of_mem ht))
  · obtain ⟨s, hs, hs'⟩ := (hreaches first List.mem_cons_self).pos
    obtain ⟨t, ht, rfl⟩ := List.mem_map.mp hs
    rw [htokens, hpos]
    exact ⟨t.span, List.mem_map_of_mem (mem_tokensAll List.mem_cons_self ht), hs'⟩
  · obtain ⟨s, hs, hs'⟩ := (hreaches last hlast).stop
    obtain ⟨t, ht, rfl⟩ := List.mem_map.mp hs
    rw [htokens, hend]
    exact ⟨t.span, List.mem_map_of_mem (mem_tokensAll hlast ht), hs'⟩

end

mutual

theorem reaches_of_ordered : ∀ n : Node, Ordered n.tokens →
    (∀ t ∈ n.tokens, t.span.stop < Span.lengthBound) → n.Reaches
  | .token t, _, _ => by
    constructor <;> simp [tokens, span, Span.Holds]
  | .phrase p first rest, hordered, hstop => by
    obtain ⟨hfirst, hrest, _⟩ := List.pairwise_append.mp hordered
    obtain ⟨hstop₁, hstop₂⟩ := List.forall_mem_append.mp hstop
    have hreaches := List.forall_mem_cons.mpr
      ⟨reaches_of_ordered first hfirst hstop₁, reaches_all_of_ordered rest hrest hstop₂⟩
    exact reaches_phrase hreaches hordered hstop

theorem reaches_all_of_ordered : ∀ ns : List Node, Ordered (tokensAll ns) →
    (∀ t ∈ tokensAll ns, t.span.stop < Span.lengthBound) → ∀ n ∈ ns, n.Reaches
  | [], _, _ => by simp
  | n :: ns, hordered, hstop => by
    obtain ⟨hn, hns, _⟩ := List.pairwise_append.mp hordered
    obtain ⟨hstop₁, hstop₂⟩ := List.forall_mem_append.mp hstop
    exact List.forall_mem_cons.mpr
      ⟨reaches_of_ordered n hn hstop₁, reaches_all_of_ordered ns hns hstop₂⟩

end

/-- The span of a phrase is made from its first and its last part, whose bounds are in order. -/
def Made (n : Node) : Prop :=
  (∃ t, n = .token t) ∨ ∃ first last, n.children.head? = some first ∧
    n.children.getLast? = some last ∧
    Span.ofBounds? (min first.span.pos last.span.pos) (max first.span.stop last.span.stop) =
      some n.span

/-- The span is what the leaves need, the parts lie in it one after the other, and it fits the
text. -/
structure Spanned (text : String) (n : Node) : Prop where
  made : n.Made
  hull : n.span.IsHull (n.tokens.map (·.span))
  ordered : n.children.Pairwise (·.span.stop ≤ ·.span.pos)
  inside : ∀ c ∈ n.children, n.span.Holds c.span
  stop_le : n.span.stop ≤ byteLength text.toList
  fits : n.span.Fits text

theorem span_made : ∀ n : Node, n.Made
  | .token t => .inl ⟨t, rfl⟩
  | .phrase p first rest => by
    obtain ⟨last, hlast, hspan⟩ := lastSpan_eq first rest
    refine .inr ⟨first, last, rfl, hlast, ?_⟩
    have hfirst := first.span.pos_le_stop
    rw [Span.ofBounds?, if_pos (by omega), span, hspan]
    rfl

theorem spanned_of_ordered {text : String} (hlen : byteLength text.toList < Span.lengthBound)
    {n : Node} (hordered : Ordered n.tokens) (hfits : ∀ t ∈ n.tokens, t.span.Fits text) :
    n.Spanned text := by
  have hstop : ∀ t ∈ n.tokens, t.span.stop < Span.lengthBound := fun t ht =>
    Nat.lt_of_le_of_lt (hfits t ht).stop.le hlen
  have hspan := span_fits hlen n hfits
  refine ⟨n.span_made, (reaches_of_ordered n hordered hstop).isHull, ?_, ?_, hspan.stop.le, hspan⟩
  · cases n with
    | token t => exact List.Pairwise.nil
    | phrase p first rest =>
      exact pairwise_of_ordered (reaches_all_of_ordered (first :: rest) hordered hstop) hordered
  · cases n with
    | token t => simp [children]
    | phrase p first rest =>
      obtain ⟨_, _, _, _, hholds⟩ := span_phrase (p := p)
        (reaches_all_of_ordered (first :: rest) hordered hstop) hordered hstop
      exact hholds

end Node

/-- Every node of a fragment's tree, however little was read for it, spans just its leaves. -/
theorem Fragment.nodes_spanned (text : String) (hlen : byteLength text.toList < 2 ^ 32) :
    ∀ entry ∈ (Fragment.parse text).unit.node.walk 0, entry.2.Spanned text := by
  intro entry hentry
  have hpart := Node.tokens_of_walk _ 0 entry hentry
  have hplaced := Fragment.tokens_placed hlen
  apply Node.spanned_of_ordered hlen
  · exact (Fragment.tokens_ordered hlen).sublist hpart.sublist
  · exact fun t ht => (hplaced t (hpart.subset ht)).fits

/-- A block with a token that starts no statement, a parenthesis that is not closed and an `if`
without a condition and a branch, and a number after the block. -/
theorem skips_and_gaps_spanned :
    let text := "\x7b ) é = (1\n if \x7d 2"
    let nodes := (Fragment.parse text).unit.node.walk 0
    byteLength text.toList < 2 ^ 32 ∧ (∀ entry ∈ nodes, entry.2.Spanned text) ∧
      (nodes.filter (·.1 ≤ 2)).map (fun entry => (entry.2.name, entry.2.span.bounds)) =
        [("CompilationUnit", "0..18"), ("BlockStatement", "0..17"), ("OpenBrace", "0..1"),
          ("ExpressionStatement", "2..2"), ("ExpressionStatement", "4..13"),
          ("IfStatement", "13..16"), ("CloseBrace", "16..17"), ("End", "18..18")] := by
  intro text nodes
  have hlen : byteLength text.toList < 2 ^ 32 := by decide
  exact ⟨hlen, Fragment.nodes_spanned text hlen, by decide +kernel⟩

end Syntax

end Scriptlet
