import Scriptlet.Proofs.Labels
import Scriptlet.Proofs.Layout
import Scriptlet.Proofs.Outline
import Scriptlet.Proofs.Syntax.Extent

/-!
# Drawings of syntax trees

The label of a leaf is its kind, its text and its value, none of which has a blank in it. So the
drawing of a fragment shows of every node, in order, how deep it is, what it is called and, if it is
a token, how it is written and what it stands for.
-/

namespace Scriptlet

open Text (OneLine byteLength)

/-! ## Tokens -/

namespace Token

structure Legible (t : Token) : Prop where
  word : IsWord t.text
  blank : t.text = "" → t.value = none
  valued : t.text ≠ "" → Valued t

def words (t : Token) : List String :=
  t.kind.name :: ((if t.text = "" then [] else [t.text]) ++
    t.value.elim [] fun v => ["(" ++ v.text ++ ")"])

theorem tokenLabel_eq (t : Token) : Syntax.Node.tokenLabel t = spaced t.words := by
  have hvalue (v : Value) : toString " (" ++ toString v.text ++ toString ")" =
      " " ++ ("(" ++ v.text ++ ")") := by
    show (" " ++ "(") ++ v.text ++ ")" = _
    simp only [String.append_assoc]
  unfold Syntax.Node.tokenLabel words
  by_cases htext : t.text = ""
  · cases t.value with
    | none => simp [htext, spaced_singleton]
    | some v => simp [htext, hvalue, spaced_cons_cons, spaced_singleton, String.append_assoc]
  · cases t.value with
    | none => simp [htext, spaced_cons_cons, spaced_singleton, String.append_assoc]
    | some v => simp [htext, hvalue, spaced_cons_cons, spaced_singleton, String.append_assoc]

theorem Legible.isWord {t : Token} (h : t.Legible) : ∀ w ∈ t.words, IsWord w := by
  unfold words
  refine List.forall_mem_cons.mpr ⟨t.kind.isWord_name, List.forall_mem_append.mpr ⟨?_, ?_⟩⟩
  · split
    · simp
    · exact List.forall_mem_singleton.mpr h.word
  · cases t.value with
    | none => simp
    | some v =>
      refine List.forall_mem_singleton.mpr ?_
      exact .append (.append (by decide) v.isWord_text) (by decide)

theorem Legible.eq_of_words {t t' : Token} (h : t.Legible) (h' : t'.Legible)
    (hwords : t.words = t'.words) : t.kind = t'.kind ∧ t.text = t'.text ∧ t.value = t'.value := by
  obtain ⟨hname, hrest⟩ := List.cons.inj hwords
  have hkind : t.kind = t'.kind := Kind.name_inj hname
  have htext : t.text = t'.text := by
    by_cases htext : t.text = ""
    · by_cases htext' : t'.text = ""
      · rw [htext, htext']
      · simp [htext, htext', h.blank htext] at hrest
    · by_cases htext' : t'.text = ""
      · simp [htext, htext', h'.blank htext'] at hrest
      · simp only [htext, htext', if_false, List.singleton_append] at hrest
        exact (List.cons.inj hrest).1
  refine ⟨hkind, htext, ?_⟩
  by_cases hblank : t.text = ""
  · rw [h.blank hblank, h'.blank (htext ▸ hblank)]
  · rw [(h.valued hblank).eq_ofSpelling, (h'.valued (htext ▸ hblank)).eq_ofSpelling, hkind, htext]

theorem missing_legible (kind : Kind) (pos : Nat) : (missing kind pos).Legible :=
  ⟨rfl, fun _ => rfl, fun h => absurd rfl h⟩

theorem tokens_legible {text : String} (hlen : byteLength text.toList < Span.lengthBound)
    {t : Token} (ht : t ∈ tokens text) (hkind : t.kind ≠ .whitespace) : t.Legible where
  word := by
    obtain ⟨rest, hmunch⟩ := tokens_munch hlen ht
    refine isWord_iff.mpr fun c hc => ?_
    rw [hmunch.isWhitespace_eq c hc, decide_eq_false hkind]
  blank h := absurd h (tokens_text_ne hlen ht)
  valued _ := tokens_valued hlen t ht

end Token

namespace Syntax

open Token (significantTokens)

/-- Every leaf of a fragment is legible, placeholders included. -/
theorem Fragment.tokens_legible {text : String}
    (hlen : byteLength text.toList < Span.lengthBound) :
    ∀ t ∈ (Fragment.parse text).unit.tokens, t.Legible := by
  obtain ⟨es, hledger, htakes⟩ := parseUnit_takes (Token.significantTokens_genuine hlen)
  have hleaves : es.filterMap Entry.leaf? = (Fragment.parse text).unit.tokens := hledger.leaves_eq
  intro t ht
  rw [← hleaves] at ht
  rcases htakes.leaf_cases t ht with ht | ⟨kind, u, _, rfl⟩
  · rcases List.mem_append.mp ht with ht | ht
    · obtain ⟨hmem, hsignificant⟩ := List.mem_filter.mp ht
      refine Token.tokens_legible hlen hmem fun hkind => ?_
      rw [Token.isSignificant, hkind] at hsignificant
      cases hsignificant
    · rw [List.mem_singleton.mp ht]
      exact Token.missing_legible .eof _
  · exact Token.missing_legible kind _

/-! ## Nodes -/

namespace Node

def label : Node → String
  | token t => tokenLabel t
  | phrase p _ _ => p.label

def text? : Node → Option String
  | token t => some t.text
  | phrase _ _ _ => none

def value? : Node → Option Value
  | token t => t.value
  | phrase _ _ _ => none

/-- All that is to be seen of a tree: its nodes, parents first. -/
def listing (n : Node) : List (Nat × String × Option String × Option Value) :=
  (n.walk 0).map fun m => (m.1, m.2.name, m.2.text?, m.2.value?)

def words : Node → List String
  | token t => t.words
  | phrase p _ _ => [p.label]

theorem label_eq (n : Node) : n.label = spaced n.words := by
  cases n with
  | token t => exact t.tokenLabel_eq
  | phrase p first rest => exact (spaced_singleton p.label).symm

theorem isWord_phraseLabel (p : Phrase) : IsWord p.label := by cases p <;> decide

/-- No token is labelled like a phrase. -/
theorem ofName?_phraseLabel (p : Phrase) : Token.Kind.ofName? p.label = none := by
  cases p <;> decide

theorem label_of_legible {n : Node} (h : ∀ t ∈ n.tokens, t.Legible) :
    (∀ w ∈ n.words, IsWord w) ∧ n.words ≠ [] := by
  cases n with
  | token t => exact ⟨(h t List.mem_cons_self).isWord, List.cons_ne_nil _ _⟩
  | phrase p first rest =>
    exact ⟨List.forall_mem_singleton.mpr (isWord_phraseLabel p), List.cons_ne_nil _ _⟩

theorem words_token_ne (t : Token) (p : Phrase) : t.words ≠ [p.label] := by
  intro h
  have hname : t.kind.name = p.label := (List.cons.inj h).1
  have hkind := t.kind.ofName?_name
  rw [hname, ofName?_phraseLabel] at hkind
  cases hkind

theorem shown_of_label {n m : Node} (hn : ∀ t ∈ n.tokens, t.Legible)
    (hm : ∀ t ∈ m.tokens, t.Legible) (h : n.label = m.label) :
    n.name = m.name ∧ n.text? = m.text? ∧ n.value? = m.value? := by
  rw [label_eq, label_eq] at h
  obtain ⟨hwords, hne⟩ := label_of_legible hn
  obtain ⟨hwords', hne'⟩ := label_of_legible hm
  have hsame := words_of_spaced hwords hne hwords' hne' h
  cases n with
  | token t =>
    cases m with
    | token t' =>
      obtain ⟨hkind, htext, hvalue⟩ := (hn t List.mem_cons_self).eq_of_words
        (hm t' List.mem_cons_self) hsame
      exact ⟨congrArg Token.Kind.name hkind, congrArg some htext, hvalue⟩
    | phrase p first rest => exact absurd hsame (words_token_ne t p)
  | phrase p first rest =>
    cases m with
    | token t => exact absurd hsame.symm (words_token_ne t p)
    | phrase p' first' rest' => exact ⟨(List.cons.inj hsame).1, rfl, rfl⟩

mutual

theorem rows_outline : ∀ (n : Node) (depth : Nat),
    n.outline.rows depth = (n.walk depth).map fun m => (m.1, m.2.label)
  | .token t, _ => rfl
  | .phrase p first rest, depth => by
    simp only [outline, Outline.rows, Outline.rowsAll, walk, List.map_cons, List.map_append,
      rows_outline first, rowsAll_outlineAll rest, label]

theorem rowsAll_outlineAll : ∀ (ns : List Node) (depth : Nat),
    Outline.rowsAll depth (outlineAll ns) = (walkAll depth ns).map fun m => (m.1, m.2.label)
  | [], _ => rfl
  | n :: ns, depth => by
    simp only [outlineAll, Outline.rowsAll, walkAll, List.map_append, rows_outline n,
      rowsAll_outlineAll ns]

end

theorem legible_of_walk {n : Node} (h : ∀ t ∈ n.tokens, t.Legible) {m : Nat × Node}
    (hm : m ∈ n.walk 0) : ∀ t ∈ m.2.tokens, t.Legible :=
  fun t ht => h t ((tokens_of_walk n 0 m hm).subset ht)

theorem outline_plain {n : Node} (h : ∀ t ∈ n.tokens, t.Legible) : n.outline.Plain := by
  intro r hr
  rw [rows_outline] at hr
  obtain ⟨m, hm, rfl⟩ := List.mem_map.mp hr
  simp only [label_eq]
  exact oneLine_spaced (label_of_legible (legible_of_walk h hm)).1

/-- A drawing shows the listing of the tree. -/
theorem listing_of_draw {n n' : Node} (h : ∀ t ∈ n.tokens, t.Legible)
    (h' : ∀ t ∈ n'.tokens, t.Legible) (hdraw : n.outline.draw = n'.outline.draw) :
    n.listing = n'.listing := by
  have hrows := Outline.rows_of_draw (outline_plain h) (outline_plain h') hdraw
  rw [rows_outline, rows_outline] at hrows
  apply List.ext_getElem?
  intro i
  have hi := congrArg (·[i]?) hrows
  simp only [listing, List.getElem?_map] at hi ⊢
  cases hm : (n.walk 0)[i]? with
  | none =>
    rw [hm] at hi
    rw [Option.map_eq_none_iff.mp hi.symm]
  | some m =>
    rw [hm, Option.map_some, eq_comm, Option.map_eq_some_iff] at hi
    obtain ⟨m', hm', hsame⟩ := hi
    obtain ⟨hdepth, hlabel⟩ := Prod.mk.inj hsame
    obtain ⟨hname, htext, hvalue⟩ := shown_of_label
      (legible_of_walk h (List.mem_of_getElem? hm))
      (legible_of_walk h' (List.mem_of_getElem? hm')) hlabel.symm
    rw [hm', Option.map_some, Option.map_some, hdepth, hname, htext, hvalue]

/-- A drawing has a line for each node, which shows its depth and its label. -/
theorem draw_lines {n : Node} (h : ∀ t ∈ n.tokens, t.Legible) : ∃ ls : List String,
    n.outline.draw = String.join (ls.map (· ++ "\n")) ∧ (∀ line ∈ ls, OneLine line) ∧
      ls.map Outline.readRow = (n.walk 0).map fun m => (m.1, m.2.label) := by
  obtain ⟨ls, hdraw, hls, hrows⟩ := (outline_plain h).draw_eq
  exact ⟨ls, hdraw, hls, hrows.trans (rows_outline n 0)⟩

end Node

end Syntax

end Scriptlet
