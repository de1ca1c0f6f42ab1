import Scriptlet.Proofs.Syntax.Ledger

/-!
# Fragments account for their tokens

The tree of a fragment and the tokens dropped next to it hold every token that the grammar sees. If
nothing is reported, nothing was dropped or made up, and the leaves spell the text.
-/

namespace Scriptlet

namespace Token

open Text

section
variable {text : String} (hlen : byteLength text.toList < Span.lengthBound)
include hlen

theorem significantTokens_genuine : ∀ t ∈ significantTokens text, t.Genuine (stopOf text) := by
  intro t ht
  have hmem : t ∈ tokens text := List.mem_of_mem_filter ht
  refine ⟨tokens_text_ne hlen hmem, tokens_kind_ne hmem, Nat.ne_of_lt ?_⟩
  obtain ⟨l, hl, rfl⟩ := List.mem_map.mp hmem
  have hlt := Lexeme.all_pos_lt (Place.level_start hlen) l hl
  rwa [Place.start, Nat.zero_add, ← stopOf_eq hlen] at hlt

theorem lexicalReports_eq : lexicalReports text = (tokens text).filterMap fault? := by
  have h := reports_eq_faults hlen (lexemes text).length
  rwa [List.take_length, List.take_of_length_le (by simp [tokens])] at h

theorem fault?_of_bad {t : Token} (ht : t ∈ tokens text) (hbad : t.kind = .bad) :
    fault? t ≠ none := by
  intro hnone
  simp only [fault?, hbad, Option.map_eq_none_iff, List.head?_eq_none_iff] at hnone
  exact tokens_text_ne hlen ht (String.toList_eq_nil_iff.mp hnone)

theorem flatMap_significantTokens (h : lexicalReports text = []) :
    (significantTokens text).flatMap (·.text.toList) =
      text.toList.filter fun c => !isWhitespace c := by
  have hbad : ∀ p ∈ (tokens text).map (fun t => (t.kind, t.text.toList)), p.1 ≠ .bad := by
    intro p hp hkind
    obtain ⟨t, ht, rfl⟩ := List.mem_map.mp hp
    rw [lexicalReports_eq hlen] at h
    exact fault?_of_bad hlen ht hkind (List.filterMap_eq_nil_iff.mp h t ht)
  rw [← (tokens_pieces hlen).flatMap_significant hbad, List.filter_map, List.flatMap_map]
  rfl

end

end Token

namespace Syntax

open Token (Lexeme isSignificant lexemes significantTokens stopOf lexicalReports)

section
variable {stop : Nat}

theorem sublist_present? (es : List Entry) :
    ((es.filterMap Entry.leaf?).filter (¬ ·.IsPlaceholder stop)).Sublist
      (es.filterMap (Entry.present? stop)) := by
  induction es with
  | nil => exact .slnil
  | cons e es ih =>
    cases e with
    | dropped t => exact ih.cons t
    | leaf t =>
      by_cases h : t.IsPlaceholder stop
      · simpa [Entry.leaf?, Entry.present?, h] using ih
      · simpa [Entry.leaf?, Entry.present?, h] using ih

theorem present?_leaves {ts : List Token} (h : ∀ t ∈ ts, ¬ t.IsPlaceholder stop) :
    (leaves ts).filterMap (Entry.present? stop) = ts := by
  induction ts with
  | nil => rfl
  | cons t ts ih =>
    obtain ⟨ht, hts⟩ := List.forall_mem_cons.mp h
    have hpresent : (Entry.leaf t).present? stop = some t := if_neg ht
    rw [leaves_cons, List.filterMap_cons_some hpresent, ih hts]

mutual

/-- Tokens are dropped next to placeholders only. -/
theorem Stmt.Ledger.eq_leaves : ∀ {s : Stmt} {es : List Entry}, s.Ledger stop es →
    (∀ t ∈ s.tokens, ¬ t.IsPlaceholder stop) → es = leaves s.tokens
  | _, _, .block h, hs => by
    simp only [tokens_block, List.forall_mem_cons, List.forall_mem_append] at hs
    simp [h.eq_leaves hs.2.1]
  | _, _, .expr, _ => by simp
  | _, _, .decl, _ => by simp
  | _, _, .ifThen h, hs => by
    simp only [tokens_ifThen, List.forall_mem_cons, List.forall_mem_append] at hs
    simp [h.eq_leaves hs.2.2]
  | _, _, .ifElse h h', hs => by
    simp only [tokens_ifElse, List.forall_mem_cons, List.forall_mem_append] at hs
    simp [h.eq_leaves hs.2.2.1, h'.eq_leaves hs.2.2.2.2]
  | _, _, .while h, hs => by
    simp only [tokens_while, List.forall_mem_cons, List.forall_mem_append] at hs
    simp [h.eq_leaves hs.2.2]
  | _, _, .for h, hs => by
    simp only [tokens_for, List.forall_mem_cons, List.forall_mem_append] at hs
    simp [h.eq_leaves hs.2.2.2.2.2.2]

theorem Stmt.BodyLedger.eq_leaves : ∀ {ss : List Stmt} {es : List Entry},
    Stmt.BodyLedger stop ss es → (∀ t ∈ ss.flatMap Stmt.tokens, ¬ t.IsPlaceholder stop) →
    es = leaves (ss.flatMap Stmt.tokens)
  | _, _, .nil, _ => rfl
  | _, _, .cons h h', hs => by
    rw [List.flatMap_cons, List.forall_mem_append] at hs
    rw [List.flatMap_cons, leaves_append, h.eq_leaves hs.1, h'.eq_leaves hs.2]
  | _, _, @Stmt.BodyLedger.skip _ t ss _ _, hs => by
    have hplaceholder := hs (.missing .identifier t.span.pos) (by simp)
    exact absurd (Token.missing_isPlaceholder (.inl (by decide))) hplaceholder

end

theorem SourceUnit.Ledger.eq_leaves {u : SourceUnit} {es : List Entry} (h : u.Ledger stop es)
    (hu : ∀ t ∈ u.tokens, ¬ t.IsPlaceholder stop) : es = leaves u.tokens := by
  have htokens : u.tokens = u.stmt.tokens ++ [u.eof] := SourceUnit.tokens_mk u.stmt u.eof
  rw [htokens, List.forall_mem_append] at hu
  rw [htokens, leaves_append]
  cases h with
  | whole hs _ => rw [hs.eq_leaves hu.1]; rfl
  | cut _ _ heof => exact absurd heof (hu.2 _ List.mem_cons_self)

end

def tokensOf (text : String) : List Token := significantTokens text ++ [.eofAt (stopOf text)]

/-- How the tree of a text accounts for its tokens. -/
structure Accounts (text : String) : Prop where
  kept : ((Fragment.parse text).unit.tokens.filter (¬ ·.IsPlaceholder (stopOf text))).Sublist
    (tokensOf text)
  made : (Fragment.parse text).diagnostics.filterMap expected? =
    ((Fragment.parse text).unit.tokens.filter (·.IsPlaceholder (stopOf text))).map expectedBy
  whole : ∃ es, (Fragment.parse text).unit.Ledger (stopOf text) es ∧
    es.filterMap Entry.leaf? = (Fragment.parse text).unit.tokens ∧
    es.filterMap (Entry.present? (stopOf text)) = tokensOf text
  clean : (Fragment.parse text).diagnostics = [] →
    (Fragment.parse text).unit.tokens = tokensOf text ∧
      (Fragment.parse text).unit.tokens.flatMap (·.text.toList) =
        text.toList.filter fun c => !Text.isWhitespace c

section
variable {text : String} (hlen : Text.byteLength text.toList < Span.lengthBound)
include hlen

theorem lexicalReports_expected? : (lexicalReports text).filterMap expected? = [] := by
  rw [Token.lexicalReports_eq hlen, List.filterMap_filterMap, List.filterMap_eq_nil_iff]
  intro t _
  unfold Token.fault?
  split
  · cases t.text.toList.head? <;> rfl
  · split <;> rfl
  · rfl

theorem Fragment.parse_tallies :
    ∃ es, (Fragment.parse text).unit.Ledger (stopOf text) es ∧
      Tallies (stopOf text) (tokensOf text) es [] (Fragment.parse text).diagnostics := by
  obtain ⟨es, hledger, htally⟩ := parseUnit_tallies (Token.significantTokens_genuine hlen)
  refine ⟨es, hledger, htally.tokens, ?_⟩
  have hreports : (Fragment.parse text).diagnostics = lexicalReports text ++
      (parseUnit (stopOf text) (significantTokens text)).reports := rfl
  rw [hreports, List.filterMap_append, lexicalReports_expected? hlen, List.nil_append,
    htally.reports]

end

/-- The leaves of a fragment that are not made up are tokens of the text in order, what is made up
is what was reported as missing, and the other tokens of the text were dropped where `Ledger`
allows it. If nothing is reported, the leaves are the tokens of the text and spell it. -/
theorem tokens_accounted (text : String) (hlen : Text.byteLength text.toList < 2 ^ 32) :
    Accounts text := by
  obtain ⟨es, hledger, htally⟩ := Fragment.parse_tallies hlen
  have hleaves : es.filterMap Entry.leaf? = (Fragment.parse text).unit.tokens := hledger.leaves_eq
  have hgiven : es.filterMap (Entry.present? (stopOf text)) = tokensOf text := by
    simpa using htally.tokens
  have hexpected := htally.reports
  rw [hleaves] at hexpected
  refine ⟨?_, hexpected, ⟨es, hledger, hleaves, hgiven⟩, fun hclean => ?_⟩
  · rw [← hleaves, ← hgiven]
    exact sublist_present? es
  · have hnone : ∀ t ∈ (Fragment.parse text).unit.tokens, ¬ t.IsPlaceholder (stopOf text) := by
      rw [hclean] at hexpected
      simpa using List.map_eq_nil_iff.mp hexpected.symm
    have htokens : (Fragment.parse text).unit.tokens = tokensOf text := by
      rw [← hgiven, hledger.eq_leaves hnone, present?_leaves hnone]
    have hlexical : lexicalReports text = [] := (List.append_eq_nil_iff.mp hclean).1
    refine ⟨htokens, ?_⟩
    rw [htokens, tokensOf, List.flatMap_append, Token.flatMap_significantTokens hlen hlexical]
    simp [Token.eofAt]

/-- A parenthesis that no statement starts with is dropped in the block, and the number after the
block with the end of the text. -/
theorem stray_tokens_accounted :
    let text := "\x7b ) a \x7d 1"
    Text.byteLength text.toList < 2 ^ 32 ∧
    (Fragment.parse text).unit.tokens.map (fun t => (t.kind, t.span.pos)) = [(.openBrace, 0),
      (.identifier, 2), (.identifier, 4), (.closeBrace, 6), (.eof, 8)] ∧
    (Fragment.parse text).diagnostics.filterMap expected? = [("Identifier", 2), ("End", 8)] ∧
    (Fragment.parse "a = 1 + 2").unit.tokens.flatMap (·.text.toList) =
      ['a', '=', '1', '+', '2'] := by
  intro text
  have hlen : Text.byteLength text.toList < 2 ^ 32 := by decide
  have hspelled := ((tokens_accounted "a = 1 + 2" (by decide)).clean (by decide +kernel)).2
  refine ⟨hlen, by decide +kernel, (tokens_accounted text hlen).made.trans (by decide +kernel),
    hspelled.trans (by decide +kernel)⟩

/-! ## Lengths that wrap -/

/-- A text is read from its lexemes alone. -/
theorem Fragment.parse_of_lexemes {text : String} {ls : List Lexeme}
    (h : lexemes text = ls) :
    let parsed := parseUnit (ls.getLast?.elim 0 (·.token.span.stop))
      ((ls.map (·.token)).filter isSignificant)
    Fragment.parse text = ⟨text, parsed.value, ls.filterMap (·.report) ++ parsed.reports⟩ := by
  subst h
  rfl

theorem word_cut_off {n : Nat} (hn : (n + 1) % Span.lengthBound = 1) (hpos : 0 < n) :
    let text := String.ofList ('a' :: List.replicate n 'a')
    (Fragment.parse text).diagnostics = [] ∧
      (Fragment.parse text).unit.tokens.flatMap (·.text.toList) = ['a'] ∧ ¬ Accounts text := by
  intro text
  have hparse := Fragment.parse_of_lexemes (Token.lexemes_of_word hn)
  have hclean : (Fragment.parse text).diagnostics = [] := by
    simp only [text, hparse]
    decide +kernel
  have hleaves : (Fragment.parse text).unit.tokens.flatMap (·.text.toList) = ['a'] := by
    simp only [text, hparse]
    decide +kernel
  refine ⟨hclean, hleaves, fun h => ?_⟩
  have hspelled := (h.clean hclean).2
  have hkeep : ∀ c ∈ 'a' :: List.replicate n 'a', (!Text.isWhitespace c) = true := by
    intro c hc
    rw [← List.replicate_succ] at hc
    rw [List.eq_of_mem_replicate hc]
    decide
  rw [hleaves, String.toList_ofList, List.filter_eq_self.mpr hkeep] at hspelled
  have hlength := congrArg List.length hspelled
  simp only [List.length_cons, List.length_nil, List.length_replicate] at hlength
  omega

/-- A letter more than a length can count: of the whole word, one letter is left in the tree, and
nothing is reported. -/
theorem long_word_cut_off :
    let text := String.ofList ('a' :: List.replicate (2 ^ 32) 'a')
    (Fragment.parse text).diagnostics = [] ∧
      (Fragment.parse text).unit.tokens.flatMap (·.text.toList) = ['a'] ∧ ¬ Accounts text :=
  word_cut_off (by decide) (by decide)

end Syntax

end Scriptlet
