import Scriptlet.Chain
import Scriptlet.Proofs.Binding.Unplaced
import Scriptlet.Proofs.Syntax.Spans

/-!
# Layout

A fragment is made from the kinds and the texts of its tokens. White space between them, and bad
characters, change nothing but places, and so does to write the tokens with one blank between each
two of them.
-/

namespace Scriptlet

namespace Token

open Text

/-! ## Kind and text say everything but the place -/

/-- What the grammar sees of a text, without the places. -/
def spelling (text : String) : List (Kind × List Char) :=
  (significantTokens text).map fun t => (t.kind, t.text.toList)

def ofSpelling (p : Kind × List Char) : Token where
  kind := p.1
  span := ⟨0, byteLength p.2⟩
  text := String.ofList p.2
  value :=
    if p.1 = .number ∧ numeral p.2 ≤ 2147483647 then some (.int (.ofNat (numeral p.2))) else none

theorem Valued.eq_ofSpelling {t : Token} (h : Valued t) :
    t.value = (ofSpelling (t.kind, t.text.toList)).value := by
  simp only [ofSpelling]
  by_cases hkind : t.kind = .number
  · by_cases hfits : numeral t.text.toList ≤ 2147483647
    · obtain ⟨n, hvalue, hn⟩ := h.fits hkind hfits
      have hlt : numeral t.text.toList < 2 ^ 31 := Nat.lt_succ_of_le hfits
      have heq : n = .ofNat (numeral t.text.toList) := by
        apply Int32.toInt_inj.mp
        rw [hn, Int32.toInt_ofNat_of_lt hlt]
      rw [if_pos ⟨hkind, hfits⟩, hvalue, heq]
    · rw [if_neg fun hand => hfits hand.2]
      exact h.large hkind (Nat.lt_of_not_le hfits)
  · rw [if_neg fun hand => hkind hand.1]
    exact h.other hkind

theorem Lexeme.all_len {p : Place} {cs : List Char} (h : p.Level cs) :
    ∀ l ∈ all p cs, l.token.span.len = byteLength l.token.text.toList := by
  fun_induction all p cs with
  | case1 => simp
  | case2 p c cs step ih =>
    obtain ⟨chars, _, _, hsound, hlevel⟩ := read_munch h
    refine List.forall_mem_cons.mpr ⟨?_, ih hlevel⟩
    rw [hsound.span, hsound.text, String.toList_ofList]

theorem tokens_unplaced {text : String} (hlen : byteLength text.toList < Span.lengthBound)
    {t : Token} (ht : t ∈ tokens text) : t.unplaced = ofSpelling (t.kind, t.text.toList) := by
  have hvalue := (tokens_valued hlen t ht).eq_ofSpelling
  obtain ⟨l, hl, rfl⟩ := List.mem_map.mp ht
  unfold unplaced
  rw [Lexeme.all_len (Place.level_start hlen) l hl, hvalue, ofSpelling, String.ofList_toList]

theorem significantTokens_unplaced {text : String}
    (hlen : byteLength text.toList < Span.lengthBound) :
    (significantTokens text).map unplaced = (spelling text).map ofSpelling := by
  rw [spelling, List.map_map]
  refine List.map_congr_left fun t ht => ?_
  exact tokens_unplaced hlen (List.mem_of_mem_filter ht)

/-! ## Tokens with blanks between them -/

/-- The tokens of a text other than white space, with one blank between each two of them. -/
def respaced (text : String) : String :=
  " ".intercalate (((tokens text).filter (·.kind != .whitespace)).map (·.text))

/-- A spelling cannot be read any further where white space begins or ends. -/
theorem Spells.munch {kind : Kind} {lexeme rest : List Char} (hs : Spells kind lexeme)
    (hnext : ∀ c ∈ rest.head?, isWhitespace c ≠ decide (kind = .whitespace)) :
    Munch rest kind lexeme := by
  refine .longest hs fun kind' other hs' hother => ?_
  apply Nat.le_of_not_lt
  intro hlt
  obtain ⟨tail, rfl⟩ := List.prefix_of_prefix_length_le (List.prefix_append lexeme rest) hother
    (Nat.le_of_lt hlt)
  obtain ⟨d, tail, rfl⟩ : ∃ d tail', tail = d :: tail' := by
    apply List.exists_cons_of_ne_nil
    rintro rfl
    simp at hlt
  obtain ⟨rest, rfl⟩ := (List.prefix_append_right_inj lexeme).mp hother
  -- the last spelling is uniform, and it has a character of the first one
  obtain ⟨c, lexeme, rfl⟩ := List.exists_cons_of_ne_nil hs.ne_nil
  apply hnext d (by simp)
  rw [hs'.isWhitespace_eq d (by simp), ← hs'.isWhitespace_eq c (by simp),
    hs.isWhitespace_eq c (by simp)]

theorem blank_spells : Spells .whitespace [' '] := by
  have hblank : isWhitespace ' ' = true := by decide
  exact .whitespace (by simp) (by simpa using hblank)

theorem pieces_intersperse : ∀ ps : List (Kind × List Char),
    (∀ p ∈ ps, Spells p.1 p.2 ∧ p.1 ≠ .whitespace) →
    Pieces ([' '].intercalate (ps.map (·.2))) (ps.intersperse (.whitespace, [' '])) ∧
      ∀ c ∈ ([' '].intercalate (ps.map (·.2))).head?, isWhitespace c = false
  | [], _ => ⟨.nil, by simp⟩
  | [p], hps => by
    obtain ⟨hs, hp⟩ := hps p List.mem_cons_self
    have hpieces : Pieces (p.2 ++ []) [p] := .cons (hs.munch (by simp)) .nil
    rw [List.append_nil] at hpieces
    refine ⟨by simpa using hpieces, fun c hc => ?_⟩
    rw [hs.isWhitespace_eq c (List.mem_of_mem_head? (by simpa using hc)), decide_eq_false hp]
  | p :: q :: ps, hps => by
    obtain ⟨⟨hs, hp⟩, hqs⟩ := List.forall_mem_cons.mp hps
    obtain ⟨hpieces, hhead⟩ := pieces_intersperse (q :: ps) hqs
    rw [List.map_cons, List.map_cons, List.intercalate_cons_cons, ← List.map_cons,
      List.intersperse_cons_cons, List.append_assoc]
    refine ⟨.cons (hs.munch ?_) (.cons (blank_spells.munch ?_) hpieces), fun c hc => ?_⟩
    · intro c hc
      cases hc
      rw [decide_eq_false hp]
      decide
    · intro c hc
      rw [hhead c hc]
      decide
    · have hmem : c ∈ p.2 := by
        obtain ⟨d, lexeme, hlexeme⟩ := List.exists_cons_of_ne_nil hs.ne_nil
        simp only [hlexeme, List.cons_append, List.head?_cons, Option.mem_some_iff] at hc ⊢
        simp [hc]
      rw [hs.isWhitespace_eq c hmem, decide_eq_false hp]

theorem filter_intersperse : ∀ ps : List (Kind × List Char), (∀ p ∈ ps, p.1 ≠ .whitespace) →
    (ps.intersperse (.whitespace, [' '])).filter (·.1 != .whitespace) = ps
  | [], _ => rfl
  | [p], hps => by
    have hp := hps p List.mem_cons_self
    simp [hp]
  | p :: q :: ps, hps => by
    obtain ⟨hp, hqs⟩ := List.forall_mem_cons.mp hps
    rw [List.intersperse_cons_cons, List.filter_cons_of_pos (by simpa using hp),
      List.filter_cons_of_neg (by simp), filter_intersperse (q :: ps) hqs]

section
variable {text : String} (hlen : byteLength text.toList < Span.lengthBound)
  (h : lexicalReports text = [])
include hlen h

theorem kind_ne_bad {t : Token} (ht : t ∈ tokens text) : t.kind ≠ .bad := by
  intro hbad
  rw [lexicalReports_eq hlen] at h
  exact fault?_of_bad hlen ht hbad (List.filterMap_eq_nil_iff.mp h t ht)

theorem significantTokens_eq :
    significantTokens text = (tokens text).filter (·.kind != .whitespace) := by
  refine List.filter_congr fun t ht => ?_
  have hbad := kind_ne_bad hlen h ht
  simp [isSignificant, hbad]

theorem spelling_spells :
    ∀ p ∈ spelling text, Spells p.1 p.2 ∧ p.1 ≠ .whitespace := by
  intro p hp
  obtain ⟨t, ht, rfl⟩ := List.mem_map.mp hp
  rw [significantTokens_eq hlen h] at ht
  obtain ⟨hmem, hblank⟩ := List.mem_filter.mp ht
  obtain ⟨rest, hmunch⟩ := tokens_munch hlen hmem
  exact ⟨hmunch.spells (kind_ne_bad hlen h hmem), bne_iff_ne.mp hblank⟩

theorem toList_respaced :
    (respaced text).toList = [' '].intercalate ((spelling text).map (·.2)) := by
  rw [respaced, String.toList_intercalate, ← significantTokens_eq hlen h, spelling, List.map_map,
    List.map_map]
  rfl

end

theorem fault?_unplaced (t : Token) : fault? t.unplaced = none ↔ fault? t = none := by
  unfold fault?
  simp only [unplaced_kind, unplaced_text, unplaced_value]
  cases t.kind with
  | bad => simp
  | number => by_cases hvalue : t.value = none <;> simp [hvalue]
  | _ => simp

section
variable {text : String} (hlen : byteLength text.toList < Span.lengthBound)
  (hlen' : byteLength (respaced text).toList < Span.lengthBound) (h : lexicalReports text = [])
include hlen hlen' h

theorem filter_tokens_respaced :
    ((tokens (respaced text)).map fun t => (t.kind, t.text.toList)).filter (·.1 != .whitespace) =
      spelling text := by
  have hps := spelling_spells hlen h
  have hread := tokens_pieces hlen'
  rw [toList_respaced hlen h] at hread
  rw [hread.unique (pieces_intersperse _ hps).1]
  exact filter_intersperse _ fun p hp => (hps p hp).2

theorem lexicalReports_respaced : lexicalReports (respaced text) = [] := by
  have hspelling := filter_tokens_respaced hlen hlen' h
  rw [lexicalReports_eq hlen, List.filterMap_eq_nil_iff] at h
  rw [lexicalReports_eq hlen', List.filterMap_eq_nil_iff]
  intro t ht
  by_cases hblank : t.kind = .whitespace
  · simp [fault?, hblank]
  · have hmem : (t.kind, t.text.toList) ∈ spelling text := by
      rw [← hspelling]
      exact List.mem_filter.mpr ⟨List.mem_map_of_mem ht, bne_iff_ne.mpr hblank⟩
    obtain ⟨u, hu, heq⟩ := List.mem_map.mp hmem
    have humem : u ∈ tokens text := List.mem_of_mem_filter hu
    rw [← fault?_unplaced, tokens_unplaced hlen' ht, ← heq, ← tokens_unplaced hlen humem,
      fault?_unplaced]
    exact h u humem

theorem spelling_respaced : spelling (respaced text) = spelling text := by
  rw [← filter_tokens_respaced hlen hlen' h, spelling,
    significantTokens_eq hlen' (lexicalReports_respaced hlen hlen' h), List.filter_map]
  rfl

end

end Token

/-! ## Fragments of the same tokens -/

open Binding (Layer)
open Run (Halt Store)
open Syntax (Fragment)
open Token (spelling respaced lexicalReports)

def Syntax.Fragment.unexpectedTokens (f : Fragment) : List Fault :=
  (f.diagnostics.map (·.fault)).filter (·.stage = .grammar)

/-- The two texts read as the same tree, up to places, with the same faults of the grammar, and
after any fragments they mean the same, with the same new faults of binding. -/
structure SameReading (text text' : String) : Prop where
  unit : (Fragment.parse text').unit.unplaced = (Fragment.parse text).unit.unplaced
  unexpected : (Fragment.parse text').unexpectedTokens = (Fragment.parse text).unexpectedTokens
  stmt : ∀ history, (Layer.bind history (Fragment.parse text').unit).stmt =
    (Layer.bind history (Fragment.parse text).unit).stmt
  declared : ∀ history, (Layer.bind history (Fragment.parse text').unit).declared =
    (Layer.bind history (Fragment.parse text).unit).declared
  reports : ∀ history, ∃ new new' : List Diagnostic,
    (Layer.bind history (Fragment.parse text).unit).diagnostics =
        Layer.diagnosticsOf history ++ new ∧
      (Layer.bind history (Fragment.parse text').unit).diagnostics =
        Layer.diagnosticsOf history ++ new' ∧
      new'.map (·.fault) = new.map (·.fault)

def Evaluation.unplaced :
    EStateM.Result Halt Store Evaluation → EStateM.Result Halt Store (List Fault × Option Value)
  | .ok e store => .ok (e.diagnostics.map (·.fault), e.value) store
  | .error halt store => .error halt store

def SameRuns (text text' : String) : Prop :=
  ∀ (chain : Chain) (limit : Nat) (store : Store),
    Evaluation.unplaced ((Link.after chain (Fragment.parse text')).evaluate limit store) =
      Evaluation.unplaced ((Link.after chain (Fragment.parse text)).evaluate limit store)

theorem lexicalReports_unexpectedTokens {text : String}
    (hlen : Text.byteLength text.toList < Span.lengthBound) :
    ((lexicalReports text).map (·.fault)).filter (·.stage = .grammar) = [] := by
  rw [Token.lexicalReports_eq hlen, List.filter_eq_nil_iff]
  intro fault hfault
  obtain ⟨d, hd, rfl⟩ := List.mem_map.mp hfault
  obtain ⟨t, _, ht⟩ := List.mem_filterMap.mp hd
  rw [(Token.span_of_fault? ht).2]
  decide

theorem bindStmt_of_unplaced {s s' : Syntax.Stmt} (h : s'.unplaced = s.unplaced)
    (outer : ScopeStack) (scope : Scope) :
    (Binding.bindStmt outer scope s).Alike (Binding.bindStmt outer scope s') := by
  have hs := Binding.bindStmt_unplaced outer scope s
  have hs' := Binding.bindStmt_unplaced outer scope s'
  rw [h] at hs'
  exact ⟨hs'.tree.symm.trans hs.tree, hs'.scope.symm.trans hs.scope,
    hs'.faults.symm.trans hs.faults⟩

theorem Link.evaluate_unplaced {l l' : Link}
    (hfaults : l'.diagnostics.map (·.fault) = l.diagnostics.map (·.fault))
    (hstmt : l'.layer.stmt = l.layer.stmt) (limit : Nat) (store : Store) :
    Evaluation.unplaced (l'.evaluate limit store) =
      Evaluation.unplaced (l.evaluate limit store) := by
  have hempty : l'.diagnostics.isEmpty = l.diagnostics.isEmpty := by
    rw [← List.isEmpty_map (f := (·.fault)), hfaults, List.isEmpty_map]
  unfold Link.evaluate Link.run
  rw [hempty, hstmt]
  by_cases hclean : l.diagnostics.isEmpty = true
  · rw [if_pos hclean, if_pos hclean]
  · rw [if_neg hclean, if_neg hclean]
    simp only [Evaluation.unplaced, hfaults]

section
variable {text text' : String} (hlen : Text.byteLength text.toList < Span.lengthBound)
  (hlen' : Text.byteLength text'.toList < Span.lengthBound)
include hlen hlen'

theorem parseUnit_of_spelling (h : spelling text = spelling text') (stop stop' : Nat) :
    (Syntax.parseUnit stop' (Token.significantTokens text')).value.unplaced =
        (Syntax.parseUnit stop (Token.significantTokens text)).value.unplaced ∧
      (Syntax.parseUnit stop' (Token.significantTokens text')).reports.map (·.fault) =
        (Syntax.parseUnit stop (Token.significantTokens text)).reports.map (·.fault) := by
  have hread := Syntax.parseUnit_forgets stop (Token.significantTokens text)
  have hread' := Syntax.parseUnit_forgets stop' (Token.significantTokens text')
  rw [Token.significantTokens_unplaced hlen] at hread
  rw [Token.significantTokens_unplaced hlen'] at hread'
  rw [← h] at hread'
  exact ⟨hread'.value.symm.trans hread.value, hread'.faults.symm.trans hread.faults⟩

theorem SameReading.of_spelling (h : spelling text = spelling text') :
    SameReading text text' := by
  obtain ⟨hunit, hfaults⟩ :=
    parseUnit_of_spelling hlen hlen' h (Token.stopOf text) (Token.stopOf text')
  have hbound := fun history : List Layer =>
    bindStmt_of_unplaced (congrArg Syntax.SourceUnit.stmt hunit) (Layer.scopes history) {}
  refine ⟨hunit, ?_, fun history => (hbound history).tree, fun history => ?_, fun history => ?_⟩
  · simp only [Fragment.unexpectedTokens, Fragment.parse, List.map_append, List.filter_append,
      lexicalReports_unexpectedTokens hlen, lexicalReports_unexpectedTokens hlen', hfaults]
  · exact congrArg Scope.declared (hbound history).scope
  · exact ⟨_, _, rfl, rfl, (hbound history).faults⟩

theorem SameRuns.of_spelling (h : spelling text = spelling text')
    (hclean : lexicalReports text = []) (hclean' : lexicalReports text' = []) :
    SameRuns text text' := by
  have hsame := SameReading.of_spelling hlen hlen' h
  obtain ⟨_, hfaults⟩ :=
    parseUnit_of_spelling hlen hlen' h (Token.stopOf text) (Token.stopOf text')
  intro chain limit store
  obtain ⟨new, new', hnew, hnew', heq⟩ := hsame.reports (chain.map (·.layer))
  refine Link.evaluate_unplaced ?_ (hsame.stmt _) limit store
  simp only [Link.diagnostics, Link.after, Fragment.parse, hclean, hclean', List.nil_append]
    at hnew hnew' ⊢
  rw [hnew, hnew']
  simp only [List.map_append, hfaults, heq]

end

/-- Texts whose tokens have the same kinds and texts, up to white space and bad characters, have the
same trees and the same meaning; if none of their characters and numbers is at fault, they run
alike. A text without such faults may be written with one blank between each two tokens. -/
theorem layout_immaterial :
    (∀ text text', Text.byteLength text.toList < 2 ^ 32 → Text.byteLength text'.toList < 2 ^ 32 →
      spelling text = spelling text' → SameReading text text' ∧
        (lexicalReports text = [] → lexicalReports text' = [] → SameRuns text text')) ∧
    ∀ text, Text.byteLength text.toList < 2 ^ 32 →
      Text.byteLength (respaced text).toList < 2 ^ 32 → lexicalReports text = [] →
        SameReading text (respaced text) ∧ SameRuns text (respaced text) := by
  refine ⟨fun text text' hlen hlen' h => ⟨.of_spelling hlen hlen' h, .of_spelling hlen hlen' h⟩,
    fun text hlen hlen' hclean => ?_⟩
  have h := (Token.spelling_respaced hlen hlen' hclean).symm
  exact ⟨.of_spelling hlen hlen' h,
    .of_spelling hlen hlen' h hclean (Token.lexicalReports_respaced hlen hlen' hclean)⟩

/-- A placeholder and a bad character on lines of their own, and a program without any blank. -/
theorem glued_and_spread_alike :
    let spread := "\x7b\n  let é = (1 +\n $ a\n"
    let glued := "\x7blet é=(1+a"
    let program := "\x7bvar a=1<2 a=!a\x7d"
    (Text.byteLength spread.toList < 2 ^ 32 ∧ Text.byteLength glued.toList < 2 ^ 32 ∧
        spelling spread = spelling glued ∧ lexicalReports spread ≠ [] ∧ SameReading spread glued) ∧
      Text.byteLength program.toList < 2 ^ 32 ∧ Text.byteLength (respaced program).toList < 2 ^ 32 ∧
      lexicalReports program = [] ∧ respaced program = "\x7b var a = 1 < 2 a = ! a \x7d" ∧
      SameRuns program (respaced program) := by
  intro spread glued program
  have hspread : Text.byteLength spread.toList < 2 ^ 32 := by decide
  have hglued : Text.byteLength glued.toList < 2 ^ 32 := by decide
  have hprogram : Text.byteLength program.toList < 2 ^ 32 := by decide
  have hrespaced : Text.byteLength (respaced program).toList < 2 ^ 32 := by decide +kernel
  have hspelling : spelling spread = spelling glued := by decide +kernel
  have hclean : lexicalReports program = [] := by decide +kernel
  refine ⟨⟨hspread, hglued, hspelling, by decide +kernel, ?_⟩, hprogram, hrespaced, hclean,
    by decide +kernel, ?_⟩
  · exact (layout_immaterial.1 spread glued hspread hglued hspelling).1
  · exact (layout_immaterial.2 program hprogram hrespaced hclean).2

end Scriptlet
