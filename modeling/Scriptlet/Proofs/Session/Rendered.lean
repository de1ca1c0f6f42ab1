import Scriptlet.Proofs.Binding.Printable
import Scriptlet.Proofs.Session.TypeSound

/-!
# Rejected fragments are shown

Whatever a session has been through, all that it reports of a text has its place in that text: the
faults of earlier fragments are gone with them. So every report can be shown, on three lines.
-/

namespace Scriptlet

open Text

/-! ## One report -/

/-- Looking up a span takes no number from a smaller one, and the cut line is the line the span
starts on. -/
structure Text.LineMap.Steady (m : LineMap) (s : Span) : Prop where
  searched : search s.pos m.starts ≠ .error 0
  start : ∃ start, m.starts[m.lineIndex s.pos]? = some start ∧ start ≤ s.pos ∧ start ≤ s.stop ∧
    ∀ next, m.starts[m.lineIndex s.pos + 1]? = some next → start < next
  cut : ∃ cut, m.cut? s = some cut ∧
    m.line? (m.lineIndex s.pos) = some (cut.before ++ cut.covered ++ cut.after)

def ThreeLines (s : String) : Prop :=
  ∃ first second third, OneLine first ∧ OneLine second ∧ OneLine third ∧
    s = first ++ "\n" ++ second ++ "\n" ++ third ++ "\n"

section
variable {text : String} {s : Span}

theorem Span.Fits.exists_isLine (h : s.Fits text) :
    ∃ i head before after rest, IsLine text.toList i head (before ++ after) rest ∧
      s.pos = byteLength head + byteLength before := by
  obtain ⟨front, back, hwhole, hpos⟩ := h.pos
  obtain ⟨head, before, after, rest, rfl, rfl, hline⟩ := Text.exists_isLine front back
  rw [hwhole] at hline
  exact ⟨_, head, before, after, rest, hline, by rw [← hpos, byteLength_append]⟩

theorem Span.Fits.exists_cut (h : s.Fits text) {i : Nat} {head before after rest : List Char}
    (hline : IsLine text.toList i head (before ++ after) rest)
    (hpos : s.pos = byteLength head + byteLength before) :
    ∃ cut, (LineMap.ofText text).cut? s = some cut ∧
      cut.before ++ cut.covered ++ cut.after = LineMap.dropTrailingReturns (before ++ after) := by
  apply hline.cut? h.pos h.stop
  · omega
  · rw [byteLength_append]
    omega

theorem Span.Fits.steady (h : s.Fits text) : (LineMap.ofText text).Steady s := by
  obtain ⟨i, head, before, after, rest, hline, hpos⟩ := h.exists_isLine
  have hstop : s.pos ≤ s.stop := Nat.le_add_right _ _
  obtain ⟨hsearch, hindex⟩ : search s.pos (LineMap.ofText text).starts ≠ .error 0 ∧
      (LineMap.ofText text).lineIndex s.pos = i := by
    apply hline.lineIndex
    · omega
    · rw [byteLength_append]
      omega
  constructor
  · exact hsearch
  · rw [hindex]
    refine ⟨byteLength head, hline.start, by omega, by omega, fun next hnext => ?_⟩
    have hhead := hline.next.symm.trans hnext
    have hbounds := LineMap.startsAfter_bounds _ rest next (List.mem_of_mem_head? hhead)
    omega
  · obtain ⟨cut, hcut, hsource⟩ := h.exists_cut hline hpos
    refine ⟨cut, hcut, ?_⟩
    rw [hindex, hsource]
    exact hline.line?

end

theorem oneLine_marker (k n : Nat) : OneLine (Diagnostic.marker k n) := by
  apply oneLine_ofList
  simp

theorem Diagnostic.render?_of_fits {text : String} {d : Diagnostic} (hfits : d.span.Fits text)
    (hplain : d.fault.Plain) :
    ∃ shown, d.render? (LineMap.ofText text) = some shown ∧ ThreeLines shown := by
  obtain ⟨i, head, before, after, rest, hline, hpos⟩ := hfits.exists_isLine
  have hposition : (LineMap.ofText text).position? d.span.pos =
      some (i + 1, before.length + 1) := by
    rw [hpos]
    exact hline.position?
  obtain ⟨cut, hcut, hsource⟩ := hfits.exists_cut hline hpos
  have hquoted : OneLine (String.ofList (cut.before ++ cut.covered ++ cut.after)) := by
    apply oneLine_ofList
    rw [hsource]
    exact fun h => hline.inner ((LineMap.dropTrailingReturns_prefix _).subset h)
  have hfirst : OneLine ("(" ++ toString (i + 1) ++ ", " ++ toString (before.length + 1) ++ "): " ++
      d.message) := by
    have hrow : OneLine ("(" ++ toString (i + 1) ++ ", ") :=
      .quote (by decide) (oneLine_number _) (by decide)
    exact (OneLine.quote hrow (oneLine_number _) (by decide)).append hplain.message
  have hmargin : OneLine Diagnostic.margin := by decide
  have hmarks := oneLine_marker cut.before.length cut.covered.length
  refine ⟨_, by rw [Diagnostic.render?, hposition, hcut]; rfl, ?_⟩
  refine ⟨_, _, _, hfirst, hmargin.append hquoted, hmargin.append hmarks, ?_⟩
  simp only [String.append_assoc]
  rfl

/-! ## All reports of a text -/

/-- The faults of the lexer come first, then those of the grammar, then those of binding; the first
two follow the text. -/
structure Diagnostic.InOrder (ds : List Diagnostic) : Prop where
  stages : ds = ds.filter (·.fault.stage = .lexical) ++ (ds.filter (·.fault.stage = .grammar) ++
    ds.filter (·.fault.stage = .binding))
  lexical : (ds.filter (·.fault.stage = .lexical)).Pairwise (·.span.pos < ·.span.pos)
  grammar : (ds.filter (·.fault.stage = .grammar)).Pairwise (·.span.pos ≤ ·.span.pos)

structure Diagnostic.WrittenOut (text : String) (ds : List Diagnostic) (output : String) :
    Prop where
  ordered : InOrder ds
  fits : ∀ d ∈ ds, d.span.pos ≤ d.span.stop ∧ d.span.stop ≤ byteLength text.toList ∧
    d.span.Fits text
  steady : ∀ d ∈ ds, (LineMap.ofText text).Steady d.span
  lines : ∃ parts : List String, ds.map (render? (LineMap.ofText text)) = parts.map some ∧
    output = String.join parts ∧ ∀ part ∈ parts, ThreeLines part

theorem filter_stage {text : String} {ds : List Diagnostic} {stage : Fault.Stage}
    (h : ∀ d ∈ ds, d.Printable text stage) (stage' : Fault.Stage) :
    ds.filter (·.fault.stage = stage') = if stage = stage' then ds else [] := by
  by_cases hstage : stage = stage'
  · rw [if_pos hstage, List.filter_eq_self]
    intro d hd
    simp [(h d hd).stage, hstage]
  · rw [if_neg hstage, List.filter_eq_nil_iff]
    intro d hd
    simp [(h d hd).stage, hstage]

theorem Diagnostic.InOrder.of_stages {text : String} {lexical grammar binding : List Diagnostic}
    (hlexical : ∀ d ∈ lexical, d.Printable text .lexical)
    (hgrammar : ∀ d ∈ grammar, d.Printable text .grammar)
    (hbinding : ∀ d ∈ binding, d.Printable text .binding)
    (hfirst : lexical.Pairwise (·.span.pos < ·.span.pos))
    (hsecond : grammar.Pairwise (·.span.pos ≤ ·.span.pos)) :
    InOrder (lexical ++ (grammar ++ binding)) := by
  constructor
  · simp [filter_stage hlexical, filter_stage hgrammar, filter_stage hbinding]
  · simpa [filter_stage hlexical, filter_stage hgrammar, filter_stage hbinding] using hfirst
  · simpa [filter_stage hlexical, filter_stage hgrammar, filter_stage hbinding] using hsecond

theorem Diagnostic.renderAll?_of_printable {text : String} {ds : List Diagnostic}
    (h : ∀ d ∈ ds, d.span.Fits text ∧ d.fault.Plain) :
    ∃ parts, ds.map (render? (LineMap.ofText text)) = parts.map some ∧
      renderAll? text ds = some (String.join parts) ∧ ∀ part ∈ parts, ThreeLines part := by
  have hparts : ∃ parts, ds.mapM (render? (LineMap.ofText text)) = some parts ∧
      ds.map (render? (LineMap.ofText text)) = parts.map some ∧
      ∀ part ∈ parts, ThreeLines part := by
    induction ds with
    | nil => exact ⟨[], rfl, rfl, by simp⟩
    | cons d ds ih =>
      obtain ⟨hd, hds⟩ := List.forall_mem_cons.mp h
      obtain ⟨parts, hall, hmap, hlines⟩ := ih hds
      obtain ⟨shown, hshown, hthree⟩ := render?_of_fits hd.1 hd.2
      refine ⟨shown :: parts, ?_, ?_, List.forall_mem_cons.mpr ⟨hthree, hlines⟩⟩
      · rw [List.mapM_cons, hshown, hall]
        rfl
      · rw [List.map_cons, List.map_cons, hshown, hmap]
  obtain ⟨parts, hall, hmap, hlines⟩ := hparts
  refine ⟨parts, hmap, ?_, hlines⟩
  rw [renderAll?, hall]
  rfl

/-! ## Submissions -/

open Run (Store)
open Syntax (Fragment)
open Token (lexicalReports)

/-- Sound chains are without fault, so all that is reported is of the fragment at hand. -/
theorem Chain.Sound.diagnostics {chain : Chain} {store : Store} (h : chain.Sound store)
    (fragment : Fragment) : (Link.after chain fragment).diagnostics =
      fragment.diagnostics ++ chain.reportsOf fragment := by
  have hnone : Binding.Layer.diagnosticsOf (chain.map (·.layer)) = [] := by
    cases chain with
    | nil => rfl
    | cons l chain => exact (List.append_eq_nil_iff.mp (h.clean l List.mem_cons_self)).2
  show fragment.diagnostics ++ (Binding.Layer.diagnosticsOf (chain.map (·.layer)) ++
    chain.reportsOf fragment) = _
  rw [hnone, List.nil_append]

theorem Chain.Sound.writtenOut {chain : Chain} {store : Store} (h : chain.Sound store)
    {text : String} (hlen : byteLength text.toList < Span.lengthBound) :
    ∃ output, Diagnostic.renderAll? text (Link.after chain (Fragment.parse text)).diagnostics =
        some output ∧
      Diagnostic.WrittenOut text (Link.after chain (Fragment.parse text)).diagnostics output := by
  have hlexical := lexicalReports_printable hlen
  obtain ⟨hordered, hunexpected⟩ := Syntax.parseUnit_reports hlen
  have hgrammar : ∀ d ∈ (Syntax.parseUnit (Token.stopOf text)
      (Token.significantTokens text)).reports, d.Printable text .grammar := by
    intro d hd
    obtain ⟨kind, u, hu, rfl⟩ := hunexpected d hd
    exact unexpected_printable hu kind
  have hstmt : ∀ t ∈ (Fragment.parse text).unit.stmt.tokens, t.Placed text := by
    intro t ht
    apply Syntax.Fragment.tokens_placed hlen
    exact List.mem_append_left _ ht
  have hbinding : ∀ d ∈ chain.reportsOf (Fragment.parse text), d.Printable text .binding :=
    Binding.bindStmt_printable hlen chain.scopes {} _ hstmt
  have hall : (Link.after chain (Fragment.parse text)).diagnostics = lexicalReports text ++
      ((Syntax.parseUnit (Token.stopOf text) (Token.significantTokens text)).reports ++
        chain.reportsOf (Fragment.parse text)) := by
    rw [h.diagnostics, ← List.append_assoc]
    rfl
  have hprintable : ∀ d ∈ (Link.after chain (Fragment.parse text)).diagnostics,
      d.span.Fits text ∧ d.fault.Plain := by
    intro d hd
    simp only [hall, List.mem_append] at hd
    rcases hd with hd | hd | hd
    · exact ⟨(hlexical d hd).fits, (hlexical d hd).plain⟩
    · exact ⟨(hgrammar d hd).fits, (hgrammar d hd).plain⟩
    · exact ⟨(hbinding d hd).fits, (hbinding d hd).plain⟩
  obtain ⟨parts, hmap, hrender, hlines⟩ := Diagnostic.renderAll?_of_printable hprintable
  refine ⟨_, hrender, ?_, fun d hd => ?_, fun d hd => (hprintable d hd).1.steady, ?_⟩
  · rw [hall]
    exact .of_stages hlexical hgrammar hbinding (Token.lexicalReports_increasing hlen) hordered
  · have hfits := (hprintable d hd).1
    exact ⟨Nat.le_add_right _ _, hfits.stop.le, hfits⟩
  · exact ⟨parts, hmap, rfl, hlines⟩

namespace Session

theorem submit_of_clean {s : Session} {fragment : Fragment}
    (h : (Link.after s.previous fragment).diagnostics = []) (limit : Nat) :
    (s.submit limit fragment).1.result ≠ .error .unrenderable ∧
      ∀ n, (s.submit limit fragment).1.result ≠ .ok (.rejected n) := by
  have hclean : (Link.after s.previous fragment).diagnostics.isEmpty = true := by rw [h]; rfl
  unfold submit Link.evaluate
  simp only [hclean, if_true]
  cases (Link.after s.previous fragment).run limit s.store with
  | ok value store => simp
  | error halt store => cases halt <;> simp

theorem submit_of_faults {s : Session} {fragment : Fragment} {output : String}
    (h : (Link.after s.previous fragment).diagnostics ≠ [])
    (hrender : Diagnostic.renderAll? fragment.text (Link.after s.previous fragment).diagnostics =
      some output) (limit : Nat) :
    (s.submit limit fragment).1 = ⟨s.dumps (Link.after s.previous fragment) ++ output,
      .ok (.rejected (Link.after s.previous fragment).diagnostics.length)⟩ := by
  have hfaults : ¬ (Link.after s.previous fragment).diagnostics.isEmpty = true := fun hempty =>
    h (List.isEmpty_iff.mp hempty)
  unfold submit Link.evaluate
  simp only [if_neg hfaults, hrender]

/-- Whatever was done with a session before, a text with faults is rejected and its faults are
written out, three lines for each of them. All of them are faults of this text. -/
theorem rejected_texts_shown (limit : Nat) (showTree showProgram : Bool) (actions : List Action)
    (text : String) (hlen : byteLength text.toList < 2 ^ 32) :
    let s := ((⟨[], {}, showTree, showProgram⟩ : Session).actAll limit actions).2
    let link := Link.after s.previous (Fragment.parse text)
    let reply := (s.submit limit (Fragment.parse text)).1
    reply.result ≠ .error .unrenderable ∧
    (link.diagnostics ≠ [] → ∃ n, reply.result = .ok (.rejected n)) ∧
    ∀ n, reply.result = .ok (.rejected n) → n = link.diagnostics.length ∧
      link.diagnostics =
        (Fragment.parse text).diagnostics ++ s.previous.reportsOf (Fragment.parse text) ∧
      ∃ written, reply.output = s.dumps link ++ written ∧
        Diagnostic.WrittenOut text link.diagnostics written := by
  intro s link reply
  obtain ⟨_, hsound⟩ := actAll_sound limit (s := ⟨[], {}, showTree, showProgram⟩)
    Chain.Sound.nil actions
  obtain ⟨written, hrender, hwritten⟩ := hsound.writtenOut hlen
  by_cases hclean : link.diagnostics = []
  · obtain ⟨hshown, hrejected⟩ := submit_of_clean hclean limit
    exact ⟨hshown, fun h => absurd hclean h, fun n hn => absurd hn (hrejected n)⟩
  · have hreply : reply = ⟨s.dumps link ++ written, .ok (.rejected link.diagnostics.length)⟩ :=
      submit_of_faults hclean hrender limit
    rw [hreply]
    refine ⟨by simp, fun _ => ⟨_, rfl⟩, fun n hn => ?_⟩
    cases hn
    exact ⟨rfl, hsound.diagnostics _, written, rfl, hwritten⟩

/-- Faults of all three kinds in a text of several lines, after a text that was rejected itself. -/
theorem faults_of_all_kinds_shown :
    let s := ((⟨[], {}, false, false⟩ : Session).actAll 9
      [.submit "let a = 1", .submit "\x7b\x7b $", .reset, .submit "var é = true"]).2
    let text := "\x7b é =\r\n ß + (1\n $ \x7d"
    let link := Link.after s.previous (Fragment.parse text)
    byteLength text.toList < 2 ^ 32 ∧ link.diagnostics.length = 4 ∧
      ∃ written, (s.submit 9 (Fragment.parse text)).1.output = s.dumps link ++ written ∧
        Diagnostic.WrittenOut text link.diagnostics written := by
  intro s text link
  have hlen : byteLength text.toList < 2 ^ 32 := by decide
  have hcount : link.diagnostics.length = 4 := by decide +kernel
  obtain ⟨_, hrejected, hshown⟩ := rejected_texts_shown 9 false false
    [.submit "let a = 1", .submit "\x7b\x7b $", .reset, .submit "var é = true"] text hlen
  obtain ⟨n, hn⟩ := hrejected (List.ne_nil_of_length_eq_add_one hcount)
  exact ⟨hlen, hcount, (hshown n hn).2.2⟩

end Session

end Scriptlet
