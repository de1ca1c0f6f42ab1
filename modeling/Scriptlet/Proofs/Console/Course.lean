import Scriptlet.Launch
import Scriptlet.Proofs.Console.Cutting
import Scriptlet.Proofs.Session.Rendered

/-!
# The course of an input

Reading an input line by line is performing its pieces one after the other: each block is submitted
whole, in the session that the submissions and commands before it left, and nothing else is. The
course ends early at an exit command only, or where a submission would end the program.
-/

namespace Scriptlet.Console

open Session (Action Crash)
open Syntax (Fragment)

/-! ## Reading and performing -/

/-- The lines that a console reads, each with the console it meets, and how the console goes on
after the last of them. -/
def follow (limit : Nat) (c : Console) : List String → List (Console × String) × Next
  | [] => ([], .proceed c)
  | line :: lines =>
    match (c.feed limit line).next with
    | .proceed c' => ((c, line) :: (follow limit c' lines).1, (follow limit c' lines).2)
    | next => ([(c, line)], next)

namespace Piece

def perform (limit : Nat) (c : Console) : Piece → Step
  | .idle _ => ⟨"", .proceed c⟩
  | .command line => c.execute (.parse (Text.trim line.toList))
  | .block lines => c.submit limit (Fragment.parse (joined lines))

/-- What a piece does with the session, unless it ends the program. -/
def action? : Piece → Option Action
  | .idle _ => none
  | .command line =>
    match Command.parse (Text.trim line.toList) with
    | .showTree => some .toggleTree
    | .showProgram => some .toggleProgram
    | .reset => some .reset
    | _ => none
  | .block lines => some (.submit (joined lines))

end Piece

def readOn (c : Console) : List String → List (Console × String)
  | [] => []
  | line :: lines => (c, line) :: readOn { c with pending := c.pending ++ [line] } lines

def performAll (limit : Nat) (c : Console) : List Piece → List (Console × Piece) × Next
  | [] => ([], .proceed c)
  | p :: ps =>
    match (p.perform limit c).next with
    | .proceed c' => ((c, p) :: (performAll limit c' ps).1, (performAll limit c' ps).2)
    | next => ([(c, p)], next)

/-! ## One line -/

section
variable {pending : List String} {line : String}

theorem interpret_blank (h : IsBlank line) : interpret [] line = .nothing := by
  simp only [interpret, show Text.isBlank line.toList = true from h, List.isEmpty_nil,
    Bool.and_self, if_true]

theorem interpret_command (h : IsCommand line) :
    interpret [] line = .command (.parse (Text.trim line.toList)) := by
  have hblank : Text.isBlank line.toList = false :=
    Bool.eq_false_iff.mpr (not_isBlank_of_isCommand h)
  have hhead : (line.toList.head? == some '#') = true := beq_iff_eq.mpr h
  simp only [interpret, hblank, hhead, List.isEmpty_nil, Bool.true_and, Bool.false_eq_true,
    if_false, if_true]

theorem enough_concat_iff : Enough (pending ++ [line]) ↔
    (Text.isBlank line.toList ||
      (Fragment.parse (joined (pending ++ [line]))).isClean) = true := by
  simp only [Enough, IsBlank, Fragment.isClean, List.getLast?_concat, Option.mem_def,
    Option.some.injEq, exists_eq_left', Bool.or_eq_true, List.isEmpty_iff]
  exact or_comm

theorem interpret_collected (hopening : pending = [] → ¬ IsBlank line ∧ ¬ IsCommand line) :
    (Enough (pending ++ [line]) →
      interpret pending line = .submission (Fragment.parse (joined (pending ++ [line])))) ∧
    (¬ Enough (pending ++ [line]) →
      interpret pending line = .continuation (pending ++ [line])) := by
  have hidle : (pending.isEmpty && Text.isBlank line.toList) = false := by
    rw [Bool.eq_false_iff, Ne, Bool.and_eq_true, List.isEmpty_iff]
    exact fun h => (hopening h.1).1 h.2
  have hcommand : (pending.isEmpty && line.toList.head? == some '#') = false := by
    rw [Bool.eq_false_iff, Ne, Bool.and_eq_true, List.isEmpty_iff, beq_iff_eq]
    exact fun h => (hopening h.1).2 h.2
  simp only [interpret, hidle, hcommand, Bool.false_eq_true, if_false]
  refine ⟨fun h => ?_, fun h => ?_⟩
  · rw [enough_concat_iff] at h
    exact if_pos h
  · rw [enough_concat_iff] at h
    exact if_neg h

end

/-! ## One piece -/

section
variable {limit : Nat} {c : Console}

theorem Unfinished.opening_concat {pending lines : List String} {line : String}
    (h : Unfinished (pending ++ line :: lines)) (hnil : pending = []) :
    ¬ IsBlank line ∧ ¬ IsCommand line := by
  subst hnil
  exact h.opening line rfl

theorem Unfinished.interpret {pending lines : List String} {line : String}
    (h : Unfinished (pending ++ line :: lines)) :
    Console.interpret pending line = .continuation (pending ++ [line]) := by
  refine (interpret_collected h.opening_concat).2 (h.lacking _ ⟨lines, by simp⟩ (by simp))

theorem Block.interpret {pending : List String} {last : String} (h : Block (pending ++ [last])) :
    Console.interpret pending last = .submission (Fragment.parse (joined (pending ++ [last]))) := by
  refine (interpret_collected fun hnil => ?_).1 h.enough
  subst hnil
  obtain ⟨first, hfirst, hopening⟩ := h.opening
  cases hfirst
  exact hopening

theorem follow_unfinished (limit : Nat) : ∀ (c : Console) (lines : List String),
    Unfinished (c.pending ++ lines) → ∀ more, follow limit c (lines ++ more) =
      (readOn c lines ++ (follow limit { c with pending := c.pending ++ lines } more).1,
        (follow limit { c with pending := c.pending ++ lines } more).2)
  | c, [], _, more => by simp [readOn]
  | c, line :: lines, h, more => by
    have hnext : (c.feed limit line).next = .proceed { c with pending := c.pending ++ [line] } := by
      simp only [feed, h.interpret]
    have ih := follow_unfinished limit { c with pending := c.pending ++ [line] } lines
      (by simpa using h) more
    simp only [List.append_assoc, List.singleton_append] at ih
    simp only [List.cons_append, follow, hnext, ih, readOn]

theorem readOn_append : ∀ (c : Console) (lines more : List String),
    readOn c (lines ++ more) =
      readOn c lines ++ readOn { c with pending := c.pending ++ lines } more
  | c, [], more => by simp [readOn]
  | c, line :: lines, more => by simp [readOn, readOn_append _ lines more]

theorem follow_single {line : String} {p : Piece} (hlines : p.lines = [line])
    (hfeed : c.feed limit line = p.perform limit c) (more : List String) :
    follow limit c (p.lines ++ more) =
      match (p.perform limit c).next with
      | .proceed c' => (readOn c p.lines ++ (follow limit c' more).1, (follow limit c' more).2)
      | next => (readOn c p.lines, next) := by
  rw [hlines]
  simp only [List.singleton_append, follow, hfeed, readOn]

theorem Piece.Proper.follow {p : Piece} (h : p.Proper) (hc : c.pending = []) (more : List String) :
    Console.follow limit c (p.lines ++ more) =
      match (p.perform limit c).next with
      | .proceed c' =>
        (readOn c p.lines ++ (Console.follow limit c' more).1, (Console.follow limit c' more).2)
      | next => (readOn c p.lines, next) := by
  cases p with
  | idle line =>
    exact follow_single rfl (by rw [feed, hc, interpret_blank h]; rfl) more
  | command line =>
    exact follow_single rfl (by rw [feed, hc, interpret_command h]; rfl) more
  | block lines =>
    -- All lines but the last only wait; the last one meets them pending.
    obtain ⟨pending, last, rfl, hpending⟩ := h.exists_last
    let c' : Console := { c with pending := c.pending ++ pending }
    have hwait := follow_unfinished limit c pending (by rwa [hc]) (last :: more)
    have hfeed : c'.feed limit last = (Piece.block (pending ++ [last])).perform limit c := by
      simp only [feed, c', hc, List.nil_append, h.interpret]
      rfl
    simp only [Piece.lines, List.append_assoc, List.singleton_append, hwait, readOn_append, readOn]
    simp only [Console.follow]
    rw [hfeed]
    cases (Piece.perform limit c (.block (pending ++ [last]))).next <;> simp

end

/-! ## What a piece does with the session -/

theorem Piece.perform_proceed {limit : Nat} {c c' : Console} (hc : c.pending = []) {p : Piece}
    (h : (p.perform limit c).next = .proceed c') :
    c' = { c with session := (c.session.actAll limit p.action?.toList).2 } := by
  cases p with
  | idle line =>
    cases h
    rfl
  | command line =>
    simp only [perform, action?] at h ⊢
    cases hcommand : Command.parse (Text.trim line.toList) with
    | exit =>
      rw [hcommand] at h
      cases h
    | _ =>
      rw [hcommand] at h
      cases h
      rfl
  | block lines =>
    simp only [perform, submit] at h
    split at h
    · cases h
      rw [← hc]
      rfl
    · cases h

theorem exists_trim_command {line : String} (h : IsCommand line) :
    ∃ word, Text.trim line.toList = '#' :: word := by
  unfold IsCommand at h
  cases hline : line.toList with
  | nil =>
    rw [hline] at h
    cases h
  | cons c cs =>
    rw [hline, List.head?_cons, Option.some.injEq] at h
    subst h
    have hhash : Text.isWhitespace '#' = false := by decide
    unfold Text.trim
    rw [List.dropWhile_cons_of_neg (by rw [hhash]; exact Bool.false_ne_true), List.reverse_cons,
      List.dropWhile_append]
    split
    · exact ⟨[], by simp [hhash]⟩
    · exact ⟨_, by rw [List.reverse_append, List.reverse_singleton, List.singleton_append]⟩

theorem Command.parse_eq_exit_iff {word : List Char} :
    Command.parse ('#' :: word) = .exit ↔ word = "exit".toList := by
  constructor
  · intro h
    unfold Command.parse at h
    split at h
    case h_5 hword =>
      rw [← hword, List.tail_cons, String.toList_ofList]
    all_goals cases h
  · intro h
    rw [h]
    rfl

theorem execute_exit_iff {c : Console} {command : Command} :
    (c.execute command).next = .exit ↔ command = .exit := by
  cases command with
  | exit => exact ⟨fun _ => rfl, fun _ => rfl⟩
  | _ => exact ⟨fun h => (by cases h), fun h => (by cases h)⟩

def Piece.IsExit : Piece → Prop
  | .command line => Text.trim line.toList = '#' :: "exit".toList
  | _ => False

theorem Piece.Proper.perform_exit_iff {limit : Nat} {c : Console} {p : Piece} (h : p.Proper) :
    (p.perform limit c).next = .exit ↔ p.IsExit := by
  cases p with
  | idle line => exact ⟨nofun, False.elim⟩
  | command line =>
    obtain ⟨word, hword⟩ := exists_trim_command h
    rw [perform, execute_exit_iff, IsExit, hword, Command.parse_eq_exit_iff, List.cons_inj_right]
  | block lines =>
    refine ⟨fun hexit => ?_, False.elim⟩
    simp only [perform, submit] at hexit
    split at hexit <;> cases hexit

/-- A submission to a sound session ends the program only if it is cut off, or too long a text. -/
theorem crash_cases {s : Session} (h : s.Sound) {limit : Nat} {text : String} {cause : Crash}
    (hcrash : (s.submit limit (Fragment.parse text)).1.result = .error cause) :
    cause = .cutOff ∨ cause = .unrenderable ∧ 2 ^ 32 ≤ Text.byteLength text.toList := by
  cases cause with
  | cutOff => exact .inl rfl
  | stuck cause => exact absurd hcrash ((Session.submit_sound h limit _).1 _ rfl cause)
  | unrenderable =>
    refine .inr ⟨rfl, Nat.le_of_not_lt fun hlen => ?_⟩
    obtain ⟨written, hrender, _⟩ := h.writtenOut hlen
    by_cases hclean : (Link.after s.previous (Fragment.parse text)).diagnostics = []
    · exact (Session.submit_of_clean hclean limit).1 hcrash
    · rw [Session.submit_of_faults hclean hrender limit] at hcrash
      cases hcrash

theorem Piece.Proper.perform_crash {limit : Nat} {c : Console} {p : Piece} (h : p.Proper)
    (hc : c.session.Sound) {cause : Crash} (hcrash : (p.perform limit c).next = .crash cause) :
    ∃ lines, p = .block lines ∧ (cause = .cutOff ∨
      cause = .unrenderable ∧ 2 ^ 32 ≤ Text.byteLength (joined lines).toList) := by
  cases p with
  | idle line => cases hcrash
  | command line =>
    simp only [perform] at hcrash
    cases hcommand : Command.parse (Text.trim line.toList) <;> rw [hcommand] at hcrash <;>
      cases hcrash
  | block lines =>
    refine ⟨lines, rfl, ?_⟩
    simp only [perform, submit] at hcrash
    split at hcrash
    · cases hcrash
    · rename_i hresult
      cases hcrash
      exact crash_cases hc hresult

/-! ## All pieces -/

/-- Pieces are performed in order, and each meets the session that the ones before it left. The last
is the first that ends the program, if one does. -/
structure Performed (limit : Nat) (c : Console) (pieces : List Piece)
    (done : List (Console × Piece)) (next : Next) : Prop where
  inOrder : done.map (·.2) <+: pieces
  met : ∀ n d, done[n]? = some d → d.1 =
    { c with session := (c.session.actAll limit ((pieces.take n).filterMap Piece.action?)).2 }
  goesOn : ∀ c', next = .proceed c' → done.map (·.2) = pieces ∧ (∀ p ∈ pieces, ¬ p.IsExit) ∧
    c' = { c with session := (c.session.actAll limit (pieces.filterMap Piece.action?)).2 }
  exits : next = .exit → ∃ earlier line, done.map (·.2) = earlier ++ [.command line] ∧
    Piece.IsExit (.command line) ∧ ∀ p ∈ earlier, ¬ p.IsExit
  crashes : ∀ cause, next = .crash cause → ∃ earlier lines,
    done.map (·.2) = earlier ++ [.block lines] ∧ (∀ p ∈ earlier, ¬ p.IsExit) ∧
      (cause = .cutOff ∨ cause = .unrenderable ∧ 2 ^ 32 ≤ Text.byteLength (joined lines).toList)

theorem Performed.cutOff {limit : Nat} {c : Console} {pieces : List Piece}
    {done : List (Console × Piece)} {cause : Crash}
    (h : Performed limit c pieces done (.crash cause))
    (hlen : ∀ lines, .block lines ∈ pieces → Text.byteLength (joined lines).toList < 2 ^ 32) :
    cause = .cutOff := by
  obtain ⟨earlier, lines, hdone, _, hcause⟩ := h.crashes cause rfl
  have hmem : .block lines ∈ pieces := h.inOrder.subset (by simp [hdone])
  rcases hcause with hcut | ⟨_, hlong⟩
  · exact hcut
  · exact absurd (hlen lines hmem) (Nat.not_lt_of_le hlong)

theorem actAll_append (limit : Nat) : ∀ (s : Session) (before after : List Action),
    (s.actAll limit (before ++ after)).2 = ((s.actAll limit before).2.actAll limit after).2
  | _, [], _ => rfl
  | s, a :: before, after => actAll_append limit (s.act limit a).2 before after

theorem filterMap_action_cons (p : Piece) (ps : List Piece) :
    (p :: ps).filterMap Piece.action? = p.action?.toList ++ ps.filterMap Piece.action? := by
  cases h : p.action? <;> simp [h]

section
variable {limit : Nat} {c : Console} {p : Piece} {ps : List Piece}

theorem Performed.cons {c' : Console} {done : List (Console × Piece)} {next : Next}
    (hgo : ¬ p.IsExit)
    (hc' : c' = { c with session := (c.session.actAll limit p.action?.toList).2 })
    (h : Performed limit c' ps done next) : Performed limit c (p :: ps) ((c, p) :: done) next := by
  have hsession (qs : List Piece) :
      { c' with session := (c'.session.actAll limit (qs.filterMap Piece.action?)).2 } =
        { c with session := (c.session.actAll limit ((p :: qs).filterMap Piece.action?)).2 } := by
    rw [filterMap_action_cons, actAll_append, hc']
  refine ⟨(List.prefix_cons_inj p).mpr h.inOrder, ?_, ?_, ?_, ?_⟩
  · intro n d hd
    cases n with
    | zero =>
      cases hd
      rfl
    | succ n => exact (h.met n d hd).trans (hsession _)
  · intro c'' hc''
    obtain ⟨hall, hnone, hlast⟩ := h.goesOn c'' hc''
    exact ⟨congrArg (p :: ·) hall, List.forall_mem_cons.mpr ⟨hgo, hnone⟩,
      hlast.trans (hsession ps)⟩
  · intro hexit
    obtain ⟨earlier, line, hdone, hline, hnone⟩ := h.exits hexit
    exact ⟨p :: earlier, line, congrArg (p :: ·) hdone, hline,
      List.forall_mem_cons.mpr ⟨hgo, hnone⟩⟩
  · intro cause hcrash
    obtain ⟨earlier, lines, hdone, hnone, hcause⟩ := h.crashes cause hcrash
    exact ⟨p :: earlier, lines, congrArg (p :: ·) hdone,
      List.forall_mem_cons.mpr ⟨hgo, hnone⟩, hcause⟩

theorem Performed.last (hp : p.Proper) (hs : c.session.Sound)
    (hend : ∀ c', (p.perform limit c).next ≠ .proceed c') :
    Performed limit c (p :: ps) [(c, p)] (p.perform limit c).next := by
  refine ⟨⟨ps, rfl⟩, ?_, fun c' hc' => absurd hc' (hend c'), ?_, ?_⟩
  · intro n d hd
    cases n with
    | zero =>
      cases hd
      rfl
    | succ n => cases hd
  · intro hexit
    have hp' := hp.perform_exit_iff.mp hexit
    cases p with
    | command line => exact ⟨[], line, rfl, hp', nofun⟩
    | idle _ | block _ => cases hp'
  · intro cause hcrash
    obtain ⟨lines, rfl, hcause⟩ := hp.perform_crash hs hcrash
    exact ⟨[], lines, rfl, nofun, hcause⟩

end

/-- Reading line by line is performing piece after piece. -/
theorem Cut.follow (limit : Nat) : ∀ {pieces : List Piece} {c : Console} {lines rest : List String},
    Cut lines pieces rest → c.pending = [] →
      (follow limit c lines).1 =
        (performAll limit c pieces).1.flatMap (fun d => readOn d.1 d.2.lines) ++
          (match (performAll limit c pieces).2 with
          | .proceed c' => readOn c' rest
          | _ => []) ∧
      (follow limit c lines).2 =
        match (performAll limit c pieces).2 with
        | .proceed c' => .proceed { c' with pending := rest }
        | next => next
  | [], c, lines, rest, h, hc => by
    have hrest : rest = lines := h.whole
    subst hrest
    have hwait := follow_unfinished limit c rest (by rw [hc]; exact h.unfinished) []
    rw [List.append_nil] at hwait
    rw [hwait]
    simp [performAll, Console.follow, hc]
  | p :: ps, c, lines, rest, h, hc => by
    obtain ⟨hp, hps⟩ := List.forall_mem_cons.mp h.proper
    have hwhole : lines = p.lines ++ (ps.flatMap Piece.lines ++ rest) := by
      rw [← h.whole, List.flatMap_cons, List.append_assoc]
    rw [hwhole, hp.follow hc, performAll]
    cases hnext : (p.perform limit c).next with
    | proceed c' =>
      have hcut : Cut (ps.flatMap Piece.lines ++ rest) ps rest := ⟨rfl, hps, h.unfinished⟩
      have hc' : c'.pending = [] := by rw [Piece.perform_proceed hc hnext, hc]
      obtain ⟨hreads, hend⟩ := hcut.follow limit hc'
      exact ⟨by simp [hreads], hend⟩
    | exit | crash cause => simp

end Scriptlet.Console
