import Mathlib.Data.List.Basic
import Mathlib.Data.List.TakeWhile
import Scriptlet.Proofs.Text.Boundary
import Scriptlet.Proofs.Token.Munch

/-!
# The tokens of a text

Reading one token after the other cuts the text into its longest pieces, places each token where its
piece stands, and reports the tokens that have a fault. At the end of the text the lexer stays.
-/

namespace Scriptlet

namespace Token

open Text

/-! ## One token -/

theorem Run.read_single {c : Char} (cs : List Char)
    (h : (CharClass.ofChar c).continues = fun _ => false) :
    Run.read c cs = (⟨CharClass.ofChar c, [c]⟩, cs) := by
  have hrun : cs.takeWhile (fun _ => false) = [] := List.takeWhile_eq_nil_iff.mpr fun _ => nofun
  have hrest : cs.dropWhile (fun _ => false) = cs := List.dropWhile_eq_self_iff.mpr fun _ => nofun
  simp only [Run.read, h, hrun, hrest]

theorem Run.read_replicate {c : Char} {rest : List Char}
    (hc : (CharClass.ofChar c).continues c = true)
    (hrest : ∀ d ∈ rest.head?, (CharClass.ofChar c).continues d = false) (n : Nat) :
    Run.read c (List.replicate n c ++ rest) =
      (⟨CharClass.ofChar c, c :: List.replicate n c⟩, rest) := by
  have hall : ∀ d ∈ List.replicate n c, (CharClass.ofChar c).continues d = true := fun d hd =>
    List.eq_of_mem_replicate hd ▸ hc
  have hfront : rest.takeWhile (CharClass.ofChar c).continues = [] := by
    cases rest with
    | nil => rfl
    | cons d rest => exact List.takeWhile_cons_of_neg (by simp [hrest d rfl])
  have hback : rest.dropWhile (CharClass.ofChar c).continues = rest := by
    cases rest with
    | nil => rfl
    | cons d rest => exact List.dropWhile_cons_of_neg (by simp [hrest d rfl])
  simp only [Run.read, List.takeWhile_append_of_pos hall, List.dropWhile_append_of_pos hall,
    hfront, hback, List.append_nil]

theorem Run.len_replicate (cls : CharClass) {c : Char} (hsize : c.utf8Size = 1) (n : Nat) :
    Run.len ⟨cls, c :: List.replicate n c⟩ = (n + 1) % Span.lengthBound := by
  rw [Run.len, ← List.replicate_succ, byteLength_replicate, hsize, Nat.mul_one]

theorem length_le_takeWhile {p : Char → Bool} {cs front : List Char}
    (hall : ∀ d ∈ front, p d = true) (hfront : front <+: cs) :
    front.length ≤ (cs.takeWhile p).length := by
  obtain ⟨back, rfl⟩ := hfront
  rw [List.takeWhile_append_of_pos hall]
  simp

/-- A run is the longest piece, unless its one character makes an operator with the next. -/
theorem Run.read_munch {c : Char} {cs : List Char}
    (hpair : ∀ d rest, (Run.read c cs).2 = d :: rest →
      Kind.ofPair? (CharClass.ofChar c) (CharClass.ofChar d) = none) :
    Munch (Run.read c cs).2 (Run.read c cs).1.kind (Run.read c cs).1.chars := by
  have hlongest : ∀ kind other, Spells kind other → other <+: c :: cs →
      CharClass.ofChar c ≠ .unknown ∧ other.length ≤ (Run.read c cs).1.chars.length := by
    intro kind other hs hfront
    obtain ⟨c', tail, rfl⟩ := List.exists_cons_of_ne_nil hs.ne_nil
    obtain ⟨rfl, htail⟩ := List.cons_prefix_cons.mp hfront
    rcases spells_cons_iff.mp hs with ⟨hknown, hall, _⟩ | ⟨d, rfl, hd⟩
    · exact ⟨hknown, Nat.succ_le_succ (length_le_takeWhile hall htail)⟩
    · obtain ⟨rest, rfl⟩ := htail
      have hnone := hpair d rest
      rw [Run.read_single _ (continues_of_ofPair? hd)] at hnone
      rw [hnone rfl] at hd
      cases hd
  by_cases hknown : CharClass.ofChar c = .unknown
  · rw [Run.read_single cs (by rw [hknown]; rfl), hknown]
    exact .bad fun kind other hs hfront => (hlongest kind other hs hfront).1 hknown
  · refine .longest (.of_run hknown fun d hd => List.mem_takeWhile_imp hd) ?_
    intro kind other hs hfront
    rw [Run.chars_append_read] at hfront
    exact (hlongest kind other hs hfront).2

theorem munch_pair {c d : Char} {kind : Kind} (rest : List Char)
    (h : Kind.ofPair? (CharClass.ofChar c) (CharClass.ofChar d) = some kind) :
    Munch rest kind [c, d] := by
  refine .longest (.of_pair h) fun kind' other hs hfront => ?_
  obtain ⟨c', tail, rfl⟩ := List.exists_cons_of_ne_nil hs.ne_nil
  obtain ⟨rfl, _⟩ := List.cons_prefix_cons.mp hfront
  rcases spells_cons_iff.mp hs with ⟨_, hall, _⟩ | ⟨d', rfl, _⟩
  · rw [continues_of_ofPair? h] at hall
    have htail : tail = [] := List.eq_nil_iff_forall_not_mem.mpr fun d hd => by cases hall d hd
    simp [htail]
  · simp

namespace Lexeme

theorem read_eq (p : Place) (c : Char) (cs : List Char) :
    read p c cs =
      match (Run.read c cs).2 with
      | [] => (ofRun p (Run.read c cs).1, [])
      | d :: rest =>
        match ofPair? p (Run.read c cs).1 d with
        | some lexeme => (lexeme, rest)
        | none => (ofRun p (Run.read c cs).1, d :: rest) := by
  unfold read
  cases Run.read c cs with
  | mk run rest => cases rest <;> rfl

theorem read_replicate (p : Place) {c : Char} {rest : List Char}
    (hc : (CharClass.ofChar c).continues c = true)
    (hrest : ∀ d ∈ rest.head?, (CharClass.ofChar c).continues d = false) (n : Nat) :
    read p c (List.replicate n c ++ rest) =
      (ofRun p ⟨CharClass.ofChar c, c :: List.replicate n c⟩, rest) := by
  have hpair (d : Char) : ofPair? p ⟨CharClass.ofChar c, c :: List.replicate n c⟩ d = none := by
    refine Option.map_eq_none_iff.mpr (Option.eq_none_iff_forall_ne_some.mpr fun kind hkind => ?_)
    rw [continues_of_ofPair? hkind] at hc
    cases hc
  rw [read_eq, Run.read_replicate hc hrest]
  cases rest with
  | nil => rfl
  | cons d rest => simp only [hpair]

/-- What is read is a run or a pair, wherever the source goes on. -/
theorem read_cases (p : Place) (c : Char) (cs : List Char) :
    (∃ run, (read p c cs).1 = ofRun p run) ∨
      ∃ run d, ofPair? p run d = some (read p c cs).1 := by
  rw [read_eq]
  cases (Run.read c cs).2 with
  | nil => exact .inl ⟨(Run.read c cs).1, rfl⟩
  | cons d rest =>
    cases hpair : ofPair? p (Run.read c cs).1 d with
    | none =>
      simp only [hpair]
      exact .inl ⟨_, rfl⟩
    | some lexeme =>
      simp only [hpair]
      exact .inr ⟨_, d, hpair⟩

section
variable {p : Place} {c : Char} {cs : List Char}

theorem run_sound (h : p.Level (c :: cs)) :
    (ofRun p (Run.read c cs).1).token.kind = (Run.read c cs).1.kind ∧
      (ofRun p (Run.read c cs).1).Sound p.pos (Run.read c cs).1.chars := by
  have hall : ∀ d ∈ cs.takeWhile (CharClass.ofChar c).continues,
      (CharClass.ofChar c).continues d = true := fun d hd => List.mem_takeWhile_imp hd
  rw [← Run.chars_append_read c cs] at h
  refine ofRun_sound h (fun s hs => ?_) (fun hcls => ?_) fun hcls => ⟨c, ?_⟩
  · by_cases hknown : CharClass.ofChar c = .unknown
    · simp only [Run.kind, Run.read, hknown, CharClass.kind] at hs
      cases hs
    · exact (Spells.of_run hknown hall).of_spelling? hs
  · have hdigit : CharClass.ofChar c = .digit := hcls
    refine ⟨List.cons_ne_nil _ _, List.forall_mem_cons.mpr ⟨(class_of_ofChar rfl).2.1 hdigit, ?_⟩⟩
    rw [hdigit] at hall ⊢
    exact hall
  · have hunknown : CharClass.ofChar c = .unknown := hcls
    rw [Run.read_single cs (by rw [hunknown]; rfl)]

/-- Where the source goes on with what is not seen yet, the longest piece is read, and after it the
same holds. -/
theorem read_munch (h : p.Level (c :: cs)) :
    ∃ chars, chars ++ (read p c cs).2 = c :: cs ∧
      Munch (read p c cs).2 (read p c cs).1.token.kind chars ∧
      (read p c cs).1.Sound p.pos chars ∧
      (p.move (read p c cs).1.token.span.len).Level (read p c cs).2 := by
  suffices hread : ∃ chars, chars ++ (read p c cs).2 = c :: cs ∧
      Munch (read p c cs).2 (read p c cs).1.token.kind chars ∧
      (read p c cs).1.Sound p.pos chars by
    obtain ⟨chars, hwhole, hmunch, hsound⟩ := hread
    refine ⟨chars, hwhole, hmunch, hsound, ?_⟩
    rw [hsound.span]
    rw [← hwhole] at h
    exact h.move
  -- If the run stands alone, it is the piece.
  have halone (hpair : ∀ d rest, (Run.read c cs).2 = d :: rest →
        Kind.ofPair? (CharClass.ofChar c) (CharClass.ofChar d) = none)
      (hread : read p c cs = (ofRun p (Run.read c cs).1, (Run.read c cs).2)) :
      ∃ chars, chars ++ (read p c cs).2 = c :: cs ∧
        Munch (read p c cs).2 (read p c cs).1.token.kind chars ∧
        (read p c cs).1.Sound p.pos chars := by
    obtain ⟨hkind, hsound⟩ := run_sound h
    rw [hread]
    refine ⟨_, Run.chars_append_read c cs, ?_, hsound⟩
    rw [hkind]
    exact Run.read_munch hpair
  cases hrest : (Run.read c cs).2 with
  | nil =>
    refine halone (fun d rest h => ?_) ?_
    · rw [hrest] at h
      cases h
    · rw [read_eq, hrest]
  | cons d rest =>
    cases hpair : ofPair? p (Run.read c cs).1 d with
    | none =>
      refine halone (fun d' rest' h => ?_) ?_
      · cases hrest.symm.trans h
        exact Option.map_eq_none_iff.mp hpair
      · rw [read_eq, hrest]
        simp only [hpair]
    | some lexeme =>
      have hcls : (CharClass.ofChar c).continues = fun _ => false := by
        obtain ⟨kind, hkind, _⟩ := Option.map_eq_some_iff.mp hpair
        exact continues_of_ofPair? hkind
      have hread : read p c cs = (lexeme, rest) := by
        rw [read_eq, hrest]
        simp only [hpair]
      rw [Run.read_single cs hcls] at hpair hrest
      simp only at hrest
      subst hrest
      obtain ⟨hkind, hsound⟩ := ofPair?_sound h.ahead hpair
      rw [hread]
      exact ⟨[c, d], rfl, munch_pair rest hkind, hsound⟩

end

/-! ## All tokens -/

theorem Sound.stop {l : Lexeme} {pos : Nat} {chars : List Char} (h : l.Sound pos chars) :
    l.token.span.stop = pos + byteLength chars := by
  rw [h.span]
  rfl

theorem Sound.pos_move {l : Lexeme} {p : Place} {chars : List Char} (h : l.Sound p.pos chars) :
    (p.move l.token.span.len).pos = p.pos + byteLength chars := by
  rw [h.span]
  rfl

/-- What holds of each lexeme that can be read anywhere holds of all that are read. -/
theorem forall_mem_all {P : Lexeme → Prop} (hrun : ∀ p run, P (ofRun p run))
    (hpair : ∀ p run d l, ofPair? p run d = some l → P l) (p : Place) (cs : List Char) :
    ∀ l ∈ all p cs, P l := by
  fun_induction all p cs with
  | case1 => simp
  | case2 p c cs step ih =>
    refine List.forall_mem_cons.mpr ⟨?_, ih⟩
    rcases read_cases p c cs with ⟨run, hread⟩ | ⟨run, d, hread⟩
    · exact hread ▸ hrun p run
    · exact hpair p run d _ hread

theorem all_pieces {p : Place} {cs : List Char} (h : p.Level cs) :
    Pieces cs ((all p cs).map fun l => (l.token.kind, l.token.text.toList)) := by
  fun_induction all p cs with
  | case1 => exact .nil
  | case2 p c cs step ih =>
    obtain ⟨chars, hwhole, hmunch, hsound, hlevel⟩ := read_munch h
    have hrest := ih hlevel
    rw [List.map_cons, hsound.text, String.toList_ofList, ← hwhole]
    exact .cons hmunch hrest

theorem all_sound {p : Place} {cs : List Char} (h : p.Level cs) :
    ∀ l ∈ all p cs, Valued l.token ∧ l.report = fault? l.token := by
  fun_induction all p cs with
  | case1 => simp
  | case2 p c cs step ih =>
    obtain ⟨_, _, _, hsound, hlevel⟩ := read_munch h
    exact List.forall_mem_cons.mpr ⟨⟨hsound.valued, hsound.report⟩, ih hlevel⟩

end Lexeme

def Contiguous (pos : Nat) (ts : List Token) (stop : Nat) : Prop :=
  match ts with
  | [] => pos = stop
  | t :: ts => t.span.pos = pos ∧ Contiguous t.span.stop ts stop

theorem Contiguous.last {pos stop : Nat} {ts : List Token} (h : Contiguous pos ts stop) :
    ts.getLast?.elim pos (·.span.stop) = stop := by
  induction ts generalizing pos with
  | nil => exact h
  | cons t ts ih =>
    rw [← ih h.2]
    cases ts with
    | nil => rfl
    | cons u ts =>
      rw [List.getLast?_cons_cons, List.getLast?_cons, Option.elim_some, Option.elim_some]

namespace Lexeme

theorem all_contiguous {p : Place} {cs : List Char} (h : p.Level cs) :
    Contiguous p.pos ((all p cs).map (·.token)) (p.pos + byteLength cs) := by
  fun_induction all p cs with
  | case1 => rfl
  | case2 p c cs step ih =>
    obtain ⟨chars, hwhole, _, hsound, hlevel⟩ := read_munch h
    have hrest : Contiguous (p.move (read p c cs).1.token.span.len).pos
        ((all (p.move step.1.token.span.len) step.2).map (·.token))
        ((p.move (read p c cs).1.token.span.len).pos + byteLength (read p c cs).2) := ih hlevel
    rw [hsound.pos_move, Nat.add_assoc, ← byteLength_append, hwhole, ← hsound.stop] at hrest
    exact ⟨congrArg Span.pos hsound.span, hrest⟩

/-- Each token has the text that stands at its place, which lies between characters. -/
theorem all_slices {p : Place} {cs : List Char} (h : p.Level cs) (front : List Char)
    (hpos : p.pos = byteLength front) :
    ∀ l ∈ all p cs, l.token.span.slice? (String.ofList (front ++ cs)) = some l.token.text := by
  fun_induction all p cs generalizing front with
  | case1 => simp
  | case2 p c cs step ih =>
    obtain ⟨chars, hwhole, _, hsound, hlevel⟩ := read_munch h
    have hstop := hsound.stop
    refine List.forall_mem_cons.mpr ⟨?_, ?_⟩
    · have hfirst : (read p c cs).1.token.span.pos = byteLength front := by rw [hsound.span, hpos]
      unfold Span.slice?
      rw [hstop, hpos, hfirst, String.toList_ofList, ← hwhole, slice?_append, hsound.text]
      rfl
    · have hnext : (p.move (read p c cs).1.token.span.len).pos = byteLength (front ++ chars) := by
        rw [hsound.pos_move, hpos, byteLength_append]
      have hih := ih hlevel (front ++ chars) hnext
      rw [List.append_assoc, hwhole] at hih
      exact hih

theorem all_pos_lt {p : Place} {cs : List Char} (h : p.Level cs) :
    ∀ l ∈ all p cs, l.token.span.pos < p.pos + byteLength cs := by
  fun_induction all p cs with
  | case1 => simp
  | case2 p c cs step ih =>
    obtain ⟨chars, hwhole, _, hsound, hlevel⟩ := read_munch h
    have hchar := c.utf8Size_pos
    refine List.forall_mem_cons.mpr ⟨?_, fun l hl => ?_⟩
    · have hfirst : (read p c cs).1.token.span.pos = p.pos := by rw [hsound.span]
      rw [hfirst, byteLength_cons]
      omega
    · have hlt : l.token.span.pos < (p.move (read p c cs).1.token.span.len).pos +
        byteLength (read p c cs).2 := ih hlevel l hl
      rwa [hsound.pos_move, Nat.add_assoc, ← byteLength_append, hwhole] at hlt

end Lexeme

/-! ## What tokens are made of -/

section
variable {text : String} (hlen : byteLength text.toList < Span.lengthBound)
include hlen

theorem tokens_pieces :
    Pieces text.toList ((tokens text).map fun t => (t.kind, t.text.toList)) := by
  rw [tokens, List.map_map]
  exact Lexeme.all_pieces (Place.level_start hlen)

theorem tokens_contiguous : Contiguous 0 (tokens text) (byteLength text.toList) := by
  have h := Lexeme.all_contiguous (Place.level_start hlen)
  rwa [Place.start, Nat.zero_add] at h

theorem tokens_slices : ∀ t ∈ tokens text, t.span.slice? text = some t.text := by
  intro t ht
  obtain ⟨l, hl, rfl⟩ := List.mem_map.mp ht
  have hslice := Lexeme.all_slices (Place.level_start hlen) [] rfl l hl
  rwa [List.nil_append, String.ofList_toList] at hslice

theorem tokens_valued : ∀ t ∈ tokens text, Valued t := by
  intro t ht
  obtain ⟨l, hl, rfl⟩ := List.mem_map.mp ht
  exact (Lexeme.all_sound (Place.level_start hlen) l hl).1

/-- The end token stands at the end of the text. -/
theorem stopOf_eq : stopOf text = byteLength text.toList := by
  have h := (tokens_contiguous hlen).last
  rwa [tokens, List.getLast?_map, Option.elim_map] at h

end

theorem Pieces.munch {cs : List Char} {ps : List (Kind × List Char)} (h : Pieces cs ps) :
    ∀ p ∈ ps, ∃ rest, Munch rest p.1 p.2 := by
  induction h with
  | nil => simp
  | cons hm _ ih => exact List.forall_mem_cons.mpr ⟨⟨_, hm⟩, ih⟩

section
variable {text : String} (hlen : byteLength text.toList < Span.lengthBound)
include hlen

theorem tokens_munch {t : Token} (ht : t ∈ tokens text) :
    ∃ rest, Munch rest t.kind t.text.toList :=
  (tokens_pieces hlen).munch _ (List.mem_map_of_mem ht)

theorem tokens_text_ne {t : Token} (ht : t ∈ tokens text) : t.text ≠ "" := by
  intro hempty
  obtain ⟨rest, hm⟩ := tokens_munch hlen ht
  exact hm.ne_nil (by rw [hempty]; rfl)

theorem tokens_present {t : Token} (ht : t ∈ tokens text) : t.isMissing = false := by
  have hnonempty : t.span.isEmpty = false := by
    rw [Bool.eq_false_iff]
    intro hempty
    have hstop : t.span.stop = t.span.pos := by
      rw [Span.stop, beq_iff_eq.mp hempty, Nat.add_zero]
    obtain ⟨cs, hcs, htext⟩ := Option.map_eq_some_iff.mp (tokens_slices hlen t ht)
    rw [hstop] at hcs
    rw [slice?_self hcs] at htext
    exact tokens_text_ne hlen ht htext.symm
  rw [isMissing, hnonempty, Bool.false_and]

end

theorem tokens_kind_ne {text : String} {t : Token} (ht : t ∈ tokens text) : t.kind ≠ .eof := by
  obtain ⟨l, hl, rfl⟩ := List.mem_map.mp ht
  refine Lexeme.forall_mem_all (P := fun l => l.token.kind ≠ .eof) (fun p run => ?_)
    (fun p run d l hpair => ?_) _ _ l hl
  · rw [Lexeme.ofRun_kind]
    generalize String.ofList (p.take run.len) = word
    cases run.cls with
    | letter => exact Kind.ofWord_ne_eof word
    | _ => simp [CharClass.kind]
  · obtain ⟨kind, hkind, rfl⟩ := Option.map_eq_some_iff.mp hpair
    exact ne_of_mem_of_not_mem (mem_signs_of_ofPair? hkind) (by decide)

theorem Spells.isWhitespace_eq {kind : Kind} {cs : List Char} (h : Spells kind cs) :
    ∀ c ∈ cs, isWhitespace c = decide (kind = .whitespace) := by
  cases h with
  | whitespace _ hall => simpa using hall
  | number _ hall => exact fun c hc => isWhitespace_of_isDigit (hall c hc)
  | word _ hall hword =>
    intro c hc
    have hkind : kind ≠ .whitespace := by
      rintro rfl
      rcases hword with ⟨hk, _⟩ | ⟨h, _⟩
      · exact absurd hk (by decide)
      · cases h
    rw [isWhitespace_of_isAlphabetic (hall c hc), decide_eq_false hkind]
  | @sign kind s hk hs =>
    have hsigns : ∀ k ∈ Kind.signs, k ≠ .whitespace ∧
        (k.spelling?.all fun s => s.toList.all fun c => !isWhitespace c) = true := by decide
    obtain ⟨hkind, hall⟩ := hsigns kind hk
    intro c hc
    rw [hs, Option.all_some, List.all_eq_true] at hall
    rw [decide_eq_false hkind]
    simpa using hall c hc

/-- A token is all white space or has none. -/
theorem Munch.isWhitespace_eq {rest lexeme : List Char} {kind : Kind} (h : Munch rest kind lexeme) :
    ∀ c ∈ lexeme, isWhitespace c = decide (kind = .whitespace) := by
  cases h with
  | longest hs _ => exact hs.isWhitespace_eq
  | @bad c hnone =>
    intro d hd
    rw [List.mem_singleton.mp hd, decide_eq_false (by decide), Bool.eq_false_iff]
    intro hblank
    have hs : Spells .whitespace [c] := .whitespace (by simp) (by simpa using hblank)
    exact hnone _ _ hs ⟨rest, rfl⟩

/-- Without bad characters, the tokens that the grammar sees are the text less its white space. -/
theorem Pieces.flatMap_significant {cs : List Char} {ps : List (Kind × List Char)}
    (h : Pieces cs ps) (hbad : ∀ p ∈ ps, p.1 ≠ .bad) :
    (ps.filter fun p => p.1 != .whitespace && p.1 != .bad).flatMap (·.2) =
      cs.filter fun c => !isWhitespace c := by
  induction h with
  | nil => rfl
  | @cons kind lexeme rest ps hm _ ih =>
    obtain ⟨hkind, hps⟩ := List.forall_mem_cons.mp hbad
    have hlexeme := hm.isWhitespace_eq
    rw [List.filter_append, ← ih hps]
    by_cases hw : kind = .whitespace
    · have hnone : lexeme.filter (fun c => !isWhitespace c) = [] :=
        List.filter_eq_nil_iff.mpr fun c hc => by simp [hlexeme c hc, hw]
      rw [hnone]
      simp [hw]
    · have hall : lexeme.filter (fun c => !isWhitespace c) = lexeme :=
        List.filter_eq_self.mpr fun c hc => by simp [hlexeme c hc, hw]
      rw [hall]
      simp [hw, hkind]

/-! ## Lengths that wrap -/

/-- A word whose length wraps to a single byte is cut off after it. -/
theorem lexemes_of_word {n : Nat} (hn : (n + 1) % Span.lengthBound = 1) :
    lexemes (String.ofList ('a' :: List.replicate n 'a')) =
      [⟨⟨.identifier, ⟨0, 1⟩, "a", none⟩, none⟩] := by
  have hread (p : Place) : Lexeme.read p 'a' (List.replicate n 'a') =
      (Lexeme.ofRun p ⟨.letter, 'a' :: List.replicate n 'a'⟩, []) := by
    have h : Lexeme.read p 'a' (List.replicate n 'a' ++ []) =
        (Lexeme.ofRun p ⟨.letter, 'a' :: List.replicate n 'a'⟩, []) :=
      Lexeme.read_replicate p (by decide) (by simp) n
    rwa [List.append_nil] at h
  have htake : (Place.start ('a' :: List.replicate n 'a')).take 1 = ['a'] :=
    Place.take_of_ahead ['a'] rfl
  have hkind : CharClass.letter.kind (String.ofList ['a']) = .identifier := by decide
  rw [lexemes, String.toList_ofList, Lexeme.all]
  simp only [hread, Lexeme.all, Lexeme.ofRun, Run.len_replicate _ (c := 'a') rfl, hn, htake, hkind,
    Lexeme.tokenAt]
  rfl

/-- Line feeds whose length wraps to nothing leave their place to the name after them. -/
theorem lexemes_of_line_feeds {n : Nat} (hn : (n + 1) % Span.lengthBound = 0) :
    lexemes (String.ofList ('\n' :: (List.replicate n '\n' ++ ['a']))) =
      [⟨⟨.whitespace, ⟨0, 0⟩, "", none⟩, none⟩, ⟨⟨.identifier, ⟨0, 1⟩, "\n", none⟩, none⟩] := by
  have hread (p : Place) : Lexeme.read p '\n' (List.replicate n '\n' ++ ['a']) =
      (Lexeme.ofRun p ⟨.whitespace, '\n' :: List.replicate n '\n'⟩, ['a']) :=
    Lexeme.read_replicate p (by decide) (fun d hd => by cases hd; decide) n
  have hread' (p : Place) : Lexeme.read p 'a' [] = (Lexeme.ofRun p ⟨.letter, ['a']⟩, []) :=
    Lexeme.read_replicate p (by decide) (by simp) 0
  have hlen : Run.len ⟨.letter, ['a']⟩ = 1 := Run.len_replicate _ rfl 0
  have htake (cs : List Char) : Place.take ⟨'\n' :: cs, 0, some ('\n' :: cs)⟩ 1 = ['\n'] :=
    Place.take_of_ahead ['\n'] rfl
  have hkind : CharClass.letter.kind (String.ofList ['\n']) = .identifier := by decide
  rw [lexemes, String.toList_ofList, Lexeme.all]
  simp only [hread, Lexeme.ofRun, Run.len_replicate _ (c := '\n') rfl, hn, Lexeme.tokenAt,
    Place.start, Place.move, Text.drop?, Lexeme.all, hread', hlen, htake, hkind, Nat.add_zero]
  rfl

/-! ## One token after the other -/

namespace Lexer

def nexts : Nat → Lexer → List Token × Lexer
  | 0, l => ([], l)
  | n + 1, l => (l.next.1 :: (nexts n l.next.2).1, (nexts n l.next.2).2)

theorem take_append_replicate {α : Type} (xs : List α) (a : α) (n : Nat) :
    (xs ++ List.replicate (n + 1) a).take n = (xs ++ List.replicate n a).take n := by
  simp only [List.take_append, List.take_replicate]
  congr 2
  omega

/-- The lexer gives the tokens of its text, and then the end for ever; what it has reported is what
belongs to the tokens it has given. -/
theorem nexts_eq (n : Nat) {p : Place} {cs : List Char} (h : p.Level cs)
    (reports : List Diagnostic) :
    let lexemes := Lexeme.all p cs
    (nexts n ⟨p, cs, reports⟩).1 =
        (lexemes.map (·.token) ++ List.replicate n (eofAt (p.pos + byteLength cs))).take n ∧
      (nexts n ⟨p, cs, reports⟩).2.diagnostics =
        reports ++ (lexemes.take n).filterMap (·.report) := by
  induction n generalizing p cs reports with
  | zero => simp [nexts]
  | succ n ih =>
    cases cs with
    | nil =>
      have hnext : next ⟨p, [], reports⟩ = (eofAt p.pos, ⟨p, [], reports⟩) := rfl
      obtain ⟨htokens, hreports⟩ := ih h reports
      simp only [nexts, hnext, htokens, hreports]
      simp [Lexeme.all, List.replicate_succ]
    | cons c cs =>
      obtain ⟨chars, hwhole, _, hsound, hlevel⟩ := Lexeme.read_munch h
      have hnext : next ⟨p, c :: cs, reports⟩ = ((Lexeme.read p c cs).1.token,
          ⟨p.move (Lexeme.read p c cs).1.token.span.len, (Lexeme.read p c cs).2,
            reports ++ (Lexeme.read p c cs).1.report.toList⟩) := rfl
      obtain ⟨htokens, hreports⟩ := ih hlevel (reports ++ (Lexeme.read p c cs).1.report.toList)
      have hend : (p.move (Lexeme.read p c cs).1.token.span.len).pos +
          byteLength (Lexeme.read p c cs).2 = p.pos + byteLength (c :: cs) := by
        rw [hsound.pos_move, Nat.add_assoc, ← byteLength_append, hwhole]
      simp only [nexts, hnext, htokens, hreports, hend, Lexeme.all, List.map_cons, List.cons_append,
        List.take_succ_cons, List.filterMap_cons, take_append_replicate]
      cases (Lexeme.read p c cs).1.report <;> simp

end Lexer

theorem reports_eq_faults {text : String} (hlen : byteLength text.toList < Span.lengthBound)
    (n : Nat) :
    ((lexemes text).take n).filterMap (·.report) = ((tokens text).take n).filterMap fault? := by
  rw [tokens, ← List.map_take, List.filterMap_map]
  refine List.filterMap_congr fun l hl => ?_
  exact (Lexeme.all_sound (Place.level_start hlen) l (List.mem_of_mem_take hl)).2

/-- Read again and again, the lexer gives the longest pieces of a text and nothing else, each with
its place, its text and its value, then the end of the text for ever. The faults it has reported are
those of the bad characters and of the numbers without a value among the tokens it has given. -/
theorem lexer_maximal_munch (text : String) (hlen : byteLength text.toList < 2 ^ 32) :
    (∀ pieces, Pieces text.toList pieces ↔
      (tokens text).map (fun t => (t.kind, t.text.toList)) = pieces) ∧
    Contiguous 0 (tokens text) (byteLength text.toList) ∧
    (∀ t ∈ tokens text, t.span.slice? text = some t.text ∧ Valued t) ∧
    ∀ n, (Lexer.nexts n (.ofText text)).1 =
        (tokens text ++ List.replicate n (eofAt (byteLength text.toList))).take n ∧
      (Lexer.nexts n (.ofText text)).2.diagnostics = ((tokens text).take n).filterMap fault? := by
  have hpieces := tokens_pieces hlen
  refine ⟨fun pieces => ⟨fun h => hpieces.unique h, fun h => h ▸ hpieces⟩, tokens_contiguous hlen,
    fun t ht => ⟨tokens_slices hlen t ht, tokens_valued hlen t ht⟩, fun n => ?_⟩
  obtain ⟨htokens, hreports⟩ := Lexer.nexts_eq n (Place.level_start hlen) []
  rw [Place.start, Nat.zero_add] at htokens
  exact ⟨htokens, hreports.trans (reports_eq_faults hlen n)⟩

/-- Signs without blanks between them, a letter of two bytes and a bad character. -/
theorem glued_signs_munched :
    let text := "a<==1&&&é $"
    byteLength text.toList < 2 ^ 32 ∧
      Pieces text.toList [(.identifier, ['a']), (.lessEq, ['<', '=']), (.eq, ['=']), (.number, ['1']),
        (.ampAmp, ['&', '&']), (.amp, ['&']), (.identifier, ['é']), (.whitespace, [' ']),
        (.bad, ['$'])] ∧
      (Lexer.nexts 11 (.ofText text)).1.map (·.span) =
        [⟨0, 1⟩, ⟨1, 2⟩, ⟨3, 1⟩, ⟨4, 1⟩, ⟨5, 2⟩, ⟨7, 1⟩, ⟨8, 2⟩, ⟨10, 1⟩, ⟨11, 1⟩, ⟨12, 0⟩, ⟨12, 0⟩] := by
  intro text
  have hlen : byteLength text.toList < 2 ^ 32 := by decide
  obtain ⟨hpieces, _, _, hnexts⟩ := lexer_maximal_munch text hlen
  refine ⟨hlen, (hpieces _).mpr (by decide +kernel), ?_⟩
  rw [(hnexts 11).1]
  decide +kernel

end Token

end Scriptlet
