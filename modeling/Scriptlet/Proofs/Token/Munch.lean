import Mathlib.Data.List.Induction
import Mathlib.Data.Nat.Digits.Defs
import Scriptlet.Proofs.Text.Boundary
import Scriptlet.Token.Lexer

/-!
# Longest tokens

What a token of each kind can be spelled as, and that the lexer cuts a text, at each place, after the
longest such spelling. White space, digits and letters are three classes that have no character in
common, and none of them holds a sign, so a spelling has only one kind.
-/

namespace Scriptlet

namespace Text

/-! ## Classes of characters -/

def rangesApart (rs ss : List (Nat × Nat)) : Bool :=
  rs.all fun r => ss.all fun s => r.2 < s.1 || s.2 < r.1

theorem inRanges_eq_false {rs ss : List (Nat × Nat)} {n : Nat}
    (hn : ∃ r ∈ rs, r.1 ≤ n ∧ n ≤ r.2) (h : rangesApart rs ss = true) : inRanges n ss = false := by
  rw [Bool.eq_false_iff]
  intro hin
  obtain ⟨r, hr, hrn⟩ := hn
  obtain ⟨s, hs, hsn⟩ := exists_of_inRanges hin
  have hapart := List.all_eq_true.mp (List.all_eq_true.mp h r hr) s hs
  simp only [Bool.or_eq_true, decide_eq_true_eq] at hapart
  omega

theorem isAlphabetic_of_isWhitespace {c : Char} (h : isWhitespace c = true) :
    isAlphabetic c = false :=
  inRanges_eq_false (exists_of_inRanges h) (by decide +kernel)

theorem isWhitespace_of_isAlphabetic {c : Char} (h : isAlphabetic c = true) :
    isWhitespace c = false := by
  rw [Bool.eq_false_iff]
  intro hw
  rw [isAlphabetic_of_isWhitespace hw] at h
  cases h

theorem range_of_isDigit {c : Char} (h : c.isDigit = true) :
    ∃ r ∈ [(48, 57)], r.1 ≤ c.toNat ∧ c.toNat ≤ r.2 := by
  simp only [Char.isDigit, Bool.and_eq_true, decide_eq_true_eq, ge_iff_le,
    UInt32.le_iff_toNat_le] at h
  exact ⟨(48, 57), List.mem_singleton.mpr rfl, h⟩

theorem isWhitespace_of_isDigit {c : Char} (h : c.isDigit = true) : isWhitespace c = false :=
  inRanges_eq_false (range_of_isDigit h) (by decide +kernel)

theorem isAlphabetic_of_isDigit {c : Char} (h : c.isDigit = true) : isAlphabetic c = false :=
  inRanges_eq_false (range_of_isDigit h) (by decide +kernel)

end Text

namespace Token

open Text

/-! ## Spellings -/

namespace Kind

def keywords : List Kind :=
  [.trueKeyword, .falseKeyword, .letKeyword, .varKeyword, .ifKeyword, .elseKeyword, .whileKeyword,
    .forKeyword, .toKeyword]

def signs : List Kind :=
  [.plus, .minus, .star, .slash, .bang, .amp, .ampAmp, .pipe, .pipePipe, .hat, .eq, .eqEq, .bangEq,
    .less, .lessEq, .greater, .greaterEq, .openParen, .closeParen, .openBrace, .closeBrace]

def IsOfWord (kind : Kind) (word : String) : Prop :=
  kind ∈ keywords ∧ kind.spelling? = some word ∨
    kind = .identifier ∧ ∀ k ∈ keywords, k.spelling? ≠ some word

theorem ofWord_isOfWord (word : String) : (ofWord word).IsOfWord word := by
  unfold ofWord
  split
  case h_10 =>
    refine .inr ⟨rfl, ?_⟩
    simp only [keywords, List.forall_mem_cons, spelling?]
    simp_all [eq_comm]
  all_goals exact .inl (by decide)

theorem ofWord_ne_eof (word : String) : ofWord word ≠ .eof := by
  unfold ofWord
  split <;> decide

theorem IsOfWord.unique {k k' : Kind} {word : String} (h : k.IsOfWord word)
    (h' : k'.IsOfWord word) : k = k' := by
  have hinj : ∀ k ∈ keywords, ∀ k' ∈ keywords, k.spelling? = k'.spelling? → k = k' := by decide
  rcases h with ⟨hk, hs⟩ | ⟨rfl, hno⟩
  · rcases h' with ⟨hk', hs'⟩ | ⟨rfl, hno⟩
    · exact hinj k hk k' hk' (hs.trans hs'.symm)
    · exact absurd hs (hno k hk)
  · rcases h' with ⟨hk', hs'⟩ | ⟨rfl, _⟩
    · exact absurd hs' (hno k' hk')
    · rfl

end Kind

/-- What a token of some kind can be spelled as. Bad characters and the end have no spelling. -/
inductive Spells : Kind → List Char → Prop
  | whitespace {cs : List Char} : cs ≠ [] → (∀ c ∈ cs, isWhitespace c = true) →
    Spells .whitespace cs
  | number {cs : List Char} : cs ≠ [] → (∀ c ∈ cs, c.isDigit = true) → Spells .number cs
  | word {kind : Kind} {cs : List Char} : cs ≠ [] → (∀ c ∈ cs, isAlphabetic c = true) →
    kind.IsOfWord (String.ofList cs) → Spells kind cs
  | sign {kind : Kind} {s : String} : kind ∈ Kind.signs → kind.spelling? = some s →
    Spells kind s.toList

/-- `lexeme` is what a text `lexeme ++ rest` starts with: the longest spelling of a token, or a
single bad character where no token can be spelled. -/
inductive Munch (rest : List Char) : Kind → List Char → Prop
  | longest {kind : Kind} {lexeme : List Char} : Spells kind lexeme →
    (∀ kind' other, Spells kind' other → other <+: lexeme ++ rest →
      other.length ≤ lexeme.length) → Munch rest kind lexeme
  | bad {c : Char} : (∀ kind' other, Spells kind' other → ¬ other <+: c :: rest) →
    Munch rest .bad [c]

/-- The pieces into which a text falls if the longest one is cut off again and again. -/
inductive Pieces : List Char → List (Kind × List Char) → Prop
  | nil : Pieces [] []
  | cons {kind : Kind} {lexeme rest : List Char} {pieces : List (Kind × List Char)} :
    Munch rest kind lexeme → Pieces rest pieces → Pieces (lexeme ++ rest) ((kind, lexeme) :: pieces)

/-! ## Spellings by their first character -/

theorem ofChar_whitespace {c : Char} (h : isWhitespace c = true) :
    CharClass.ofChar c = .whitespace := by
  simp [CharClass.ofChar, h]

theorem ofChar_digit {c : Char} (h : c.isDigit = true) : CharClass.ofChar c = .digit := by
  simp [CharClass.ofChar, h, isWhitespace_of_isDigit h]

theorem ofChar_letter {c : Char} (h : isAlphabetic c = true) : CharClass.ofChar c = .letter := by
  have hd : c.isDigit = false := by
    rw [Bool.eq_false_iff]
    intro hd
    rw [isAlphabetic_of_isDigit hd] at h
    cases h
  simp [CharClass.ofChar, isWhitespace_of_isAlphabetic h, hd, h]

def CharClass.sign? : CharClass → Option Char
  | .plus => some '+'
  | .minus => some '-'
  | .star => some '*'
  | .slash => some '/'
  | .openParen => some '('
  | .closeParen => some ')'
  | .openBrace => some '\x7b'
  | .closeBrace => some '\x7d'
  | .and => some '&'
  | .or => some '|'
  | .caret => some '^'
  | .eq => some '='
  | .bang => some '!'
  | .lt => some '<'
  | .gt => some '>'
  | .whitespace | .letter | .digit | .unknown => none

theorem eq_of_sign? {c d : Char} (h : (CharClass.ofChar c).sign? = some d) : c = d := by
  unfold CharClass.ofChar at h
  split_ifs at h
  case neg =>
    split at h
    case h_16 => cases h
    all_goals exact Option.some.inj h
  all_goals cases h

theorem class_of_ofChar {c : Char} {cls : CharClass} (h : CharClass.ofChar c = cls) :
    (cls = .whitespace → isWhitespace c = true) ∧ (cls = .digit → c.isDigit = true) ∧
      (cls = .letter → isAlphabetic c = true) := by
  subst h
  unfold CharClass.ofChar
  split_ifs with hw hd ha
  · simp [hw]
  · simp [hd]
  · simp [ha]
  · split <;> simp

theorem continues_of_ofPair? {cls cls' : CharClass} {kind : Kind}
    (h : Kind.ofPair? cls cls' = some kind) : cls.continues = fun _ => false := by
  unfold Kind.ofPair? at h
  split at h
  case h_7 => cases h
  all_goals rfl

theorem mem_signs_of_ofPair? {cls cls' : CharClass} {kind : Kind}
    (h : Kind.ofPair? cls cls' = some kind) : kind ∈ Kind.signs := by
  unfold Kind.ofPair? at h
  split at h
  case h_7 => cases h
  all_goals
    cases h
    decide

def Run.kind (run : Run) : Kind := run.cls.kind (String.ofList run.chars)

theorem sign_cases {kind : Kind} {s : String} (hk : kind ∈ Kind.signs)
    (hs : kind.spelling? = some s) :
    (∃ c, s.toList = [c] ∧ CharClass.ofChar c ≠ .unknown ∧
      Run.kind ⟨CharClass.ofChar c, [c]⟩ = kind) ∨
    ∃ c d, s.toList = [c, d] ∧
      Kind.ofPair? (CharClass.ofChar c) (CharClass.ofChar d) = some kind := by
  simp only [Kind.signs, List.mem_cons, List.not_mem_nil, or_false] at hk
  rcases hk with rfl | rfl | rfl | rfl | rfl | rfl | rfl | rfl | rfl | rfl | rfl | rfl | rfl | rfl |
    rfl | rfl | rfl | rfl | rfl | rfl | rfl
  all_goals
    cases hs
    first
    | exact .inl ⟨_, rfl, by decide, rfl⟩
    | exact .inr ⟨_, _, rfl, by decide⟩

theorem Spells.of_sign {kind : Kind} {cs : List Char} (hk : kind ∈ Kind.signs)
    (hs : kind.spelling?.map String.toList = some cs) : Spells kind cs := by
  obtain ⟨s, hspelling, rfl⟩ := Option.map_eq_some_iff.mp hs
  exact .sign hk hspelling

theorem Spells.of_run {c : Char} {cs : List Char} (hknown : CharClass.ofChar c ≠ .unknown)
    (hall : ∀ d ∈ cs, (CharClass.ofChar c).continues d = true) :
    Spells (Run.kind ⟨CharClass.ofChar c, c :: cs⟩) (c :: cs) := by
  have hclass := class_of_ofChar (c := c) rfl
  cases hcls : CharClass.ofChar c with
  | unknown => exact absurd hcls hknown
  | whitespace =>
    rw [hcls] at hall hclass
    exact .whitespace (by simp) (List.forall_mem_cons.mpr ⟨hclass.1 rfl, hall⟩)
  | digit =>
    rw [hcls] at hall hclass
    exact .number (by simp) (List.forall_mem_cons.mpr ⟨hclass.2.1 rfl, hall⟩)
  | letter =>
    rw [hcls] at hall hclass
    exact .word (by simp) (List.forall_mem_cons.mpr ⟨hclass.2.2 rfl, hall⟩)
      (Kind.ofWord_isOfWord _)
  | _ =>
    have hc : c = _ := eq_of_sign? (by rw [hcls]; rfl)
    rw [hcls] at hall
    have hcs : cs = [] := List.eq_nil_iff_forall_not_mem.mpr fun d hd => by cases hall d hd
    subst hc hcs
    exact .of_sign (by decide) rfl

theorem Spells.of_pair {c d : Char} {kind : Kind}
    (h : Kind.ofPair? (CharClass.ofChar c) (CharClass.ofChar d) = some kind) :
    Spells kind [c, d] := by
  unfold Kind.ofPair? at h
  split at h
  case h_7 => cases h
  all_goals
    rename_i hc hd
    have hc' : c = _ := eq_of_sign? (by rw [hc]; rfl)
    have hd' : d = _ := eq_of_sign? (by rw [hd]; rfl)
    cases h
    subst hc' hd'
    exact .of_sign (by decide) rfl

/-- The spellings that start with `c` are runs of its class and operators of two characters. -/
theorem spells_cons_iff {kind : Kind} {c : Char} {cs : List Char} :
    Spells kind (c :: cs) ↔
      CharClass.ofChar c ≠ .unknown ∧ (∀ d ∈ cs, (CharClass.ofChar c).continues d = true) ∧
        Run.kind ⟨CharClass.ofChar c, c :: cs⟩ = kind ∨
      ∃ d, cs = [d] ∧ Kind.ofPair? (CharClass.ofChar c) (CharClass.ofChar d) = some kind := by
  constructor
  · intro h
    obtain ⟨l, hl⟩ : ∃ l, l = c :: cs := ⟨_, rfl⟩
    rw [← hl] at h
    cases h with
    | whitespace _ hall =>
      subst hl
      obtain ⟨hc, hcs⟩ := List.forall_mem_cons.mp hall
      rw [ofChar_whitespace hc]
      exact .inl ⟨by decide, hcs, rfl⟩
    | number _ hall =>
      subst hl
      obtain ⟨hc, hcs⟩ := List.forall_mem_cons.mp hall
      rw [ofChar_digit hc]
      exact .inl ⟨by decide, hcs, rfl⟩
    | word _ hall hkind =>
      subst hl
      obtain ⟨hc, hcs⟩ := List.forall_mem_cons.mp hall
      rw [ofChar_letter hc]
      exact .inl ⟨by decide, hcs, (Kind.ofWord_isOfWord _).unique hkind⟩
    | sign hk hs =>
      rcases sign_cases hk hs with ⟨c', hlist, hknown, hkind⟩ | ⟨c', d, hlist, hpair⟩
      · obtain ⟨rfl, rfl⟩ := List.cons_eq_cons.mp (hl.symm.trans hlist)
        exact .inl ⟨hknown, by simp, hkind⟩
      · obtain ⟨rfl, rfl⟩ := List.cons_eq_cons.mp (hl.symm.trans hlist)
        exact .inr ⟨d, rfl, hpair⟩
  · rintro (⟨hknown, hall, rfl⟩ | ⟨d, rfl, hpair⟩)
    · exact .of_run hknown hall
    · exact .of_pair hpair

theorem Spells.ne_nil {kind : Kind} {cs : List Char} (h : Spells kind cs) : cs ≠ [] := by
  cases h with
  | whitespace hne _ | number hne _ | word hne _ _ => exact hne
  | sign hk hs =>
    rcases sign_cases hk hs with ⟨c, hlist, _⟩ | ⟨c, d, hlist, _⟩ <;> simp [hlist]

/-- What is always written the same way is written so. -/
theorem Spells.of_spelling? {kind : Kind} {cs : List Char} {s : String} (h : Spells kind cs)
    (hs : kind.spelling? = some s) : String.ofList cs = s := by
  cases h with
  | whitespace | number => cases hs
  | word _ _ hword =>
    rcases hword with ⟨_, hspelling⟩ | ⟨rfl, _⟩
    · exact Option.some.inj (hspelling.symm.trans hs)
    · cases hs
  | sign _ hspelling =>
    rw [hspelling, Option.some.injEq] at hs
    rw [hs, String.ofList_toList]

theorem Spells.unique {kind kind' : Kind} {cs : List Char} (h : Spells kind cs)
    (h' : Spells kind' cs) : kind = kind' := by
  obtain ⟨c, cs, rfl⟩ := List.exists_cons_of_ne_nil h.ne_nil
  rcases spells_cons_iff.mp h with ⟨_, hall, hkind⟩ | ⟨d, hd, hpair⟩
  · rcases spells_cons_iff.mp h' with ⟨_, _, hkind'⟩ | ⟨d, rfl, hpair⟩
    · exact hkind.symm.trans hkind'
    · rw [continues_of_ofPair? hpair] at hall
      cases hall d List.mem_cons_self
  · rcases spells_cons_iff.mp h' with ⟨_, hall, _⟩ | ⟨d', hd', hpair'⟩
    · subst hd
      rw [continues_of_ofPair? hpair] at hall
      cases hall d List.mem_cons_self
    · cases hd.symm.trans hd'
      exact Option.some.inj (hpair.symm.trans hpair')

/-! ## The longest spelling -/

theorem Munch.unique {kind kind' : Kind} {lexeme lexeme' rest rest' : List Char}
    (h : Munch rest kind lexeme) (h' : Munch rest' kind' lexeme')
    (htext : lexeme ++ rest = lexeme' ++ rest') :
    kind = kind' ∧ lexeme = lexeme' ∧ rest = rest' := by
  cases h with
  | longest hs hmax =>
    cases h' with
    | longest hs' hmax' =>
      have hle := hmax _ _ hs' (htext ▸ List.prefix_append _ _)
      have hle' := hmax' _ _ hs (htext ▸ List.prefix_append _ _)
      obtain ⟨rfl, rfl⟩ := List.append_inj htext (Nat.le_antisymm hle' hle)
      exact ⟨hs.unique hs', rfl, rfl⟩
    | bad hnone => exact absurd ⟨rest, htext⟩ (hnone _ _ hs)
  | bad hnone =>
    cases h' with
    | longest hs' _ => exact absurd ⟨rest', htext.symm⟩ (hnone _ _ hs')
    | bad _ =>
      obtain ⟨rfl, rfl⟩ := List.cons_eq_cons.mp htext
      exact ⟨rfl, rfl, rfl⟩

theorem Munch.ne_nil {rest lexeme : List Char} {kind : Kind} (h : Munch rest kind lexeme) :
    lexeme ≠ [] := by
  cases h with
  | longest hs _ => exact hs.ne_nil
  | bad _ => simp

theorem Munch.spells {rest lexeme : List Char} {kind : Kind} (h : Munch rest kind lexeme)
    (hbad : kind ≠ .bad) : Spells kind lexeme := by
  cases h with
  | longest hs _ => exact hs
  | bad _ => exact absurd rfl hbad

theorem Pieces.unique {cs : List Char} {ps qs : List (Kind × List Char)} (h : Pieces cs ps)
    (h' : Pieces cs qs) : ps = qs := by
  induction h generalizing qs with
  | nil =>
    generalize hcs : [] = cs at h'
    cases h' with
    | nil => rfl
    | cons hm _ => exact absurd (List.append_eq_nil_iff.mp hcs.symm).1 hm.ne_nil
  | @cons kind lexeme rest ps hm _ ih =>
    generalize hcs : lexeme ++ rest = cs at h'
    cases h' with
    | nil => exact absurd (List.append_eq_nil_iff.mp hcs).1 hm.ne_nil
    | cons hm' hps' =>
      obtain ⟨rfl, rfl, rfl⟩ := hm.unique hm' hcs
      rw [ih hps']

/-! ## Values and faults -/

def numeral (digits : List Char) : Nat :=
  Nat.ofDigits 10 (digits.map fun d => d.toNat - '0'.toNat).reverse

theorem decimal_eq_numeral (digits : List Char) : decimal digits = numeral digits := by
  unfold decimal numeral
  induction digits using List.reverseRecOn with
  | nil => rfl
  | append_singleton digits d ih =>
    rw [List.foldl_append, ih, List.map_append, List.reverse_append]
    simp only [List.foldl_cons, List.foldl_nil, List.map_cons, List.map_nil, List.reverse_singleton,
      List.singleton_append, Nat.ofDigits_cons]
    omega

theorem signed?_of_digits {cs : List Char} (hne : cs ≠ []) (hall : ∀ c ∈ cs, c.isDigit = true) :
    signed? cs = some (numeral cs : Int) := by
  have hdigits : (!cs.isEmpty && cs.all (·.isDigit)) = true := by
    rw [Bool.and_eq_true, List.all_eq_true]
    exact ⟨by simpa using hne, hall⟩
  have hunsigned : signed?.unsigned? cs = some (numeral cs : Int) := by
    rw [signed?.unsigned?, if_pos hdigits, decimal_eq_numeral]
  unfold signed?
  split
  · exact absurd (hall '-' List.mem_cons_self) (by decide)
  · exact absurd (hall '+' List.mem_cons_self) (by decide)
  · exact hunsigned

theorem number?_of_digits {cs : List Char} (hne : cs ≠ []) (hall : ∀ c ∈ cs, c.isDigit = true) :
    number? cs = if numeral cs ≤ 2147483647 then some (.ofInt (numeral cs)) else none := by
  rw [number?, signed?_of_digits hne hall]
  by_cases hfits : numeral cs ≤ 2147483647
  · simp only [if_pos hfits]
    exact if_pos (by omega)
  · simp only [if_neg hfits]
    exact if_neg (by omega)

/-- Only numbers have values: the number they write, if it fits. -/
structure Valued (t : Token) : Prop where
  fits : t.kind = .number → numeral t.text.toList ≤ 2147483647 →
    ∃ n : Int32, t.value = some (.int n) ∧ n.toInt = numeral t.text.toList
  large : t.kind = .number → 2147483647 < numeral t.text.toList → t.value = none
  other : t.kind ≠ .number → t.value = none

def fault? (t : Token) : Option Diagnostic :=
  match t.kind with
  | .bad => t.text.toList.head?.map fun c => ⟨t.span, .badCharacter c⟩
  | .number => if t.value = none then some ⟨t.span, .invalidNumber t.text Ty.int.name⟩ else none
  | _ => none

namespace Place

variable {p : Place} {cs rest : List Char}

theorem take_of_ahead (cs : List Char) (h : p.ahead = some (cs ++ rest)) :
    p.take (byteLength cs) = cs := by
  simp [take, h, splitAt?_append]

/-- A lexer at `p` is where the characters stand that it has not seen, and they are too few for
lengths to wrap. -/
structure Level (p : Place) (cs : List Char) : Prop where
  ahead : p.ahead = some cs
  short : byteLength cs < Span.lengthBound

theorem level_start (hlen : byteLength cs < Span.lengthBound) : (start cs).Level cs := ⟨rfl, hlen⟩

theorem Level.move (h : p.Level (cs ++ rest)) : (p.move (byteLength cs)).Level rest where
  ahead := by simp only [Place.move, h.ahead, drop?_append]
  short := by
    have hlen := h.short
    rw [byteLength_append] at hlen
    omega

end Place

namespace Lexeme

structure Sound (l : Lexeme) (pos : Nat) (chars : List Char) : Prop where
  text : l.token.text = String.ofList chars
  span : l.token.span = ⟨pos, byteLength chars⟩
  valued : Valued l.token
  report : l.report = fault? l.token

theorem plain_sound {kind : Kind} (hnumber : kind ≠ .number) (hbad : kind ≠ .bad) (pos : Nat)
    (chars : List Char) :
    Sound ⟨⟨kind, ⟨pos, byteLength chars⟩, String.ofList chars, none⟩, none⟩ pos chars := by
  refine ⟨rfl, rfl, ⟨fun h => absurd h hnumber, fun _ _ => rfl, fun _ => rfl⟩, ?_⟩
  unfold fault?
  split
  · rename_i h
    exact absurd h hbad
  · rename_i h
    exact absurd h hnumber
  · rfl

theorem number_sound {chars : List Char} (h : numeral chars ≤ 2147483647) (pos : Nat) :
    Sound ⟨⟨.number, ⟨pos, byteLength chars⟩, String.ofList chars,
      some (.int (.ofInt (numeral chars)))⟩, none⟩ pos chars := by
  refine ⟨rfl, rfl, ⟨fun _ _ => ⟨_, rfl, ?_⟩, fun _ hlarge => ?_, fun h => absurd rfl h⟩, rfl⟩
  · rw [String.toList_ofList, Int32.toInt_ofInt_of_le (by omega) (by omega)]
  · rw [String.toList_ofList] at hlarge
    omega

theorem large_sound {chars : List Char} (h : 2147483647 < numeral chars) (pos : Nat) :
    Sound ⟨⟨.number, ⟨pos, byteLength chars⟩, String.ofList chars, none⟩,
      some ⟨⟨pos, byteLength chars⟩, .invalidNumber (String.ofList chars) Ty.int.name⟩⟩
      pos chars := by
  refine ⟨rfl, rfl, ⟨fun _ hfits => ?_, fun _ _ => rfl, fun _ => rfl⟩, rfl⟩
  rw [String.toList_ofList] at hfits
  omega

theorem bad_sound (pos : Nat) (c : Char) :
    Sound ⟨⟨.bad, ⟨pos, byteLength [c]⟩, String.ofList [c], none⟩,
      some (Diagnostic.badCharacter pos c)⟩ pos [c] := by
  refine ⟨rfl, rfl, ⟨fun h => (by cases h), fun h => (by cases h), fun _ => rfl⟩, ?_⟩
  simp [fault?, Diagnostic.badCharacter]

theorem ofWord_ne (word : String) : Kind.ofWord word ≠ .number ∧ Kind.ofWord word ≠ .bad := by
  unfold Kind.ofWord
  split <;> decide

/-- Where the source goes on with `cs`, a token of its length reads as `cs`. -/
theorem tokenAt_eq {p : Place} {kind : Kind} (cs : List Char) {rest : List Char}
    (h : p.ahead = some (cs ++ rest))
    (hspelled : ∀ s, kind.spelling? = some s → String.ofList cs = s) :
    tokenAt p kind (byteLength cs) = ⟨kind, ⟨p.pos, byteLength cs⟩, String.ofList cs, none⟩ := by
  have htext : kind.spelling?.getD (String.ofList cs) = String.ofList cs := by
    cases hs : kind.spelling? with
    | none => rfl
    | some s => exact (hspelled s hs).symm
  rw [tokenAt, Place.take_of_ahead cs h, htext]

theorem ofRun_kind (p : Place) (run : Run) :
    (ofRun p run).token.kind = run.cls.kind (String.ofList (p.take run.len)) := by
  simp only [ofRun]
  split
  · split <;> rfl
  · rfl
  · rfl

/-- A number is without fault if it fits a word. -/
theorem ofRun_number {p : Place} {run : Run} (hkind : (ofRun p run).token.kind = .number)
    (hreport : (ofRun p run).report = none) :
    ∃ n, number? (ofRun p run).token.text.toList = some n ∧
      (ofRun p run).token.value = some (.int n) := by
  have hcls : run.cls = .digit := by
    rw [ofRun_kind] at hkind
    cases hcls : run.cls with
    | digit => rfl
    | letter => exact absurd (hcls ▸ hkind) (ofWord_ne _).1
    | _ =>
      rw [hcls] at hkind
      cases hkind
  have htext : ∀ len, (tokenAt p .number len).text.toList = p.take len := fun _ =>
    String.toList_ofList
  simp only [ofRun, hcls, CharClass.kind] at hreport ⊢
  cases hn : number? (p.take run.len) with
  | none =>
    rw [hn] at hreport
    cases hreport
  | some n => exact ⟨n, by rw [htext, hn], rfl⟩

/-- Below the bound on lengths, the lexeme of a run is the run. -/
theorem ofRun_sound {p : Place} {run : Run} {rest : List Char} (h : p.Level (run.chars ++ rest))
    (hspelled : ∀ s, run.kind.spelling? = some s → String.ofList run.chars = s)
    (hdigits : run.cls = .digit → run.chars ≠ [] ∧ ∀ c ∈ run.chars, c.isDigit = true)
    (hbad : run.cls = .unknown → ∃ c, run.chars = [c]) :
    (ofRun p run).token.kind = run.kind ∧ (ofRun p run).Sound p.pos run.chars := by
  obtain ⟨cls, chars⟩ := run
  have hlen : Run.len ⟨cls, chars⟩ = byteLength chars := by
    have hshort := h.short
    rw [byteLength_append] at hshort
    exact Nat.mod_eq_of_lt (Nat.lt_of_le_of_lt (Nat.le_add_right _ _) hshort)
  have htake : p.take (byteLength chars) = chars := Place.take_of_ahead chars h.ahead
  have htoken : tokenAt p (cls.kind (String.ofList chars)) (byteLength chars) =
      ⟨cls.kind (String.ofList chars), ⟨p.pos, byteLength chars⟩, String.ofList chars, none⟩ :=
    tokenAt_eq chars h.ahead hspelled
  simp only [ofRun, hlen, htake, htoken]
  cases cls with
  | digit =>
    obtain ⟨hne, hall⟩ := hdigits rfl
    rw [number?_of_digits hne hall]
    by_cases hfits : numeral chars ≤ 2147483647
    · rw [if_pos hfits]
      exact ⟨rfl, number_sound hfits p.pos⟩
    · rw [if_neg hfits]
      exact ⟨rfl, large_sound (Nat.lt_of_not_le hfits) p.pos⟩
  | unknown =>
    obtain ⟨c, rfl⟩ : ∃ c, chars = [c] := hbad rfl
    have hhead : p.ahead.bind (·.head?) = some c := by rw [h.ahead]; rfl
    rw [hhead]
    exact ⟨rfl, bad_sound p.pos c⟩
  | letter =>
    obtain ⟨hnumber, hbad⟩ := ofWord_ne (String.ofList chars)
    exact ⟨rfl, plain_sound hnumber hbad p.pos chars⟩
  | _ => exact ⟨rfl, plain_sound (by simp [CharClass.kind]) (by simp [CharClass.kind]) p.pos chars⟩

theorem ofPair?_sound {p : Place} {c d : Char} {rest : List Char} {l : Lexeme}
    (hahead : p.ahead = some (c :: d :: rest))
    (h : ofPair? p ⟨CharClass.ofChar c, [c]⟩ d = some l) :
    Kind.ofPair? (CharClass.ofChar c) (CharClass.ofChar d) = some l.token.kind ∧
      l.Sound p.pos [c, d] := by
  obtain ⟨kind, hkind, rfl⟩ := Option.map_eq_some_iff.mp h
  have hlen : Run.len ⟨CharClass.ofChar c, [c]⟩ + d.utf8Size = byteLength [c, d] := by
    have hsize := c.utf8Size_le_four
    have hmod : c.utf8Size % Span.lengthBound = c.utf8Size :=
      Nat.mod_eq_of_lt (Nat.lt_of_le_of_lt hsize (by decide))
    simp [Run.len, hmod]
  rw [hlen, tokenAt_eq [c, d] hahead fun s hs => (Spells.of_pair hkind).of_spelling? hs]
  have hsign : kind ∈ Kind.signs := mem_signs_of_ofPair? hkind
  exact ⟨hkind, plain_sound (ne_of_mem_of_not_mem hsign (by decide))
    (ne_of_mem_of_not_mem hsign (by decide)) p.pos [c, d]⟩

end Lexeme

end Token

end Scriptlet
