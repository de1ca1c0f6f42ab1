import Scriptlet.Proofs.Run.Triple
import Scriptlet.Proofs.Syntax.Accounting
import Scriptlet.Syntax.Parser

/-!
# Reading with a cursor

The same reading done by moving a cursor over a list of tokens that has its end token as the last.
Nothing here tells that this comes to an end: each function spends fuel on every call and every
round of a loop, and looks tokens up by an index, and both can fail. A walk that does not fail is
compared with the parser in the same place.
-/

namespace Scriptlet.Syntax

open Run (bind_of_ok)
open Token (Kind significantTokens)

/-- How many tokens have been taken, and the faults found so far. -/
structure Cursor where
  position : Nat
  diagnostics : List Diagnostic
  deriving DecidableEq

namespace Cursor

inductive Failure
  | outOfFuel
  | outOfRange (index : Nat)
  deriving DecidableEq

abbrev Walk := EStateM Failure Cursor

section
variable (tokens : List Token)

/-! ## Steps -/

/-- Where the token `n` places ahead is looked up: past the end, that is the last place. -/
def index (c : Cursor) (n : Nat) : Nat := min (c.position + n) (tokens.length - 1)

def peek (n : Nat) : Walk Token := do
  let i := (← get).index tokens n
  match tokens[i]? with
  | some t => return t
  | none => throw (.outOfRange i)

def next : Walk Token := do
  let t ← peek tokens 0
  modify fun c => { c with position := c.position + 1 }
  return t

def report (d : Diagnostic) : Walk Unit :=
  modify fun c => { c with diagnostics := c.diagnostics ++ [d] }

def expect (kind : Kind) : Walk Token := do
  let t ← peek tokens 0
  if t.kind = kind then next tokens
  else
    report (unexpected t kind)
    return .missing kind t.span.pos

/-! ## Expressions -/

mutual

def expr : Nat → Walk Expr
  | 0 => throw .outOfFuel
  | fuel + 1 => do
    let t ← peek tokens 0
    let u ← peek tokens 1
    if t.kind = .identifier ∧ u.kind = .eq then
      let ident ← next tokens
      let eq ← next tokens
      let rhs ← expr fuel
      return .assign ident eq rhs
    else binary fuel 0

def binary : Nat → Nat → Walk Expr
  | 0, _ => throw .outOfFuel
  | fuel + 1, parent => do
    let t ← peek tokens 0
    if t.kind.unaryPrecedence ≠ 0 ∧ parent ≤ t.kind.unaryPrecedence then
      let op ← next tokens
      let operand ← binary fuel t.kind.unaryPrecedence
      operators fuel parent (.unary op operand)
    else
      let lhs ← primary fuel
      operators fuel parent lhs

def operators : Nat → Nat → Expr → Walk Expr
  | 0, _, _ => throw .outOfFuel
  | fuel + 1, parent, lhs => do
    let t ← peek tokens 0
    if t.kind.binaryPrecedence = 0 ∨ t.kind.binaryPrecedence ≤ parent then return lhs
    else
      let op ← next tokens
      let rhs ← binary fuel t.kind.binaryPrecedence
      operators fuel parent (.binary lhs op rhs)

def primary : Nat → Walk Expr
  | 0 => throw .outOfFuel
  | fuel + 1 => do
    let t ← peek tokens 0
    match t.kind with
    | .openParen =>
      let opening ← next tokens
      let inner ← expr fuel
      let closing ← expect tokens .closeParen
      return .paren opening inner closing
    | .trueKeyword => return .literal (← next tokens) (some (.bool true))
    | .falseKeyword => return .literal (← next tokens) (some (.bool false))
    | .number =>
      let literal ← next tokens
      return .literal literal literal.value
    | _ => return .name (← expect tokens .identifier)

end

/-! ## Statements -/

def round (stmt : Walk Stmt) : Walk Stmt := do
  let start ← get
  let s ← stmt
  let reached ← get
  if reached.position = start.position then
    let _ ← next tokens
    return s
  else return s

mutual

def stmt : Nat → Walk Stmt
  | 0 => throw .outOfFuel
  | fuel + 1 => do
    let t ← peek tokens 0
    match t.kind with
    | .openBrace => block fuel
    | .letKeyword | .varKeyword =>
      let keyword ← expect tokens t.kind
      let ident ← expect tokens .identifier
      let eq ← expect tokens .eq
      let init ← expr tokens fuel
      return .decl keyword ident eq init
    | .ifKeyword =>
      let keyword ← expect tokens .ifKeyword
      let cond ← expr tokens fuel
      let yes ← stmt fuel
      otherwise fuel keyword cond yes
    | .whileKeyword =>
      let keyword ← expect tokens .whileKeyword
      let cond ← expr tokens fuel
      let body ← stmt fuel
      return .while keyword cond body
    | .forKeyword =>
      let keyword ← expect tokens .forKeyword
      let ident ← expect tokens .identifier
      let eq ← expect tokens .eq
      let lower ← expr tokens fuel
      let sep ← expect tokens .toKeyword
      let upper ← expr tokens fuel
      let body ← stmt fuel
      return .for keyword ident eq lower sep upper body
    | _ => return .expr (← expr tokens fuel)

def otherwise : Nat → Token → Expr → Stmt → Walk Stmt
  | 0, _, _, _ => throw .outOfFuel
  | fuel + 1, keyword, cond, yes => do
    let t ← peek tokens 0
    if t.kind = .elseKeyword then
      let separator ← next tokens
      let no ← stmt fuel
      return .ifElse keyword cond yes separator no
    else return .ifThen keyword cond yes

def rounds : Nat → Walk (List Stmt)
  | 0 => throw .outOfFuel
  | fuel + 1 => do
    let t ← peek tokens 0
    if t.kind = .eof ∨ t.kind = .closeBrace then return []
    else
      let s ← round tokens (stmt fuel)
      let ss ← rounds fuel
      return s :: ss

def block : Nat → Walk Stmt
  | 0 => throw .outOfFuel
  | fuel + 1 => do
    let opening ← expect tokens .openBrace
    let body ← rounds fuel
    let closing ← expect tokens .closeBrace
    return .block opening body closing

end

def unit (fuel : Nat) : Walk SourceUnit := do
  let s ← stmt tokens fuel
  let eof ← expect tokens .eof
  return ⟨s, eof⟩

end

end Cursor

/-! ## A cursor that follows a parser -/

namespace Parser

def cursor (p : Parser) : Cursor := ⟨p.position, p.diagnostics⟩

/-- What a parser of `text` keeps: its pending tokens are those from its position on. There are at
most `n` of them. -/
structure Over (text : String) (n : Nat) (p : Parser) : Prop where
  pending : p.pending = (significantTokens text).drop p.position
  stop : p.stop = Token.stopOf text
  length_le : p.pending.length ≤ n

variable {text : String} {n : Nat} {p : Parser} {t : Token} {ts : List Token} {α β : Type}

theorem peek_zero (p : Parser) : p.peek 0 = current p.stop p.pending := by
  unfold peek current
  cases p.pending <;> rfl

theorem accept_pure (p : Parser) (a : α) : p.accept (.pure a p.pending) = (a, p) := by
  simp [Parser.accept]

theorem accept_bind {r : Parsed α} {f : α → List Token → Parsed β} (hr : r.rest <:+ p.pending)
    (hf : (f r.value r.rest).rest <:+ r.rest) :
    (p.accept r).2.accept (f r.value r.rest) = p.accept (r.bind f) := by
  have hlen := hr.length_le
  have hlen' := hf.length_le
  simp only [Parser.accept, Parsed.bind, Prod.mk.injEq, Parser.mk.injEq, List.append_assoc,
    true_and, and_true]
  omega

namespace Over

theorem next (h : p.Over text n) : p.next.2.Over text n := by
  refine ⟨?_, h.stop, ?_⟩
  · simp only [Parser.next, h.pending, List.tail_drop]
  · have hlen := h.length_le
    simp only [Parser.next, List.length_tail]
    omega

theorem accept (h : p.Over text n) {r : Parsed α} (hr : r.rest <:+ p.pending) :
    (p.accept r).2.Over text n := by
  refine ⟨?_, h.stop, Nat.le_trans hr.length_le h.length_le⟩
  have hrest := List.suffix_iff_eq_drop.mp hr
  rw [h.pending, List.drop_drop] at hrest
  simpa only [Parser.accept, h.pending] using hrest

theorem within {m : Nat} (h : p.Over text n) (hm : p.pending.length ≤ m) : p.Over text m :=
  ⟨h.pending, h.stop, hm⟩

theorem take (h : p.Over text n) (hts : p.pending = t :: ts) :
    (p.accept ⟨t, ts, []⟩).2.Over text ts.length := by
  have hsuffix : ts <:+ p.pending := hts ▸ List.suffix_cons t ts
  exact (h.accept (r := ⟨t, ts, []⟩) hsuffix).within (Nat.le_refl _)

theorem length_lt (h : p.Over text n) (hts : p.pending = t :: ts) : ts.length < n := by
  have hlen := h.length_le
  rwa [hts, List.length_cons] at hlen

theorem kind_ne (h : p.Over text n) (hts : p.pending = t :: ts) : t.kind ≠ .eof := by
  have hmem : t ∈ p.pending := hts ▸ List.mem_cons_self
  rw [h.pending] at hmem
  exact Token.tokens_kind_ne (List.mem_of_mem_filter (List.mem_of_mem_drop hmem))

end Over

end Parser

namespace Cursor

variable {text : String} {n : Nat} {p : Parser} {t : Token} {ts : List Token} {α β : Type}

theorem length_tokensOf (text : String) :
    (tokensOf text).length = (significantTokens text).length + 1 := by
  simp [tokensOf]

theorem index_lt (text : String) (c : Cursor) (i : Nat) :
    c.index (tokensOf text) i < (tokensOf text).length := by
  have hlen := length_tokensOf text
  unfold index
  omega

theorem getElem?_index (h : p.Over text n) (i : Nat) :
    (tokensOf text)[p.cursor.index (tokensOf text) i]? = some (p.peek i) := by
  have hlen := length_tokensOf text
  unfold index Parser.peek
  rw [h.pending, h.stop, List.getD_eq_getElem?_getD, List.getElem?_drop]
  by_cases hi : p.position + i < (significantTokens text).length
  · have hmin : min (p.position + i) ((tokensOf text).length - 1) = p.position + i := by omega
    rw [Parser.cursor, hmin, tokensOf, List.getElem?_append_left hi]
    simp [hi]
  · have hmin : min (p.position + i) ((tokensOf text).length - 1) =
        (significantTokens text).length := by omega
    rw [Parser.cursor, hmin, tokensOf, List.getElem?_concat_length]
    simp [hi]

theorem peek_eq (h : p.Over text n) (i : Nat) :
    peek (tokensOf text) i p.cursor = .ok (p.peek i) p.cursor := by
  have hget : (get : Walk Cursor) p.cursor = .ok p.cursor p.cursor := rfl
  unfold peek
  rw [bind_of_ok hget]
  simp only [getElem?_index h]
  rfl

theorem next_eq (h : p.Over text n) :
    next (tokensOf text) p.cursor = .ok p.next.1 p.next.2.cursor := by
  unfold next
  rw [bind_of_ok (peek_eq h 0)]
  rfl

theorem expect_eq (h : p.Over text n) (kind : Kind) :
    expect (tokensOf text) kind p.cursor = .ok (p.expect kind).1 (p.expect kind).2.cursor := by
  unfold expect Parser.expect
  rw [bind_of_ok (peek_eq h 0)]
  by_cases hk : (p.peek 0).kind = kind
  · simp only [if_pos hk]
    exact next_eq h
  · simp only [if_neg hk]
    rfl

/-! ## Walks that read a phrase -/

structure Reads (w : Walk α) (p : Parser) (r : Parsed α) : Prop where
  suffix : r.rest <:+ p.pending
  run : w p.cursor = .ok r.value (p.accept r).2.cursor

namespace Reads

theorem pure (a : α) (p : Parser) : Reads (Pure.pure a) p (.pure a p.pending) := by
  refine ⟨List.suffix_refl _, ?_⟩
  rw [Parser.accept_pure]
  rfl

theorem bind {w : Walk α} {g : α → Walk β} {r : Parsed α} {f : α → List Token → Parsed β}
    (h : Reads w p r) (h' : Reads (g r.value) (p.accept r).2 (f r.value r.rest)) :
    Reads (w >>= g) p (r.bind f) := by
  refine ⟨h'.suffix.trans h.suffix, ?_⟩
  rw [bind_of_ok h.run, h'.run, Parser.accept_bind h.suffix h'.suffix]
  rfl

theorem peek {g : Token → Walk β} {r : Parsed β} (hp : p.Over text n) (i : Nat)
    (h : Reads (g (p.peek i)) p r) : Reads (Cursor.peek (tokensOf text) i >>= g) p r :=
  ⟨h.suffix, (bind_of_ok (peek_eq hp i)).trans h.run⟩

theorem expect (hp : p.Over text n) (kind : Kind) (hkind : kind ≠ .eof) :
    Reads (Cursor.expect (tokensOf text) kind) p (Syntax.expect p.stop kind p.pending) := by
  refine ⟨expect_suffix _ _ _, ?_⟩
  rw [expect_eq hp, Parser.expect, Parser.peek_zero]
  cases hts : p.pending with
  | nil =>
    have hne : (current p.stop []).kind ≠ kind := hkind.symm
    rw [expect_of_ne hne, if_neg hne]
    simp [Parser.accept, Parser.cursor, hts]
  | cons t ts =>
    rw [current_cons]
    by_cases h : t.kind = kind
    · rw [expect_of_kind h, if_pos h]
      simp [Parser.next, Parser.peek, Parser.accept, Parser.cursor, hts]
    · have hne : (current p.stop (t :: ts)).kind ≠ kind := h
      rw [expect_of_ne hne, if_neg h]
      simp [Parser.accept, Parser.cursor, hts]

theorem next (hp : p.Over text n) (hts : p.pending = t :: ts) :
    Reads (Cursor.next (tokensOf text)) p ⟨t, ts, []⟩ := by
  refine ⟨hts ▸ List.suffix_cons t ts, ?_⟩
  rw [next_eq hp]
  simp [Parser.next, Parser.peek, Parser.accept, Parser.cursor, hts]

theorem expect_of_kind (hp : p.Over text n) (hts : p.pending = t :: ts) {kind : Kind}
    (hk : t.kind = kind) (hkind : kind ≠ .eof) :
    Reads (Cursor.expect (tokensOf text) kind) p ⟨t, ts, []⟩ := by
  have hexpect := Reads.expect hp kind hkind
  rwa [hts, Syntax.expect_of_kind hk] at hexpect

/-- A phrase that starts with a token of the text is read after that token. -/
theorem following {w : Walk α} {g : α → Walk β} {a : α} {r : Parsed β} (h : Reads w p ⟨a, ts, []⟩)
    (h' : Reads (g a) (p.accept ⟨a, ts, []⟩).2 r) : Reads (w >>= g) p r :=
  h.bind (f := fun _ _ => r) h'

end Reads

end Cursor

end Scriptlet.Syntax
