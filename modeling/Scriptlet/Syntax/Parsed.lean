import Scriptlet.Diagnostic.Basic
import Scriptlet.Syntax.Basic

/-!
# Reading tokens

Phrases are read from the front of a list of tokens. Reading never fails: what is missing is
reported and replaced by a placeholder. It leaves an end piece of the list, which is why the
grammar's functions come to an end.
-/

namespace Scriptlet.Syntax

open Token (Kind)

structure Parsed (α : Type) where
  value : α
  rest : List Token
  reports : List Diagnostic
  deriving Repr

namespace Parsed

variable {α β γ : Type}

def pure (a : α) (ts : List Token) : Parsed α := ⟨a, ts, []⟩

def bind (r : Parsed α) (f : α → List Token → Parsed β) : Parsed β :=
  let next := f r.value r.rest
  ⟨next.value, next.rest, r.reports ++ next.reports⟩

def map (f : α → β) (r : Parsed α) : Parsed β := ⟨f r.value, r.rest, r.reports⟩

@[simp] theorem pure_value (a : α) (ts : List Token) : (pure a ts).value = a := rfl

@[simp] theorem pure_rest (a : α) (ts : List Token) : (pure a ts).rest = ts := rfl

@[simp] theorem pure_reports (a : α) (ts : List Token) : (pure a ts).reports = [] := rfl

@[simp] theorem map_value (f : α → β) (r : Parsed α) : (r.map f).value = f r.value := rfl

@[simp] theorem map_rest (f : α → β) (r : Parsed α) : (r.map f).rest = r.rest := rfl

@[simp] theorem map_reports (f : α → β) (r : Parsed α) : (r.map f).reports = r.reports := rfl

@[simp] theorem bind_value (r : Parsed α) (f : α → List Token → Parsed β) :
    (r.bind f).value = (f r.value r.rest).value := rfl

@[simp] theorem bind_rest (r : Parsed α) (f : α → List Token → Parsed β) :
    (r.bind f).rest = (f r.value r.rest).rest := rfl

@[simp] theorem bind_reports (r : Parsed α) (f : α → List Token → Parsed β) :
    (r.bind f).reports = r.reports ++ (f r.value r.rest).reports := rfl

@[simp] theorem mk_bind (a : α) (ts : List Token) (f : α → List Token → Parsed β) :
    (Parsed.mk a ts []).bind f = f a ts := rfl

end Parsed

/-- What can be read from `ts`: all results that leave an end piece of it. -/
abbrev Reading (α : Type) (ts : List Token) := { r : Parsed α // r.rest <:+ ts }

namespace Reading

variable {α β : Type} {ts us : List Token}

def pure (a : α) (ts : List Token) : Reading α ts := ⟨.pure a ts, List.suffix_refl ts⟩

def bind (r : Reading α ts)
    (f : (r : Parsed α) → r.rest.length ≤ ts.length → Reading β r.rest) : Reading β ts :=
  let next := f r.val r.property.length_le
  ⟨r.val.bind fun _ _ => next.val, next.property.trans r.property⟩

def within (r : Reading α ts) (h : ts <:+ us) : Reading α us := ⟨r.val, r.property.trans h⟩

end Reading

/-- The token at hand; after the last one, the end token of a text that ends at `stop`. -/
def current (stop : Nat) (ts : List Token) : Token := ts.headD (Token.eofAt stop)

@[simp] theorem current_nil (stop : Nat) : current stop [] = .eofAt stop := rfl

@[simp] theorem current_cons (stop : Nat) (t : Token) (ts : List Token) :
    current stop (t :: ts) = t := rfl

def unexpected (t : Token) (kind : Kind) : Diagnostic :=
  ⟨t.span, .unexpectedToken t.kind.name kind.name⟩

/-- Reads a token of the given kind, or puts a placeholder before the token at hand. -/
def expect (stop : Nat) (kind : Kind) (ts : List Token) : Parsed Token :=
  let t := current stop ts
  if t.kind = kind then ⟨t, ts.tail, []⟩
  else ⟨.missing kind t.span.pos, ts, [unexpected t kind]⟩

theorem expect_of_kind {stop : Nat} {kind : Kind} {t : Token} (h : t.kind = kind)
    (ts : List Token) : expect stop kind (t :: ts) = ⟨t, ts, []⟩ := if_pos h

theorem expect_of_ne {stop : Nat} {kind : Kind} {ts : List Token}
    (h : (current stop ts).kind ≠ kind) :
    expect stop kind ts = ⟨.missing kind (current stop ts).span.pos, ts,
      [unexpected (current stop ts) kind]⟩ := if_neg h

theorem expect_suffix (stop : Nat) (kind : Kind) (ts : List Token) :
    (expect stop kind ts).rest <:+ ts := by
  simp only [expect]
  split
  · exact List.tail_suffix ts
  · exact List.suffix_refl ts

def Reading.expect (stop : Nat) (kind : Kind) (ts : List Token) : Reading Token ts :=
  ⟨Syntax.expect stop kind ts, expect_suffix stop kind ts⟩

end Scriptlet.Syntax
