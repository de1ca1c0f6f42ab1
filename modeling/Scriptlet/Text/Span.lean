import Scriptlet.Text.Utf8

/-!
# Spans

A stretch of source text, as a byte offset and a length in bytes. Lengths are 32-bit words: a
longer stretch keeps its length modulo `lengthBound`.
-/

namespace Scriptlet

structure Span where
  pos : Nat
  len : Nat
  deriving DecidableEq, Repr, Inhabited

namespace Span

def lengthBound : Nat := 4294967296

def stop (s : Span) : Nat := s.pos + s.len

def isEmpty (s : Span) : Bool := s.len == 0

def empty (pos : Nat) : Span := ⟨pos, 0⟩

/-- The span from `pos` up to `stop`, for `pos ≤ stop`. -/
def between (pos stop : Nat) : Span := ⟨pos, (stop - pos) % lengthBound⟩

def ofBounds? (pos stop : Nat) : Option Span :=
  if pos ≤ stop then some (between pos stop) else none

def cover (s t : Span) : Span := between (min s.pos t.pos) (max s.stop t.stop)

def slice? (s : Span) (text : String) : Option String :=
  (Text.slice? s.pos s.stop text.toList).map String.ofList

def bounds (s : Span) : String := s!"{s.pos}..{s.stop}"

theorem stop_between {pos stop : Nat} (h : pos ≤ stop) (hlen : stop - pos < lengthBound) :
    (between pos stop).stop = stop := by
  simp only [between, Span.stop, Nat.mod_eq_of_lt hlen]
  omega

@[simp] theorem pos_between (pos stop : Nat) : (between pos stop).pos = pos := rfl

@[simp] theorem stop_empty (pos : Nat) : (empty pos).stop = pos := rfl

end Span

end Scriptlet
