import Mathlib
import Scriptlet.Proofs.Text.Lines
import Scriptlet.Proofs.Token.Munch
import Scriptlet.Typed.Operator

/-!
# Labels

The labels of drawn trees are words with single blanks between them, so they can be taken apart
again. The words for kinds, types and values stand for one thing each.
-/

namespace Scriptlet

open Text (OneLine isWhitespace)

/-! ## Words -/

def IsWord (s : String) : Prop := s.toList.any isWhitespace = false

instance (s : String) : Decidable (IsWord s) := inferInstanceAs (Decidable (_ = false))

theorem isWord_iff {s : String} : IsWord s ↔ ∀ c ∈ s.toList, isWhitespace c = false := by
  simp [IsWord]

theorem IsWord.not_mem {s : String} (h : IsWord s) {c : Char} (hc : isWhitespace c = true) :
    c ∉ s.toList := by
  intro hmem
  rw [isWord_iff.mp h c hmem] at hc
  cases hc

theorem IsWord.append {s t : String} (hs : IsWord s) (ht : IsWord t) : IsWord (s ++ t) := by
  unfold IsWord at *
  rw [String.toList_append, List.any_append, hs, ht, Bool.or_false]

def spaced (words : List String) : String := " ".intercalate words

theorem spaced_singleton (w : String) : spaced [w] = w := by simp [spaced]

theorem spaced_cons_cons (w w' : String) (ws : List String) :
    spaced (w :: w' :: ws) = w ++ " " ++ spaced (w' :: ws) := by
  simp [spaced]

theorem splitOn_spaced {ws : List String} (h : ∀ w ∈ ws, IsWord w) (hne : ws ≠ []) :
    (spaced ws).toList.splitOn ' ' = ws.map String.toList := by
  have hblank : isWhitespace ' ' = true := by decide
  rw [spaced, String.toList_intercalate]
  refine List.splitOn_intercalate ' ' ?_ (by simpa using hne)
  intro l hl
  obtain ⟨w, hw, rfl⟩ := List.mem_map.mp hl
  exact (h w hw).not_mem hblank

theorem words_of_spaced {ws ws' : List String} (h : ∀ w ∈ ws, IsWord w) (hne : ws ≠ [])
    (h' : ∀ w ∈ ws', IsWord w) (hne' : ws' ≠ []) (heq : spaced ws = spaced ws') : ws = ws' := by
  have hchars : ws.map String.toList = ws'.map String.toList := by
    rw [← splitOn_spaced h hne, ← splitOn_spaced h' hne', heq]
  exact (List.map_inj_right fun _ _ => String.toList_inj.mp).mp hchars

theorem oneLine_spaced : ∀ {ws : List String}, (∀ w ∈ ws, IsWord w) → OneLine (spaced ws)
  | [], _ => by decide
  | [w], h => by
    rw [spaced_singleton]
    exact (h w List.mem_cons_self).not_mem (by decide)
  | w :: w' :: ws, h => by
    obtain ⟨hw, hws⟩ := List.forall_mem_cons.mp h
    rw [spaced_cons_cons]
    exact .append (.append (hw.not_mem (by decide)) (by decide)) (oneLine_spaced hws)

/-! ## Names and values -/

theorem Token.Kind.isWord_name (kind : Kind) : IsWord kind.name := by
  cases kind <;> decide

theorem Token.Kind.ofName?_name (kind : Kind) : ofName? kind.name = some kind := by
  cases kind <;> decide

theorem Token.Kind.name_inj {kind kind' : Kind} (h : kind.name = kind'.name) : kind = kind' := by
  have hsome := ofName?_name kind
  rw [h, ofName?_name kind'] at hsome
  exact (Option.some.inj hsome).symm

theorem Ty.isWord_name (type : Ty) : IsWord type.name := by cases type <;> decide

theorem Ty.name_inj {type type' : Ty} (h : type.name = type'.name) : type = type' := by
  revert h
  cases type <;> cases type' <;> decide

theorem numeral_chars (i : Int) : ∀ c ∈ i.repr.toList, c.isDigit = true ∨ c = '-' := by
  have hdigits (n : Nat) : ∀ c ∈ n.repr.toList, c.isDigit = true ∨ c = '-' := by
    intro c hc
    rw [Nat.toList_repr] at hc
    exact .inl (Nat.isDigit_of_mem_toDigits (by decide) (by decide) hc)
  cases i with
  | ofNat n => exact hdigits n
  | negSucc n =>
    have hminus : (Int.negSucc n).repr = "-" ++ (n + 1).repr := rfl
    rw [hminus, String.toList_append, List.forall_mem_append]
    exact ⟨List.forall_mem_singleton.mpr (.inr rfl), hdigits (n + 1)⟩

namespace Value

theorem isWord_text (v : Value) : IsWord v.text := by
  cases v with
  | int n =>
    refine isWord_iff.mpr fun c hc => ?_
    rcases numeral_chars n.toInt c hc with hdigit | rfl
    · exact Text.isWhitespace_of_isDigit hdigit
    · decide
  | bool b => cases b <;> decide

theorem text_int_ne (n : Int32) (b : Bool) : (Value.int n).text ≠ (Value.bool b).text := by
  intro h
  have hletter : 'e' ∈ (Value.bool b).text.toList := by cases b <;> decide
  rw [← h] at hletter
  exact absurd (numeral_chars n.toInt 'e' hletter) (by decide)

theorem text_inj {v v' : Value} (h : v.text = v'.text) : v = v' := by
  cases v with
  | int n =>
    cases v' with
    | int n' =>
      have hn : n.toInt = n'.toInt := Int.repr_inj.mp h
      rw [Int32.toInt_inj.mp hn]
    | bool b => exact absurd h (text_int_ne n b)
  | bool b =>
    cases v' with
    | int n => exact absurd h.symm (text_int_ne n b)
    | bool b' =>
      revert h
      cases b <;> cases b' <;> decide

end Value

end Scriptlet
