import Scriptlet.Text.CodePoints

/-!
# White space

The characters with the Unicode property `White_Space`, which separate tokens and make a line blank.
-/

namespace Scriptlet.Text

def whitespaceRanges : List (Nat × Nat) :=
  [(0x9, 0xD), (0x20, 0x20), (0x85, 0x85), (0xA0, 0xA0), (0x1680, 0x1680), (0x2000, 0x200A),
    (0x2028, 0x2029), (0x202F, 0x202F), (0x205F, 0x205F), (0x3000, 0x3000)]

def isWhitespace (c : Char) : Bool := inRanges c.toNat whitespaceRanges

def trim (cs : List Char) : List Char :=
  ((cs.dropWhile isWhitespace).reverse.dropWhile isWhitespace).reverse

def isBlank (cs : List Char) : Bool := cs.all isWhitespace

end Scriptlet.Text
