import JavaGenerics.Text.Ranges

/-!
# White space

The characters that Unicode counts as white space: 25 code points, of which six
are ASCII. `JavaGenerics.trim` takes them off both ends of a text.
-/

namespace JavaGenerics

/-- The ranges of code points that are white space, ends included. -/
def blankRanges : List (Nat × Nat) :=
  [(0x9, 0xD), (0x20, 0x20), (0x85, 0x85), (0xA0, 0xA0), (0x1680, 0x1680), (0x2000, 0x200A),
    (0x2028, 0x2029), (0x202F, 0x202F), (0x205F, 0x205F), (0x3000, 0x3000)]

/-- Whether a character is white space. -/
def isBlank (c : Char) : Bool := inRanges blankRanges c

/-- A text without the white space at its ends. -/
def trim (s : String) : String :=
  String.ofList ((s.toList.dropWhile isBlank).reverse.dropWhile isBlank).reverse

end JavaGenerics
