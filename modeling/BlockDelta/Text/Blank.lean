/-!
# Blank characters

The characters with the Unicode property `White_Space`, and text without the
blanks at its two ends.
-/

namespace BlockDelta.Text

/-- The ranges of the property `White_Space`, by code point. -/
def blankRanges : List (Nat × Nat) :=
  [(0x09, 0x0d), (0x20, 0x20), (0x85, 0x85), (0xa0, 0xa0), (0x1680, 0x1680), (0x2000, 0x200a),
    (0x2028, 0x2029), (0x202f, 0x202f), (0x205f, 0x205f), (0x3000, 0x3000)]

/-- The character has the property `White_Space`. -/
def isBlank (character : Char) : Bool :=
  blankRanges.any fun (first, last) => first ≤ character.toNat && character.toNat ≤ last

/-- Text without the blanks before its first and after its last other character. -/
def trimBlanks (text : String) : String :=
  String.ofList (((text.toList.dropWhile isBlank).reverse.dropWhile isBlank).reverse)

/-- Text with the letters A to Z in their small form; other characters stay. -/
def lowercase (text : String) : String :=
  String.ofList (text.toList.map Char.toLower)

end BlockDelta.Text
