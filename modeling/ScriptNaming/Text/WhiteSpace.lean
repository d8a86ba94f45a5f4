import ScriptNaming.Text.CharClass

/-!
# White space

The Unicode property `White_Space`, and the text that is left when white space is cut off at
both ends.
-/

namespace ScriptNaming.Text

/-- The code points with the property `White_Space`. -/
def whiteSpaceRanges : List CharRange :=
  [⟨0x0009, 0x000d, 1⟩, ⟨0x0020, 0x0020, 1⟩, ⟨0x0085, 0x0085, 1⟩, ⟨0x00a0, 0x00a0, 1⟩,
   ⟨0x1680, 0x1680, 1⟩, ⟨0x2000, 0x200a, 1⟩, ⟨0x2028, 0x2029, 1⟩, ⟨0x202f, 0x202f, 1⟩,
   ⟨0x205f, 0x205f, 1⟩, ⟨0x3000, 0x3000, 1⟩]

/-- Whether a character has the property `White_Space`. -/
def isWhiteSpace (c : Char) : Bool :=
  inClass whiteSpaceRanges c

/-- The text `s` without the white space at its two ends. -/
def trim (s : String) : String :=
  .ofList ((s.toList.dropWhile isWhiteSpace).reverse.dropWhile isWhiteSpace).reverse

/-- Whether the text `s` holds nothing but white space. -/
def isBlank (s : String) : Bool :=
  s.toList.all isWhiteSpace

end ScriptNaming.Text
