import ScriptNaming.Text.Alphabetic
import ScriptNaming.Text.Numeric

/-!
# Identifiers of the script language

* `isIdentifier` accepts the texts that may stand as a plain name: a start character, part
  characters after it, and not a reserved word.
* `isIdentifierPath` accepts identifiers joined by dots.
-/

namespace ScriptNaming

/-- Words that are never a plain identifier, those of strict mode among them. -/
def reservedWords : List String :=
  ["break", "case", "catch", "class", "const", "continue", "debugger", "default", "delete", "do",
   "else", "enum", "export", "extends", "false", "finally", "for", "function", "if",
   "implements", "import", "in", "instanceof", "interface", "let", "new", "null", "package",
   "private", "protected", "public", "return", "static", "super", "switch", "this", "throw",
   "true", "try", "typeof", "var", "void", "while", "with", "yield"]

/-- Whether `s` is a reserved word. -/
def isReservedWord (s : String) : Bool :=
  reservedWords.contains s

/-- Whether `c` may begin an identifier. -/
def isIdentifierStart (c : Char) : Bool :=
  c == '$' || c == '_' || Text.isAlphabetic c

/-- Whether `c` may stand in an identifier after the first place. -/
def isIdentifierPart (c : Char) : Bool :=
  c == '$' || c == '_' || Text.isAlphabetic c || Text.isNumeric c

/-- Whether characters are spelled like an identifier, reserved words included. -/
def isIdentifierSpelling : List Char → Bool
  | [] => false
  | c :: cs => isIdentifierStart c && cs.all isIdentifierPart

/-- Whether `s` is an identifier that is not reserved. -/
def isIdentifier (s : String) : Bool :=
  isIdentifierSpelling s.toList && !isReservedWord s

/-- The pieces of a text between its dots; a text without a dot is its only piece. -/
def dotSegments : List Char → List (List Char)
  | [] => [[]]
  | c :: cs =>
    if c = '.' then [] :: dotSegments cs
    else match dotSegments cs with
      | [] => [[c]]
      | piece :: pieces => (c :: piece) :: pieces

/-- Whether a text is a path of identifiers joined by dots, such as `Company.Product.Ui`. -/
def isIdentifierPath (s : String) : Bool :=
  (dotSegments s.toList).all fun piece => isIdentifier (.ofList piece)

theorem isIdentifierPart_of_start {c : Char} (h : isIdentifierStart c) : isIdentifierPart c := by
  simp only [isIdentifierStart, isIdentifierPart, Bool.or_eq_true] at h ⊢
  exact .inl h

theorem dotSegments_ne_nil (cs : List Char) : dotSegments cs ≠ [] := by
  cases cs with
  | nil => simp [dotSegments]
  | cons c cs =>
    rw [dotSegments]
    split
    · simp
    · split <;> simp

end ScriptNaming
