/-!
# Code templates

A template is script text with holes. A hole is a placeholder name between braces: an ASCII letter
or an underscore, followed by ASCII letters and digits. `Template.placeholders` reads the names of
a template's holes, and `Template.call` writes the template of a call.

A hole holds no opening brace after its first character, so that the search for further holes may
go on right behind that brace: holes never overlap.
-/

namespace ScriptNaming.Template

/-- Whether the character `c` may begin a placeholder name. -/
def isNameStart (c : Char) : Bool := c.isAlpha || c == '_'

/-- The placeholder name that characters begin with, provided a closing brace follows it. -/
def closedName? : List Char → Option (List Char)
  | [] => none
  | c :: cs =>
    if isNameStart c && (cs.dropWhile Char.isAlphanum).head? == some '\x7d' then
      some (c :: cs.takeWhile Char.isAlphanum)
    else none

/-- The placeholder names among characters, in order of appearance. -/
def placeholderNames : List Char → List (List Char)
  | [] => []
  | c :: cs =>
    if c = '\x7b' then (closedName? cs).toList ++ placeholderNames cs else placeholderNames cs

/-- The placeholder names of `template`, in order of appearance. -/
def placeholders (template : String) : List String :=
  (placeholderNames template.toList).map String.ofList

/-- The hole for the placeholder `name`. -/
def hole (name : String) : String := "\x7b" ++ name ++ "\x7d"

/-- The call of `callee` with a hole for each parameter. -/
def call (callee : String) (parameters : List String) : String :=
  callee ++ "(" ++ ", ".intercalate (parameters.map hole) ++ ")"

/-- What replaces a template with a placeholder that stands for nothing. -/
def invalid : String := "X"

end ScriptNaming.Template
