import ScriptNaming.Text.WhiteSpace

/-!
# Log settings

What is logged, and in which format, as environment variables state it. Nothing is logged unless one
of the two filter variables holds more than white space.
-/

namespace ScriptNaming

/-- The formats of a log. -/
inductive LogFormat where
  | text
  | tree
  | json
  deriving DecidableEq, Repr

/-- The name of a format. -/
def LogFormat.name : LogFormat → String
  | .text => "text"
  | .tree => "tree"
  | .json => "json"

/-- The format that `text` names, in capital or small ASCII letters and with white space around it;
every other text stands for plain text. -/
def LogFormat.ofText (text : String) : LogFormat :=
  let word := String.ofList ((Text.trim text).toList.map Char.toLower)
  if word = "tree" then .tree else if word = "json" then .json else .text

/-- What is logged and how. -/
structure LogSettings where
  /-- The filter directives; `none` switches logging off. -/
  filter : Option String
  format : LogFormat
  deriving DecidableEq, Repr

namespace LogSettings

/-- The variable with the filter. -/
def filterVariable : String := "SCRIPTSEM_LOG"

/-- The variable with the filter that counts where the first one is blank. -/
def fallbackFilterVariable : String := "RUST_LOG"

/-- The variable with the format. -/
def formatVariable : String := "SCRIPTSEM_LOG_FORMAT"

/-- The settings that the variables state of which `lookup` gives the values. -/
def ofLookup (lookup : String → Option String) : LogSettings :=
  let nonBlank (name : String) : Option String := (lookup name).filter (!Text.isBlank ·)
  { filter := nonBlank filterVariable <|> nonBlank fallbackFilterVariable
    format := (lookup formatVariable).elim .text LogFormat.ofText }

/-- Whether there is anything to be logged. -/
def isEnabled (s : LogSettings) : Bool := s.filter.isSome

end LogSettings

end ScriptNaming
