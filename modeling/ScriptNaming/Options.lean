import ScriptNaming.Json.Reader
import ScriptNaming.Text.Lowercase
import ScriptNaming.Text.WhiteSpace

/-!
# Options

The options of a resolution, and the text that states them: a JSON record with the one field
`minimizeNames`, a truth value that may also be spelled out in a string. A string that spells no
truth value is reported where it stands, before anything that follows it in the text is looked at;
`Options.ofText` therefore reads the record step by step.
-/

namespace ScriptNaming

/-- The options of a resolution. -/
structure Options where
  /-- Whether entities that other assemblies cannot see get short generated names. -/
  minimizeNames : Bool := false
  deriving DecidableEq, Repr, Inhabited

/-- Why a text does not state options. -/
inductive OptionsError where
  /-- The text is not that of a record of options. -/
  | malformed
  /-- A string stands for a truth value and spells none. -/
  | notABoolean (text : String)
  deriving DecidableEq, Repr

/-- The wording of an error. -/
def OptionsError.message : OptionsError → String
  | .malformed => "failed to parse resolver options"
  | .notABoolean text =>
    "failed to parse resolver options: invalid boolean value: '" ++ text ++
      "'. Expected true, false, 'true', or 'false'"

namespace Options

/-- The strings that spell `true`. -/
def affirmations : List String := ["true", "1", "yes", "on"]

/-- The strings that spell `false`. -/
def negations : List String := ["false", "0", "no", "off"]

/-- The truth value that `text` spells, in capital or small letters and with white space around
it. -/
def spelledBool? (text : String) : Option Bool :=
  let word := String.ofList (Text.lowercaseAll (Text.trim text).toList)
  if affirmations.contains word then some true
  else if negations.contains word then some false
  else none

/-- Reads a truth value or a string that spells one. -/
def readBool : Json → Except OptionsError Bool
  | .bool value => .ok value
  | .str text =>
    match spelledBool? text with
    | some value => .ok value
    | none => .error (.notABoolean text)
  | _ => .error .malformed

/-- Takes what a reader found, or gives the text up as malformed. -/
def orMalformed {α : Type} : Option α → Except OptionsError α
  | some a => .ok a
  | none => .error .malformed

/-- Reads the members of an object up to its closing brace. `found` is the value read so far, and
`bound` the number of steps that a value may take. -/
def readMembers (bound : Nat) : (steps : Nat) → (found : Option Bool) → List Char →
    Except OptionsError (Option Bool × List Char)
  | 0, _, _ => .error .malformed
  | steps + 1, found, cs =>
    match Json.skipBlanks cs with
    | '"' :: rest => do
      let (name, rest) ← orMalformed (Json.readString? [] true rest)
      let name ← orMalformed name
      match Json.skipBlanks rest with
      | ':' :: rest =>
        if name = "minimizeNames" ∧ found.isSome then throw .malformed
        let (value, rest) ← orMalformed (Json.readValueWithin? bound rest)
        let found ← if name = "minimizeNames" then some <$> readBool value else pure found
        match Json.skipBlanks rest with
        | ',' :: rest => readMembers bound steps found rest
        | '}' :: rest => return (found, rest)
        | _ => throw .malformed
      | _ => throw .malformed
    | _ => .error .malformed

/-- Reads a record of options at the head of `cs`: an object, or an array with the value of the
field. -/
def readRecord (cs : List Char) : Except OptionsError (Option Bool × List Char) :=
  let bound := Json.stepBound cs
  match Json.skipBlanks cs with
  | '{' :: rest =>
    match Json.skipBlanks rest with
    | '}' :: rest => .ok (none, rest)
    | rest => readMembers bound bound none rest
  | '[' :: rest =>
    match Json.skipBlanks rest with
    | ']' :: rest => .ok (none, rest)
    | rest => do
      let (value, rest) ← orMalformed (Json.readValueWithin? bound rest)
      let value ← readBool value
      match Json.skipBlanks rest with
      | ']' :: rest => return (some value, rest)
      | _ => throw .malformed
  | _ => .error .malformed

/-- The options that `text` states. -/
def ofText (text : String) : Except OptionsError Options := do
  let (found, rest) ← readRecord text.toList
  if (Json.skipBlanks rest).isEmpty then return { minimizeNames := found.getD false }
  else throw .malformed

end Options

end ScriptNaming
