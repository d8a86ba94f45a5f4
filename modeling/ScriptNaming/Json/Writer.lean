import ScriptNaming.Json.Value

/-!
# Writing JSON texts

`Json.render` writes a value on one line without blanks, and `Json.pretty` writes it with one
element or member a line, indented by two spaces a level. Characters outside ASCII stand for
themselves; quotes, backslashes and control characters are escaped. A value without unreadable
parts reads back from either text; an unreadable part is written as `null`.
-/

namespace ScriptNaming.Json

/-- The hexadecimal digit, in lower case, of `n`, which is below sixteen. -/
def lowerHexDigit (n : Nat) : Char :=
  if n < 10 then .ofNat (48 + n) else .ofNat (87 + n)

/-- The character `c` as it stands in a string between the quotes. -/
def escapeChar (c : Char) : List Char :=
  match c with
  | '"' => ['\\', '"']
  | '\\' => ['\\', '\\']
  | '\x08' => ['\\', 'b']
  | '\x0c' => ['\\', 'f']
  | '\n' => ['\\', 'n']
  | '\r' => ['\\', 'r']
  | '\t' => ['\\', 't']
  | c =>
    if c.toNat < 0x20 then
      ['\\', 'u', '0', '0', lowerHexDigit (c.toNat / 16), lowerHexDigit (c.toNat % 16)]
    else [c]

/-- The text `s` in quotes. -/
def quote (s : String) : String :=
  "\"" ++ .ofList (s.toList.flatMap escapeChar) ++ "\""

/-- The texts `items` between the two brackets, on one line. -/
def bracket (opening closing : String) (items : List String) : String :=
  opening ++ ",".intercalate items ++ closing

/-- The texts `items` between the two brackets, one a line and each behind `indent`; the brackets
stand together when there is no item. -/
def bracketLines (opening closing indent : String) (items : List String) : String :=
  if items.isEmpty then opening ++ closing
  else
    let separator := ",\n" ++ indent ++ "  "
    opening ++ "\n" ++ indent ++ "  " ++ separator.intercalate items ++ "\n" ++ indent ++ closing

mutual

/-- A value on one line. -/
def render : Json → String
  | .null | .unreadable => "null"
  | .bool value => if value then "true" else "false"
  | .int value => toString value
  | .fraction text => text
  | .str value => quote value
  | .arr elements => bracket "[" "]" (renderElements elements)
  | .obj members => bracket "\x7b" "\x7d" (renderMembers members)

/-- The elements of an array, each on one line. -/
def renderElements : List Json → List String
  | [] => []
  | value :: rest => render value :: renderElements rest

/-- The members of an object, each on one line. -/
def renderMembers : List (String × Json) → List String
  | [] => []
  | (name, value) :: rest => (quote name ++ ":" ++ render value) :: renderMembers rest

end

mutual

/-- A value over several lines, where the lines after the first begin with `indent`. -/
def prettyFrom (indent : String) : Json → String
  | .null | .unreadable => "null"
  | .bool value => if value then "true" else "false"
  | .int value => toString value
  | .fraction text => text
  | .str value => quote value
  | .arr elements => bracketLines "[" "]" indent (prettyElements (indent ++ "  ") elements)
  | .obj members => bracketLines "\x7b" "\x7d" indent (prettyMembers (indent ++ "  ") members)

/-- The elements of an array, each over several lines behind `indent`. -/
def prettyElements (indent : String) : List Json → List String
  | [] => []
  | value :: rest => prettyFrom indent value :: prettyElements indent rest

/-- The members of an object, each over several lines behind `indent`. -/
def prettyMembers (indent : String) : List (String × Json) → List String
  | [] => []
  | (name, value) :: rest =>
    (quote name ++ ": " ++ prettyFrom indent value) :: prettyMembers indent rest

end

/-- A JSON `value` over several lines. -/
def pretty (value : Json) : String :=
  prettyFrom "" value

end ScriptNaming.Json
