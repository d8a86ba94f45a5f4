import ScriptNaming.Json.Numeral

/-!
# Reading JSON texts

`Json.ofText?` reads a whole text, and `Json.readValue?` the value that a text begins with. The
grammar is the strict one: no comments, no trailing commas, no leading zeros, no raw control
characters in strings, and nothing but blanks after the value.

The readers recurse on a bound for the number of steps, which follows from the length of the text
(`Json.stepBound`): every two steps use up a character.
-/

namespace ScriptNaming.Json

/-- Passes over the blanks of the JSON grammar. -/
def skipBlanks : List Char → List Char
  | [] => []
  | c :: rest =>
    if c = ' ' ∨ c = '\n' ∨ c = '\t' ∨ c = '\r' then skipBlanks rest else c :: rest

/-- The value of a hexadecimal digit. -/
def hexDigit? (c : Char) : Option Nat :=
  if '0' ≤ c ∧ c ≤ '9' then some (c.toNat - 48)
  else if 'a' ≤ c ∧ c ≤ 'f' then some (c.toNat - 87)
  else if 'A' ≤ c ∧ c ≤ 'F' then some (c.toNat - 55)
  else none

/-- The sixteen-bit unit written with the hexadecimal digits `a`, `b`, `c` and `d`. -/
def hexUnit? (a b c d : Char) : Option Nat := do
  let a ← hexDigit? a
  let b ← hexDigit? b
  let c ← hexDigit? c
  let d ← hexDigit? d
  return ((a * 16 + b) * 16 + c) * 16 + d

/-- The character that a one-letter escape stands for. -/
def shortEscape? : Char → Option Char
  | '"' => some '"'
  | '\\' => some '\\'
  | '/' => some '/'
  | 'b' => some '\x08'
  | 'f' => some '\x0c'
  | 'n' => some '\n'
  | 'r' => some '\r'
  | 't' => some '\t'
  | _ => none

/-- Reads the rest of a string after its opening quote, with the characters so far in reverse.
The string itself is `none` when an escape in it is half of a surrogate pair. -/
def readString? (acc : List Char) (readable : Bool) :
    List Char → Option (Option String × List Char)
  | [] => none
  | '"' :: rest => some (if readable then some (.ofList acc.reverse) else none, rest)
  | '\\' :: 'u' :: a :: b :: c :: d :: '\\' :: 'u' :: e :: f :: g :: h :: rest => do
    let unit ← hexUnit? a b c d
    if 0xd800 ≤ unit ∧ unit < 0xdc00 then
      match hexUnit? e f g h with
      | some low =>
        if 0xdc00 ≤ low ∧ low < 0xe000 then
          let code := 0x10000 + (unit - 0xd800) * 0x400 + (low - 0xdc00)
          readString? (.ofNat code :: acc) readable rest
        else readString? acc false ('\\' :: 'u' :: e :: f :: g :: h :: rest)
      | none => none
    else if 0xdc00 ≤ unit ∧ unit < 0xe000 then
      readString? acc false ('\\' :: 'u' :: e :: f :: g :: h :: rest)
    else readString? (.ofNat unit :: acc) readable ('\\' :: 'u' :: e :: f :: g :: h :: rest)
  | '\\' :: 'u' :: a :: b :: c :: d :: rest => do
    let unit ← hexUnit? a b c d
    if 0xd800 ≤ unit ∧ unit < 0xe000 then readString? acc false rest
    else readString? (.ofNat unit :: acc) readable rest
  | '\\' :: c :: rest => do
    let c ← shortEscape? c
    readString? (c :: acc) readable rest
  | c :: rest => if c.toNat < 0x20 then none else readString? (c :: acc) readable rest

/-- Reads the exponent that may follow the digits of `n`. -/
def readExponent? (n : Numeral) : List Char → Option (Json × List Char)
  | [] => some (n.value, [])
  | c :: rest =>
    if c = 'e' ∨ c = 'E' then
      let (sign, rest) := match rest with
        | '+' :: rest => (['+'], rest)
        | '-' :: rest => (['-'], rest)
        | rest => ([], rest)
      let digits := rest.takeWhile Char.isDigit
      if digits.isEmpty then none
      else
        some ({ n with exponent := some (c, sign, digits) }.value, rest.dropWhile Char.isDigit)
    else some (n.value, c :: rest)

/-- Reads a number after its sign, a minus if `negative`. -/
def readUnsigned? (negative : Bool) (cs : List Char) : Option (Json × List Char) :=
  let whole := cs.takeWhile Char.isDigit
  if whole.isEmpty ∨ (whole.head? = some '0' ∧ 1 < whole.length) then none
  else match cs.dropWhile Char.isDigit with
    | '.' :: rest =>
      let fractional := rest.takeWhile Char.isDigit
      if fractional.isEmpty then none
      else readExponent? ⟨negative, whole, fractional, none⟩ (rest.dropWhile Char.isDigit)
    | rest => readExponent? ⟨negative, whole, [], none⟩ rest

/-- Reads a number. -/
def readNumber? : List Char → Option (Json × List Char)
  | '-' :: rest => readUnsigned? true rest
  | cs => readUnsigned? false cs

/-- The object with the members `members`, unless a name is unreadable. -/
def ofMembers (members : List (Option String × Json)) : Json :=
  match members.mapM fun (name, value) => name.map (·, value) with
  | some members => .obj members
  | none => .unreadable

mutual

/-- Reads the value that the characters begin with. -/
def readValueWithin? : (steps : Nat) → List Char → Option (Json × List Char)
  | 0, _ => none
  | steps + 1, cs =>
    match skipBlanks cs with
    | 'n' :: 'u' :: 'l' :: 'l' :: rest => some (.null, rest)
    | 't' :: 'r' :: 'u' :: 'e' :: rest => some (.bool true, rest)
    | 'f' :: 'a' :: 'l' :: 's' :: 'e' :: rest => some (.bool false, rest)
    | '"' :: rest => do
      let (text, rest) ← readString? [] true rest
      return (text.elim .unreadable .str, rest)
    | '[' :: rest =>
      match skipBlanks rest with
      | ']' :: rest => some (.arr [], rest)
      | rest => readElementsWithin? steps [] rest
    | '{' :: rest =>
      match skipBlanks rest with
      | '}' :: rest => some (.obj [], rest)
      | rest => readMembersWithin? steps [] rest
    | rest => readNumber? rest

/-- Reads array elements up to the closing bracket, with the elements so far in reverse. -/
def readElementsWithin? : (steps : Nat) → List Json → List Char → Option (Json × List Char)
  | 0, _, _ => none
  | steps + 1, acc, cs => do
    let (value, rest) ← readValueWithin? steps cs
    match skipBlanks rest with
    | ',' :: rest => readElementsWithin? steps (value :: acc) rest
    | ']' :: rest => some (.arr (value :: acc).reverse, rest)
    | _ => none

/-- Reads object members up to the closing brace, with the members so far in reverse. -/
def readMembersWithin? : (steps : Nat) → List (Option String × Json) → List Char →
    Option (Json × List Char)
  | 0, _, _ => none
  | steps + 1, acc, cs =>
    match skipBlanks cs with
    | '"' :: rest => do
      let (name, rest) ← readString? [] true rest
      match skipBlanks rest with
      | ':' :: rest =>
        let (value, rest) ← readValueWithin? steps rest
        match skipBlanks rest with
        | ',' :: rest => readMembersWithin? steps ((name, value) :: acc) rest
        | '}' :: rest => some (ofMembers ((name, value) :: acc).reverse, rest)
        | _ => none
      | _ => none
    | _ => none

end

/-- A number of steps that is enough for every value in `cs`. -/
def stepBound (cs : List Char) : Nat := 2 * cs.length + 2

/-- Reads the value that `cs` begins with and returns what follows it. -/
def readValue? (cs : List Char) : Option (Json × List Char) :=
  readValueWithin? (stepBound cs) cs

/-- Reads `text`, which is one value with nothing but blanks around it. -/
def ofText? (text : String) : Option Json := do
  let (value, rest) ← readValue? text.toList
  if (skipBlanks rest).isEmpty then some value else none

end ScriptNaming.Json
