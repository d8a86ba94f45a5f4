import ScriptNaming.Text.Lowercase
import ScriptNaming.Text.Uppercase

/-!
# Camel case

The conventional script spelling of a source identifier (`camelCase`).

* `ID` becomes `id`.
* A text that does not begin with a capital, or that has several characters and nothing but
  capitals, stays as it is.
* Of a leading run of several capitals all but the last become small: `HTMLText` becomes
  `htmlText`.
* Otherwise only the first character becomes small.
-/

namespace ScriptNaming

/-- How many of the leading characters become small, where the leading run of capitals has the
length `capitals` and the whole text has the length `length`. -/
def camelCaseCount (capitals length : Nat) : Nat :=
  if capitals = length ∧ length ≠ 1 then 0
  else if 1 < capitals then capitals - 1
  else capitals

/-- The camel-case spelling of `cs`. -/
def camelCaseChars (cs : List Char) : List Char :=
  if cs = ['I', 'D'] then ['i', 'd']
  else
    let count := camelCaseCount (cs.takeWhile Text.isUppercase).length cs.length
    Text.lowercaseAll (cs.take count) ++ cs.drop count

/-- The camel-case spelling of the identifier `s`. -/
def camelCase (s : String) : String :=
  .ofList (camelCaseChars s.toList)

theorem camelCaseCount_le (capitals length : Nat) : camelCaseCount capitals length ≤ capitals := by
  unfold camelCaseCount
  split
  · omega
  · split <;> omega

end ScriptNaming
