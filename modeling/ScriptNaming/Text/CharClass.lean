/-!
# Classes of characters

A class of characters is written down as a list of strided ranges of code points, which is how
the property tables of the Unicode character database are most compactly stated. The classes in
use are `Text.isUppercase`, `Text.isAlphabetic`, `Text.isNumeric` and `Text.isWhiteSpace`, each
in the module named for its property.
-/

namespace ScriptNaming.Text

/-- The code points `first`, `first + step`, `first + 2 * step`, … that do not exceed `last`. -/
structure CharRange where
  first : Nat
  last : Nat
  step : Nat
  deriving DecidableEq, Repr

/-- Whether the character `c` lies in the range `r`. -/
def CharRange.contains (r : CharRange) (c : Char) : Bool :=
  decide (r.first ≤ c.toNat) && decide (c.toNat ≤ r.last) && (c.toNat - r.first) % r.step == 0

/-- Whether the character `c` lies in one of the `ranges` of a class. -/
def inClass (ranges : List CharRange) (c : Char) : Bool :=
  ranges.any (·.contains c)

theorem CharRange.contains_iff (r : CharRange) (c : Char) :
    r.contains c ↔ r.first ≤ c.toNat ∧ c.toNat ≤ r.last ∧ (c.toNat - r.first) % r.step = 0 := by
  simp [contains, and_assoc]

theorem inClass_iff (ranges : List CharRange) (c : Char) :
    inClass ranges c ↔ ∃ r ∈ ranges, r.contains c := by
  simp [inClass]

end ScriptNaming.Text
