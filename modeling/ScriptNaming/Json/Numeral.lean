import ScriptNaming.Json.Value

/-!
# Numerals

A `Json.Numeral` is a number as a text spells it, and `Json.Numeral.value` is the value that it
has.

Except for whole numbers of at most 64 bits, numbers are meant to be held in double precision, and
a numeral that is too great for that denotes nothing. How great it is, is found by three roundings
(`Json.exceedsDouble`):

* Of its digits, as many are taken as make a number of 64 bits. Those left over before the point
  only raise the exponent, and those left over after it are dropped
  (`Json.Numeral.significandAndScale`).
* The number so taken and the power of ten are each rounded to 53 significant bits.
* The product of the two is too great when the nearest number of 53 significant bits has more than
  1024 bits.
-/

namespace ScriptNaming.Json

/-! ## Double precision -/

/-- The number with 53 significant bits nearest to `n`; of two equally near ones the even one. -/
def roundToDouble (n : Nat) : Nat :=
  let unit := 1 <<< (n.log2 + 1 - 53)
  let count := n / unit
  let rest := n % unit
  if unit < 2 * rest ∨ (2 * rest = unit ∧ count % 2 = 1) then (count + 1) * unit else count * unit

/-- The least number that is not rounded to a number of 1024 bits: it lies in the middle between
`2 ^ 1024` and the greatest number below with 53 significant bits. -/
def doubleBound : Nat := 1 <<< 1024 - 1 <<< 970

/-- Whether `significand * 10 ^ exponent`, worked out in double precision, is too great for it. No
power of ten beyond the 308th fits by itself, and dividing by one never leads beyond the bound. -/
def exceedsDouble (significand : Nat) (exponent : Int) : Bool :=
  if significand = 0 ∨ exponent < 0 then false
  else if 308 < exponent then true
  else decide (doubleBound ≤ roundToDouble significand * roundToDouble (Nat.pow 10 exponent.toNat))

/-! ## Digits -/

/-- The value of a decimal digit. -/
def digitValue (c : Char) : Nat := c.toNat - 48

/-- The number written by the decimal digits `digits`. -/
def decimalValue (digits : List Char) : Nat :=
  digits.foldl (fun n c => n * 10 + digitValue c) 0

/-- Writes digits behind `n` as long as it has no more than 64 bits. Returns the number and the
digits left over. -/
def absorbDigits (n : Nat) : List Char → Nat × List Char
  | [] => (n, [])
  | c :: rest =>
    if n * 10 + digitValue c < UInt64.size then absorbDigits (n * 10 + digitValue c) rest
    else (n, c :: rest)

/-! ## Numerals -/

/-- The parts of a number as it is written. -/
structure Numeral where
  negative : Bool
  /-- The digits before the point. -/
  whole : List Char
  /-- The digits after the point; none without a point. -/
  fractional : List Char
  /-- The letter, the sign and the digits of the exponent, where there is one. -/
  exponent : Option (Char × List Char × List Char)

namespace Numeral

/-- The exponent as it is written; zero without one. -/
def statedExponent (n : Numeral) : Int :=
  match n.exponent with
  | some (_, ['-'], digits) => -(decimalValue digits : Int)
  | some (_, _, digits) => decimalValue digits
  | none => 0

/-- The number of at most 64 bits that the digits begin with, and the exponent that belongs to
it. -/
def significandAndScale (n : Numeral) : Nat × Int :=
  let (significand, wholeRest) := absorbDigits 0 n.whole
  let (significand, fractionalRest) := absorbDigits significand n.fractional
  (significand,
    n.statedExponent + wholeRest.length - (n.fractional.length - fractionalRest.length : Nat))

/-- Whether the number is too great for double precision. -/
def isTooGreat (n : Numeral) : Bool :=
  let (significand, scale) := n.significandAndScale
  exceedsDouble significand scale

/-- The number as it is written. -/
def text (n : Numeral) : String :=
  .ofList ((if n.negative then ['-'] else []) ++ n.whole ++
    (if n.fractional.isEmpty then [] else '.' :: n.fractional) ++
    n.exponent.elim [] fun (letter, sign, digits) => letter :: (sign ++ digits))

/-- The value of the number: it is a whole number without point and exponent, unless it is minus
zero, and it is unreadable when it is too great. -/
def value (n : Numeral) : Json :=
  if n.isTooGreat then .unreadable
  else if n.fractional.isEmpty ∧ n.exponent.isNone ∧
      ¬(n.negative ∧ decimalValue n.whole = 0) then
    .int (if n.negative then -(decimalValue n.whole : Int) else decimalValue n.whole)
  else .fraction n.text

end Numeral

end ScriptNaming.Json
