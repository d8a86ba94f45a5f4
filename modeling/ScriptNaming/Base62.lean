/-!
# Base-62 numerals

Generated names end in a numeral written with the digits `0`–`9`, `A`–`Z`, `a`–`z`, most
significant digit first and without leading zeros (`Base62.encode`).
-/

namespace ScriptNaming.Base62

/-- The digit with the given value: `0`–`9`, then `A`–`Z`, then `a`–`z`. -/
def digit (value : Nat) : Char :=
  if value < 10 then .ofNat (48 + value)
  else if value < 36 then .ofNat (55 + value)
  else .ofNat (61 + value)

/-- The digits of `n`, most significant first. -/
def digits (n : Nat) : List Char :=
  if n < 62 then [digit n] else digits (n / 62) ++ [digit (n % 62)]
termination_by n
decreasing_by omega

/-- The base-62 numeral of `n`. -/
def encode (n : Nat) : String :=
  .ofList (digits n)

theorem digits_of_lt {n : Nat} (h : n < 62) : digits n = [digit n] := by
  rw [digits, if_pos h]

theorem digits_of_le {n : Nat} (h : 62 ≤ n) :
    digits n = digits (n / 62) ++ [digit (n % 62)] := by
  rw [digits, if_neg (by omega)]

theorem toList_encode (n : Nat) : (encode n).toList = digits n := by
  simp [encode]

end ScriptNaming.Base62
