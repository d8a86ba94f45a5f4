import ScriptNaming.Base62
import Mathlib.Data.List.Induction
import Mathlib.Data.List.Shortlex

/-!
# Numerals

The numeral of a number is made of the 62 digits (`Base62.alphabet`), its value by the places of the
digits is the number, and it has no zero in front of another digit. There is no other one
(`Base62.IsNumeral.eq_digits`). Of two numerals, the one for the greater number is longer, or as
long and later in the order of character codes (`Base62.shortlex_digits`).
-/

namespace ScriptNaming.Base62

/-! ## Values -/

/-- The digits in the order of their values. -/
def alphabet : List Char :=
  ['0', '1', '2', '3', '4', '5', '6', '7', '8', '9',
    'A', 'B', 'C', 'D', 'E', 'F', 'G', 'H', 'I', 'J', 'K', 'L', 'M',
    'N', 'O', 'P', 'Q', 'R', 'S', 'T', 'U', 'V', 'W', 'X', 'Y', 'Z',
    'a', 'b', 'c', 'd', 'e', 'f', 'g', 'h', 'i', 'j', 'k', 'l', 'm',
    'n', 'o', 'p', 'q', 'r', 's', 't', 'u', 'v', 'w', 'x', 'y', 'z']

/-- The value of the digit `c`: its place in the alphabet. -/
def digitValue (c : Char) : Nat := alphabet.idxOf c

/-- The value of the digits `cs`, most significant digit first. -/
def value (cs : List Char) : Nat := cs.foldl (fun n c => 62 * n + digitValue c) 0

theorem digit_mem_alphabet : ∀ v < 62, digit v ∈ alphabet := by
  decide +kernel

theorem digitValue_digit : ∀ v < 62, digitValue (digit v) = v := by
  decide +kernel

theorem digit_digitValue {c : Char} (hc : c ∈ alphabet) :
    digitValue c < 62 ∧ digit (digitValue c) = c := by
  have hall : alphabet.all fun c => digitValue c < 62 ∧ digit (digitValue c) = c := by
    decide +kernel
  exact of_decide_eq_true (List.all_eq_true.1 hall c hc)

theorem digit_lt_digit : ∀ w < 62, ∀ v < w, digit v < digit w := by
  decide +kernel

theorem value_singleton (c : Char) : value [c] = digitValue c := by
  simp [value]

theorem value_append_singleton (cs : List Char) (c : Char) :
    value (cs ++ [c]) = 62 * value cs + digitValue c := by
  simp [value]

/-! ## Numerals -/

/-- The characters of a numeral for `n`: digits whose value is `n`, at least one of them, and no
zero in front of another one. -/
structure IsNumeral (cs : List Char) (n : Nat) : Prop where
  ne_nil : cs ≠ []
  mem_alphabet : ∀ c ∈ cs, c ∈ alphabet
  value_eq : value cs = n
  eq_zero : cs.head? = some '0' → cs = ['0']

theorem isNumeral_singleton {v : Nat} (hv : v < 62) : IsNumeral [digit v] v where
  ne_nil := List.cons_ne_nil _ _
  mem_alphabet := by
    intro c hc
    obtain rfl := List.mem_singleton.1 hc
    exact digit_mem_alphabet v hv
  value_eq := (value_singleton _).trans (digitValue_digit v hv)
  eq_zero := by
    intro hhead
    rw [List.head?_cons] at hhead
    rw [Option.some.inj hhead]

/-- Behind the numeral `cs` of a number that is not zero, any digit may follow. -/
theorem IsNumeral.append_digit {cs : List Char} {n v : Nat} (h : IsNumeral cs n) (hn : 0 < n)
    (hv : v < 62) : IsNumeral (cs ++ [digit v]) (62 * n + v) where
  ne_nil := List.append_ne_nil_of_left_ne_nil h.ne_nil _
  mem_alphabet := by
    intro c hc
    rcases List.mem_append.1 hc with hc | hc
    · exact h.mem_alphabet c hc
    · obtain rfl := List.mem_singleton.1 hc
      exact digit_mem_alphabet v hv
  value_eq := by rw [value_append_singleton, h.value_eq, digitValue_digit v hv]
  eq_zero := by
    intro hhead
    rw [List.head?_append_of_ne_nil _ h.ne_nil] at hhead
    have hvalue := h.value_eq
    rw [h.eq_zero hhead, value_singleton] at hvalue
    exact absurd hvalue (Nat.ne_of_lt hn)

theorem isNumeral_digits (n : Nat) : IsNumeral (digits n) n := by
  induction n using Nat.strongRecOn with
  | ind n ih =>
    rcases Nat.lt_or_ge n 62 with hn | hn
    · rw [digits_of_lt hn]
      exact isNumeral_singleton hn
    · have hfront := ih (n / 62) (by omega)
      have hnumeral := hfront.append_digit (v := n % 62) (by omega) (Nat.mod_lt n (by decide))
      rwa [Nat.div_add_mod, ← digits_of_le hn] at hnumeral

/-- What stands before the last digit is a numeral too, and not that of zero. -/
theorem IsNumeral.front {cs : List Char} {c : Char} {n : Nat} (h : IsNumeral (cs ++ [c]) n)
    (hne : cs ≠ []) : IsNumeral cs (value cs) ∧ cs.head? ≠ some '0' := by
  have hhead : cs.head? ≠ some '0' := by
    intro hhead
    have hfirst : (cs ++ [c]).head? = cs.head? := List.head?_append_of_ne_nil cs hne
    have hlength := congrArg List.length (h.eq_zero (hfirst.trans hhead))
    rw [List.length_append, List.length_singleton, List.length_singleton] at hlength
    exact hne (List.length_eq_zero_iff.1 (by omega))
  refine ⟨?_, hhead⟩
  exact {
    ne_nil := hne
    mem_alphabet := fun d hd => h.mem_alphabet d (List.mem_append_left _ hd)
    value_eq := rfl
    eq_zero := fun hzero => absurd hzero hhead }

/-- A number has one numeral only. -/
theorem IsNumeral.eq_digits {cs : List Char} {n : Nat} (h : IsNumeral cs n) : cs = digits n := by
  induction cs using List.reverseRecOn generalizing n with
  | nil => exact absurd rfl h.ne_nil
  | append_singleton cs c ih =>
    obtain ⟨hlt, hdigit⟩ := digit_digitValue (h.mem_alphabet c (by simp))
    have hvalue := h.value_eq
    rw [value_append_singleton] at hvalue
    rcases eq_or_ne cs [] with rfl | hne
    · obtain rfl : digitValue c = n := by simpa [value] using hvalue
      rw [digits_of_lt hlt, hdigit, List.nil_append]
    · obtain ⟨hfront, hhead⟩ := h.front hne
      have hdigits : cs = digits (value cs) := ih hfront
      have hpos : value cs ≠ 0 := by
        intro hzero
        rw [hzero, digits_of_lt (by decide)] at hdigits
        exact hhead (by rw [hdigits]; rfl)
      have hquotient : n / 62 = value cs := by omega
      have hremainder : n % 62 = digitValue c := by omega
      rw [digits_of_le (by omega), hquotient, hremainder, hdigit, ← hdigits]

theorem isNumeral_iff {cs : List Char} {n : Nat} : IsNumeral cs n ↔ cs = digits n :=
  ⟨IsNumeral.eq_digits, fun h => h ▸ isNumeral_digits n⟩

theorem digits_ne_nil (n : Nat) : digits n ≠ [] := (isNumeral_digits n).ne_nil

theorem digits_injective {m n : Nat} (h : digits m = digits n) : m = n := by
  rw [← (isNumeral_digits m).value_eq, ← (isNumeral_digits n).value_eq, h]

theorem encode_injective {m n : Nat} (h : encode m = encode n) : m = n :=
  digits_injective (by rw [← toList_encode, ← toList_encode, h])

/-! ## Order -/

/-- Where two texts `s` and `t` of one length differ, it does not matter what follows them. -/
theorem shortlex_append {s t u w : List Char} (h : List.Lex (· < ·) s t)
    (hlength : s.length = t.length) (huw : u.length = w.length) :
    List.Shortlex (· < ·) (s ++ u) (t ++ w) := by
  refine .of_lex (by rw [List.length_append, List.length_append, hlength, huw]) ?_
  induction h with
  | nil => cases hlength
  | cons _ ih => exact .cons (ih (Nat.succ.inj hlength))
  | rel h => exact .rel h

theorem shortlex_digits {m n : Nat} (h : m < n) :
    List.Shortlex (· < ·) (digits m) (digits n) := by
  induction n using Nat.strongRecOn generalizing m with
  | ind n ih =>
    rcases Nat.lt_or_ge n 62 with hn | hn
    · rw [digits_of_lt hn, digits_of_lt (Nat.lt_trans h hn)]
      exact (List.shortlex_singleton_iff _ _).2 (digit_lt_digit n hn m h)
    rcases Nat.lt_or_ge m 62 with hm | hm
    · -- A single digit is shorter than anything else.
      have hpos := List.length_pos_iff.2 (digits_ne_nil (n / 62))
      refine .of_length_lt ?_
      rw [digits_of_lt hm, digits_of_le hn, List.length_append]
      exact Nat.lt_add_of_pos_left hpos
    rw [digits_of_le hm, digits_of_le hn]
    rcases Nat.lt_or_ge (m / 62) (n / 62) with hfront | hfront
    · rcases List.shortlex_def.1 (ih (n / 62) (by omega) hfront) with hlength | ⟨hlength, hlex⟩
      · refine .of_length_lt ?_
        rw [List.length_append, List.length_append]
        exact Nat.add_lt_add_right hlength 1
      · exact shortlex_append hlex hlength rfl
    · -- The numbers differ in the last digit only.
      have heq : m / 62 = n / 62 := by omega
      rw [heq]
      refine .append_left ((List.shortlex_singleton_iff _ _).2 ?_) _
      exact digit_lt_digit _ (Nat.mod_lt n (by decide)) _ (by omega)

theorem shortlex_digits_iff {m n : Nat} :
    List.Shortlex (· < ·) (digits m) (digits n) ↔ m < n := by
  refine ⟨fun h => Nat.lt_of_not_ge fun hle => ?_, shortlex_digits⟩
  rcases Nat.lt_or_eq_of_le hle with hlt | rfl
  · exact Std.Asymm.asymm _ _ h (shortlex_digits hlt)
  · exact Std.Asymm.asymm _ _ h h

/-- **Numerals are faithful**: a text `s` is the numeral of a number `n` exactly if it is made of
digits whose value is `n`, without a zero in front of other digits. Different numbers have different
numerals, and the numerals have the order of the numbers when shorter ones come before longer ones
and those of one length are compared by their character codes. -/
theorem encode_faithful (s : String) (m n : Nat) :
    (IsNumeral s.toList n ↔ s = encode n) ∧ (encode m = encode n ↔ m = n) ∧
      (List.Shortlex (· < ·) (encode m).toList (encode n).toList ↔ m < n) := by
  refine ⟨?_, ⟨encode_injective, congrArg encode⟩, ?_⟩
  · rw [isNumeral_iff, ← toList_encode, String.toList_inj]
  · rw [toList_encode, toList_encode, shortlex_digits_iff]

end ScriptNaming.Base62
