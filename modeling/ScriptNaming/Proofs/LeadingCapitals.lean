import ScriptNaming.CamelCase

/-!
# Leading capitals

A lowercase form is the character itself, or it does not begin with a capital
(`Text.lowercase_eq_or_head`). So what camel case makes of the leading capitals of a text begins
with capitals only where these have no other lowercase form, and camel case leaves its own results
alone (`camelCase_leading_capitals`).
-/

namespace ScriptNaming

namespace Text

/-! ## Ranges apart -/

/-- Whether `r` has no two neighbours: it takes every other character or only one. -/
def CharRange.isSparse (r : CharRange) : Bool :=
  r.step == 2 || r.first == r.last

theorem CharRange.mod_two_of_contains {r : CharRange} (h : r.isSparse) {c : Char}
    (hc : r.contains c) : (c.toNat - r.first) % 2 = 0 := by
  obtain ⟨hfirst, hlast, hstep⟩ := (contains_iff _ _).1 hc
  simp only [isSparse, Bool.or_eq_true, beq_iff_eq] at h
  rcases h with h | h
  · rwa [h] at hstep
  · omega

/-- Whether `r` and `r'` are seen to have no character in common: one lies before the other, or each
lies in the gaps of the other. -/
def CharRange.misses (r r' : CharRange) : Bool :=
  Nat.blt r.last r'.first || Nat.blt r'.last r.first ||
    r.isSparse && r'.isSparse && (r.first + r'.first) % 2 == 1

theorem CharRange.not_contains_of_misses {r r' : CharRange} (h : r.misses r') {c : Char}
    (hc : r.contains c) : ¬r'.contains c := by
  intro hc'
  obtain ⟨hfirst, hlast, -⟩ := (contains_iff _ _).1 hc
  obtain ⟨hfirst', hlast', -⟩ := (contains_iff _ _).1 hc'
  simp only [misses, Bool.or_eq_true, Bool.and_eq_true, Nat.blt_eq, beq_iff_eq] at h
  rcases h with (h | h) | ⟨⟨hr, hr'⟩, hodd⟩
  · omega
  · omega
  · have heven := mod_two_of_contains hr hc
    have heven' := mod_two_of_contains hr' hc'
    omega

/-! ## Lowercase forms -/

/-- The range that `shift` leads to. -/
def CaseShift.image (shift : CaseShift) : CharRange :=
  ⟨(shift.range.first + shift.distance).toNat, (shift.range.last + shift.distance).toNat,
    shift.range.step⟩

/-- No shift leads to a capital. -/
theorem lowercaseShifts_image : lowercaseShifts.all fun shift =>
    decide (0 ≤ shift.range.first + shift.distance) &&
      uppercaseRanges.all shift.image.misses := by
  decide +kernel

/-- A character `c` moved by `shift` is in its image, unless it is none. -/
theorem CaseShift.contains_image {shift : CaseShift}
    (hfirst : 0 ≤ shift.range.first + shift.distance) {c : Char} (hc : shift.range.contains c) :
    shift.image.contains (.ofNat (c.toNat + shift.distance).toNat) ∨
      Char.ofNat (c.toNat + shift.distance).toNat = '\x00' := by
  obtain ⟨hlower, hupper, hstep⟩ := (CharRange.contains_iff _ _).1 hc
  rw [Char.ofNat]
  by_cases hvalid : (c.toNat + shift.distance).toNat.isValidChar
  · rw [dif_pos hvalid]
    refine .inl ((CharRange.contains_iff _ _).2 ⟨?_, ?_, ?_⟩)
    · exact Int.toNat_le_toNat (by omega)
    · exact Int.toNat_le_toNat (by omega)
    · have hdistance : (c.toNat + shift.distance).toNat -
          (shift.range.first + shift.distance).toNat = c.toNat - shift.range.first := by omega
      exact hdistance ▸ hstep
  · rw [dif_neg hvalid]
    exact .inr rfl

/-- A character is its own lowercase form, or that does not begin with a capital. -/
theorem lowercase_eq_or_head (c : Char) :
    lowercase c = [c] ∨ ∃ d ds, lowercase c = d :: ds ∧ ¬isUppercase d := by
  rcases lowercase_cases c with ⟨-, hc⟩ | hc | ⟨shift, hshift, hcontains, hc⟩
  · exact .inr ⟨'i', ['\u0307'], hc, by decide +kernel⟩
  · exact .inl hc
  · have himage := List.all_eq_true.1 lowercaseShifts_image shift hshift
    rw [Bool.and_eq_true, decide_eq_true_eq] at himage
    refine .inr ⟨_, [], hc, fun hupper => ?_⟩
    rcases CaseShift.contains_image himage.1 hcontains with hd | hd
    · obtain ⟨r, hr, hupper⟩ := (inClass_iff _ _).1 hupper
      exact CharRange.not_contains_of_misses (List.all_eq_true.1 himage.2 r hr) hd hupper
    · rw [hd] at hupper
      exact absurd hupper (by decide +kernel)

theorem lowercaseAll_eq_self {cs : List Char} (h : ∀ c ∈ cs, lowercase c = [c]) :
    lowercaseAll cs = cs := by
  induction cs with
  | nil => rfl
  | cons c cs ih =>
    obtain ⟨hc, hcs⟩ := List.forall_mem_cons.1 h
    rw [lowercaseAll_cons, hc, ih hcs, List.singleton_append]

/-- Where the characters `us` have become small, the text begins with capitals that have no other
lowercase form, unless all of `us` are their own lowercase forms. -/
theorem lowercaseAll_eq_self_or (us vs : List Char) : lowercaseAll us = us ∨
    ∀ c ∈ (lowercaseAll us ++ vs).takeWhile isUppercase, lowercase c = [c] := by
  induction us with
  | nil => exact .inl rfl
  | cons u us ih =>
    rw [lowercaseAll_cons]
    rcases lowercase_eq_or_head u with hu | ⟨d, ds, hu, hd⟩
    · rw [hu, List.singleton_append, List.cons_append]
      refine ih.imp (congrArg _) fun h c hc => ?_
      rw [List.takeWhile_cons] at hc
      split at hc
      · rcases List.mem_cons.1 hc with rfl | hc
        · exact hu
        · exact h c hc
      · cases hc
    · rw [hu, List.cons_append, List.cons_append, List.takeWhile_cons_of_neg hd]
      exact .inr nofun

end Text

/-! ## Camel case -/

section

variable {cs : List Char}

theorem camelCaseCount_eq_zero_iff {capitals length : Nat} :
    camelCaseCount capitals length = 0 ↔ capitals = 0 ∨ capitals = length ∧ length ≠ 1 := by
  unfold camelCaseCount
  split
  · simp [*]
  · split <;> omega

/-- The characters of `cs` that become small are capitals that it begins with. -/
theorem take_camelCaseCount_prefix (cs : List Char) :
    cs.take (camelCaseCount (cs.takeWhile Text.isUppercase).length cs.length) <+:
      cs.takeWhile Text.isUppercase := by
  refine List.prefix_of_prefix_length_le (List.take_prefix _ _) (List.takeWhile_prefix _) ?_
  rw [List.length_take]
  exact Nat.le_trans (Nat.min_le_left _ _) (camelCaseCount_le _ _)

/-- Camel case makes small what some of the leading capitals of `cs` are and nothing else. It leaves
all of them alone where there are none, and where there are several and nothing besides. -/
theorem camelCaseChars_split (cs : List Char) :
    ∃ u v, cs = u ++ v ∧ u <+: cs.takeWhile Text.isUppercase ∧
      camelCaseChars cs = Text.lowercaseAll u ++ v ∧
      (u = [] ↔ cs.takeWhile Text.isUppercase = [] ∨
        cs.takeWhile Text.isUppercase = cs ∧ cs.length ≠ 1 ∧ cs ≠ ['I', 'D']) := by
  by_cases hid : cs = ['I', 'D']
  · subst hid
    exact ⟨['I', 'D'], [], rfl, by decide +kernel, by decide +kernel, by decide +kernel⟩
  have hcamel : camelCaseChars cs = _ := if_neg hid
  refine ⟨_, _, (List.take_append_drop _ _).symm, take_camelCaseCount_prefix cs, hcamel, ?_⟩
  have hwhole : (cs.takeWhile Text.isUppercase).length = cs.length ↔
      cs.takeWhile Text.isUppercase = cs :=
    ⟨(List.takeWhile_prefix _).eq_of_length, congrArg List.length⟩
  rw [List.take_eq_nil_iff, camelCaseCount_eq_zero_iff, List.length_eq_zero_iff, hwhole]
  constructor
  · rintro ((hnone | ⟨hall, hlength⟩) | rfl)
    · exact .inl hnone
    · exact .inr ⟨hall, hlength, hid⟩
    · exact .inl rfl
  · exact fun h => .inl (h.imp_right fun ⟨hall, hlength, _⟩ => ⟨hall, hlength⟩)

theorem camelCaseChars_eq_self (h : ∀ c ∈ cs.takeWhile Text.isUppercase, Text.lowercase c = [c]) :
    camelCaseChars cs = cs := by
  obtain ⟨u, v, hsplit, hu, hcamel, -⟩ := camelCaseChars_split cs
  rw [hcamel, Text.lowercaseAll_eq_self fun c hc => h c (hu.subset hc), hsplit]

theorem camelCaseChars_camelCaseChars (cs : List Char) :
    camelCaseChars (camelCaseChars cs) = camelCaseChars cs := by
  obtain ⟨u, v, hsplit, -, hcamel, -⟩ := camelCaseChars_split cs
  rcases Text.lowercaseAll_eq_self_or u v with h | h
  · have hsame : camelCaseChars cs = cs := by rw [hcamel, h, hsplit]
    rw [hsame, hsame]
  · rw [hcamel]
    exact camelCaseChars_eq_self h

end

/-- **Camel case makes leading capitals small, once and for all**: applied again it changes nothing,
and every text consists of some of the capitals that it begins with, which become small character
by character, and of the rest, which stays as it is. No capitals become small exactly if there are
none in front or if there is nothing but several of them, `ID` apart. -/
theorem camelCase_leading_capitals (s : String) :
    camelCase (camelCase s) = camelCase s ∧
      ∃ u v, s.toList = u ++ v ∧ u <+: s.toList.takeWhile Text.isUppercase ∧
        (camelCase s).toList = Text.lowercaseAll u ++ v ∧
        (u = [] ↔ s.toList.takeWhile Text.isUppercase = [] ∨
          s.toList.takeWhile Text.isUppercase = s.toList ∧ s.length ≠ 1 ∧ s ≠ "ID") := by
  have hid : s ≠ "ID" ↔ s.toList ≠ ['I', 'D'] := not_congr (by rw [← String.toList_inj]; rfl)
  refine ⟨?_, ?_⟩
  · simp only [camelCase, String.toList_ofList, camelCaseChars_camelCaseChars]
  · rw [camelCase, String.toList_ofList, hid, ← String.length_toList]
    exact camelCaseChars_split s.toList

end ScriptNaming
