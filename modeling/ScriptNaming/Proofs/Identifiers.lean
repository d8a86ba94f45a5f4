import ScriptNaming.CamelCase
import ScriptNaming.Identifier
import ScriptNaming.Proofs.Numerals
import ScriptNaming.Proofs.QualifiedNames

/-!
# Identifiers and paths put together

How identifiers come from other identifiers: behind a start more parts may follow
(`isIdentifierSpelling_append`), and a text with a `$` or a `_` is no reserved word
(`isIdentifier_of_mark`), so that generated names need no look at the list of reserved words. In
camel case an identifier is still spelled like one, with one letter as the exception
(`isIdentifierSpelling_camelCase`).

A qualified name of an identifier in a namespace is a path, and a path is read back as such a name
(`QualifiedName.IsLegal`).
-/

namespace ScriptNaming

/-! ## Characters -/

theorem isIdentifierPart_of_isDigit {c : Char} (h : c.isDigit) : isIdentifierPart c := by
  have hrange : Text.isNumeric c := by
    refine (Text.inClass_iff _ _).2 ⟨⟨0x30, 0x39, 1⟩, .head _, (Text.CharRange.contains_iff _ _).2 ?_⟩
    rw [Char.isDigit, Bool.and_eq_true, decide_eq_true_eq, decide_eq_true_eq] at h
    exact ⟨h.1, h.2, Nat.mod_one _⟩
  simp [isIdentifierPart, hrange]

theorem not_isIdentifierPart_dot : ¬isIdentifierPart '.' := by decide +kernel

/-- A digit `c` of the numeral of `n` may stand in an identifier. -/
theorem isIdentifierPart_of_mem_digits {n : Nat} {c : Char} (h : c ∈ Base62.digits n) :
    isIdentifierPart c := by
  have hall : Base62.alphabet.all isIdentifierPart := by decide +kernel
  exact List.all_eq_true.1 hall c ((Base62.isNumeral_digits n).mem_alphabet c h)

/-! ## Spelling -/

section

variable {cs ds : List Char}

theorem isIdentifierPart_of_mem (h : isIdentifierSpelling cs) {c : Char} (hc : c ∈ cs) :
    isIdentifierPart c := by
  cases cs with
  | nil => cases h
  | cons start rest =>
    obtain ⟨hstart, hrest⟩ := Bool.and_eq_true_iff.1 h
    rcases List.mem_cons.1 hc with rfl | hc
    · exact isIdentifierPart_of_start hstart
    · exact List.all_eq_true.1 hrest c hc

theorem isIdentifierSpelling_append (h : isIdentifierSpelling cs)
    (hds : ∀ c ∈ ds, isIdentifierPart c) : isIdentifierSpelling (cs ++ ds) := by
  cases cs with
  | nil => cases h
  | cons start rest =>
    obtain ⟨hstart, hrest⟩ := Bool.and_eq_true_iff.1 h
    rw [List.cons_append, isIdentifierSpelling, Bool.and_eq_true, List.all_append, Bool.and_eq_true]
    exact ⟨hstart, hrest, List.all_eq_true.2 hds⟩

end

/-! ## Identifiers -/

section

variable {s t : String}

theorem isIdentifier_iff : isIdentifier s ↔ isIdentifierSpelling s.toList ∧ ¬isReservedWord s := by
  simp [isIdentifier]

theorem not_isReservedWord_of_mark (h : '$' ∈ s.toList ∨ '_' ∈ s.toList) : ¬isReservedWord s := by
  have hwords : ∀ word ∈ reservedWords, '$' ∉ word.toList ∧ '_' ∉ word.toList := by decide +kernel
  intro hreserved
  obtain ⟨hdollar, hunderscore⟩ := hwords s (List.contains_iff_mem.1 hreserved)
  exact h.elim hdollar hunderscore

/-- A text that is spelled like an identifier and has one of the characters that no reserved word
has is an identifier. -/
theorem isIdentifier_of_mark (h : isIdentifierSpelling s.toList)
    (hmark : '$' ∈ s.toList ∨ '_' ∈ s.toList) : isIdentifier s :=
  isIdentifier_iff.2 ⟨h, not_isReservedWord_of_mark hmark⟩

/-- Behind an identifier `s` and a dollar sign, any parts of identifiers `t` may follow. -/
theorem isIdentifier_append_dollar (h : isIdentifierSpelling s.toList)
    (ht : ∀ c ∈ t.toList, isIdentifierPart c) : isIdentifier (s ++ "$" ++ t) := by
  have hlist : (s ++ "$" ++ t).toList = s.toList ++ '$' :: t.toList := by simp
  refine isIdentifier_of_mark ?_ (.inl ?_)
  · rw [hlist]
    refine isIdentifierSpelling_append h fun c hc => ?_
    rcases List.mem_cons.1 hc with rfl | hc
    · decide +kernel
    · exact ht c hc
  · simp [hlist]

/-- Behind a dollar sign, any parts of identifiers may follow. -/
theorem isIdentifier_dollar (ht : ∀ c ∈ t.toList, isIdentifierPart c) : isIdentifier ("$" ++ t) := by
  have hlist : ("$" ++ t).toList = '$' :: t.toList := by simp
  refine isIdentifier_of_mark ?_ (.inl ?_)
  · rw [hlist, isIdentifierSpelling, Bool.and_eq_true]
    exact ⟨by decide +kernel, List.all_eq_true.2 ht⟩
  · simp [hlist]

theorem isIdentifierPart_of_mem_toList (h : isIdentifier s) {c : Char} (hc : c ∈ s.toList) :
    isIdentifierPart c :=
  isIdentifierPart_of_mem (isIdentifier_iff.1 h).1 hc

theorem not_mem_dot_of_isIdentifier (h : isIdentifier s) : '.' ∉ s.toList :=
  fun hdot => not_isIdentifierPart_dot (isIdentifierPart_of_mem_toList h hdot)

end

/-! ## Lowercase forms -/

namespace Text

/-- Whether `shift` leads to characters of the range `r` without gaps. -/
def CaseShift.leadsInto (shift : CaseShift) (r : CharRange) : Bool :=
  Nat.ble (shift.range.last + shift.distance).toNat r.last &&
    Nat.ble r.first (shift.range.first + shift.distance).toNat && r.step == 1 &&
      (Nat.blt r.last 0xd800 || Nat.blt 0xdfff r.first && Nat.blt r.last 0x110000)

theorem lowercaseShifts_alphabetic :
    lowercaseShifts.all fun shift => alphabeticRanges.any shift.leadsInto := by
  decide +kernel

/-- Apart from the capital I with a dot above, a character that has another lowercase form becomes
one alphabetic character. -/
theorem lowercase_eq_singleton {c : Char} (h : c ≠ '\u0130') :
    ∃ d, lowercase c = [d] ∧ (d = c ∨ isAlphabetic d) := by
  rcases lowercase_cases c with ⟨hc, -⟩ | hc | ⟨shift, hshift, hcontains, hc⟩
  · exact absurd hc h
  · exact ⟨c, hc, .inl rfl⟩
  · obtain ⟨hfirst, hlast, -⟩ := (CharRange.contains_iff _ _).1 hcontains
    have hany := List.all_eq_true.1 lowercaseShifts_alphabetic shift hshift
    obtain ⟨r, hr, hleads⟩ := List.any_eq_true.1 hany
    simp only [CaseShift.leadsInto, Bool.and_eq_true, Bool.or_eq_true, Nat.ble_eq, Nat.blt_eq,
      beq_iff_eq] at hleads
    obtain ⟨⟨⟨hupper, hlower⟩, hstep⟩, hgap⟩ := hleads
    have hvalid : (c.toNat + shift.distance).toNat.isValidChar := by
      unfold Nat.isValidChar
      omega
    have hnat : (Char.ofNat (c.toNat + shift.distance).toNat).toNat =
        (c.toNat + shift.distance).toNat := by
      rw [Char.ofNat, dif_pos hvalid]
      rfl
    refine ⟨_, hc, .inr ((inClass_iff _ _).2 ⟨r, hr, (CharRange.contains_iff _ _).2 ?_⟩)⟩
    rw [hnat, hstep, Nat.mod_one]
    omega

end Text

/-! ## Camel case -/

theorem isIdentifierPart_of_isAlphabetic {c : Char} (h : Text.isAlphabetic c) :
    isIdentifierPart c := by
  simp [isIdentifierPart, h]

/-- Small letters in place of capitals leave the spelling of an identifier alone, except that the
lowercase form of a capital I with a dot above is no single letter. -/
theorem isIdentifierSpelling_lowercaseAll {cs ds : List Char} (h : isIdentifierSpelling (cs ++ ds))
    (hcs : '\u0130' ∉ cs) : isIdentifierSpelling (Text.lowercaseAll cs ++ ds) := by
  have hparts {cs : List Char} (hpart : ∀ c ∈ cs, isIdentifierPart c) (hcs : '\u0130' ∉ cs) :
      ∀ d ∈ Text.lowercaseAll cs, isIdentifierPart d := by
    intro d hd
    obtain ⟨c, hc, hd⟩ := List.mem_flatMap.1 hd
    obtain ⟨d', hlower, hd'⟩ := Text.lowercase_eq_singleton fun h => hcs (h ▸ hc)
    rw [hlower] at hd
    obtain rfl := List.mem_singleton.1 hd
    obtain rfl | halphabetic := hd'
    · exact hpart d hc
    · exact isIdentifierPart_of_isAlphabetic halphabetic
  cases cs with
  | nil => exact h
  | cons c cs =>
    rw [List.cons_append, isIdentifierSpelling, Bool.and_eq_true] at h
    obtain ⟨hstart, hrest⟩ := h
    obtain ⟨hc, hcs⟩ := not_or.1 (mt List.mem_cons.2 hcs)
    rw [List.all_append, Bool.and_eq_true] at hrest
    obtain ⟨d, hlower, hd⟩ := Text.lowercase_eq_singleton (Ne.symm hc)
    rw [Text.lowercaseAll_cons, hlower, List.singleton_append, List.cons_append,
      isIdentifierSpelling, Bool.and_eq_true, List.all_append, Bool.and_eq_true]
    refine ⟨?_, List.all_eq_true.2 (hparts (List.all_eq_true.1 hrest.1) hcs), hrest.2⟩
    obtain rfl | halphabetic := hd
    · exact hstart
    · simp [isIdentifierStart, halphabetic]

/-- The combining dot that a capital I with a dot above leaves behind. -/
theorem not_isIdentifierPart_combiningDot : ¬isIdentifierPart '\u0307' := by decide +kernel

/-- In camel case, an identifier is spelled like one or has got a combining dot. -/
theorem isIdentifierSpelling_camelCase {s : String} (h : isIdentifierSpelling s.toList) :
    isIdentifierSpelling (camelCase s).toList ∨
      '\u0130' ∈ s.toList ∧ '\u0307' ∈ (camelCase s).toList := by
  rw [camelCase, String.toList_ofList]
  unfold camelCaseChars
  dsimp only
  split
  · exact .inl (by decide +kernel)
  · generalize camelCaseCount _ _ = count
    by_cases hcapital : '\u0130' ∈ s.toList.take count
    · refine .inr ⟨List.mem_of_mem_take hcapital, List.mem_append_left _ ?_⟩
      exact List.mem_flatMap.2 ⟨_, hcapital, by decide⟩
    · refine .inl (isIdentifierSpelling_lowercaseAll ?_ hcapital)
      rwa [List.take_append_drop]

/-! ## Paths -/

section

variable {cs ds : List Char}

theorem dotSegments_of_not_mem (h : '.' ∉ cs) : dotSegments cs = [cs] := by
  induction cs with
  | nil => rfl
  | cons c cs ih =>
    obtain ⟨hc, hcs⟩ := not_or.1 (mt List.mem_cons.2 h)
    rw [dotSegments, if_neg (Ne.symm hc), ih hcs]

theorem dotSegments_append (cs ds : List Char) :
    dotSegments (cs ++ '.' :: ds) = dotSegments cs ++ dotSegments ds := by
  induction cs with
  | nil => simp [dotSegments]
  | cons c cs ih =>
    rw [List.cons_append, dotSegments, dotSegments, ih]
    split
    · simp
    · obtain ⟨piece, pieces, hpieces⟩ := List.exists_cons_of_ne_nil (dotSegments_ne_nil cs)
      simp [hpieces]

end

theorem isIdentifierPath_of_isIdentifier {s : String} (h : isIdentifier s) : isIdentifierPath s := by
  simp [isIdentifierPath, dotSegments_of_not_mem (not_mem_dot_of_isIdentifier h), h]

theorem isIdentifier_of_isIdentifierPath {s : String} (h : isIdentifierPath s)
    (hdot : '.' ∉ s.toList) : isIdentifier s := by
  simpa [isIdentifierPath, dotSegments_of_not_mem hdot] using h

/-- Two texts `s` and `t` with a dot between them are a path if both are. -/
theorem isIdentifierPath_append_iff {s t : String} :
    isIdentifierPath (s ++ "." ++ t) ↔ isIdentifierPath s ∧ isIdentifierPath t := by
  have hlist : (s ++ "." ++ t).toList = s.toList ++ '.' :: t.toList := by simp
  simp only [isIdentifierPath, hlist, dotSegments_append, List.all_append, Bool.and_eq_true]

/-! ## Qualified names -/

namespace QualifiedName

/-- An identifier at the top level or in a namespace that is a path. -/
structure IsLegal (name : QualifiedName) : Prop where
  space : name.space = "" ∨ isIdentifierPath name.space
  simple : isIdentifier name.simple

theorem IsLegal.text {name : QualifiedName} (h : name.IsLegal) : isIdentifierPath name.text := by
  unfold QualifiedName.text
  split
  · exact isIdentifierPath_of_isIdentifier h.simple
  · rename_i hspace
    exact isIdentifierPath_append_iff.2
      ⟨h.space.resolve_left hspace, isIdentifierPath_of_isIdentifier h.simple⟩

/-- A path is read as a legal name. -/
theorem isLegal_ofText {s : String} (h : isIdentifierPath s) : (ofText s).IsLegal := by
  have hwhole (hdot : '.' ∉ s.toList) : IsLegal ⟨"", s⟩ :=
    ⟨.inl rfl, isIdentifier_of_isIdentifierPath h hdot⟩
  unfold ofText
  cases hcut : cutAtLastDot s.toList with
  | none => exact hwhole (cutAtLastDot_eq_none_iff.1 hcut)
  | some p =>
    obtain ⟨before, after⟩ := p
    obtain ⟨hlist, hafter⟩ := cutAtLastDot_eq_some_iff.1 hcut
    have hs : s = String.ofList before ++ "." ++ String.ofList after :=
      String.toList_injective (by simp [hlist])
    rw [hs, isIdentifierPath_append_iff] at h
    have hsimple : isIdentifier (String.ofList after) :=
      isIdentifier_of_isIdentifierPath h.2 (by simpa using hafter)
    cases before with
    -- Nothing before the dot is no path.
    | nil => exact absurd h.1 (by decide +kernel)
    | cons c before => exact ⟨.inr h.1, hsimple⟩

end QualifiedName

end ScriptNaming
