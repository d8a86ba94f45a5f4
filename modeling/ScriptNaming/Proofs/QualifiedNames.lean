import ScriptNaming.QualifiedName

/-!
# Cutting dotted names

Every text is cut into a namespace and a simple name in one way, and the text is what is written for
the two (`QualifiedName.text_ofText`). In the other direction, what is written for a namespace and a
simple name is cut into these two again if the simple name has no dot; the only other names of which
this is true are at the top level and have nothing but a leading dot
(`QualifiedName.ofText_text_iff`).
-/

namespace ScriptNaming.QualifiedName

theorem cutAtLastDot_eq_none_iff {cs : List Char} : cutAtLastDot cs = none ↔ '.' ∉ cs := by
  refine ⟨fun h hdot => ?_, cutAtLastDot_eq_none⟩
  induction cs with
  | nil => cases hdot
  | cons c cs ih =>
    rw [cutAtLastDot] at h
    cases hcut : cutAtLastDot cs with
    | some parts =>
      rw [hcut] at h
      cases h
    | none =>
      rw [hcut] at h
      rcases List.mem_cons.1 hdot with rfl | hdot
      · cases h
      · exact ih hcut hdot

/-- Characters are cut at a dot after which there is none. -/
theorem cutAtLastDot_eq_some_iff {cs before after : List Char} :
    cutAtLastDot cs = some (before, after) ↔ cs = before ++ '.' :: after ∧ '.' ∉ after := by
  constructor
  · intro h
    induction cs generalizing before with
    | nil => cases h
    | cons c cs ih =>
      rw [cutAtLastDot] at h
      cases hcut : cutAtLastDot cs with
      | some parts =>
        obtain ⟨front, back⟩ := parts
        rw [hcut] at h
        obtain ⟨rfl, rfl⟩ := Prod.mk.inj (Option.some.inj h)
        obtain ⟨rfl, hback⟩ := ih hcut
        exact ⟨rfl, hback⟩
      | none =>
        rw [hcut] at h
        dsimp only at h
        split at h
        · rename_i hdot
          obtain ⟨rfl, rfl⟩ := Prod.mk.inj (Option.some.inj h)
          exact ⟨by rw [hdot, List.nil_append], cutAtLastDot_eq_none_iff.1 hcut⟩
        · cases h
  · rintro ⟨rfl, hafter⟩
    exact cutAtLastDot_append hafter before

/-! ## From texts to names and back -/

/-- What the parts of a text are: it is cut at the last dot behind its first character, or it has
none there and is a simple name. -/
theorem ofText_cases (s : String) :
    (∃ c before after, s.toList = c :: before ++ '.' :: after ∧ '.' ∉ after ∧
      ofText s = ⟨.ofList (c :: before), .ofList after⟩) ∨
    '.' ∉ s.toList.tail ∧ ofText s = ⟨"", s⟩ := by
  unfold ofText
  cases hcut : cutAtLastDot s.toList with
  | none => exact .inr ⟨fun h => cutAtLastDot_eq_none_iff.1 hcut (List.mem_of_mem_tail h), rfl⟩
  | some parts =>
    obtain ⟨before, after⟩ := parts
    obtain ⟨hs, hafter⟩ := cutAtLastDot_eq_some_iff.1 hcut
    cases before with
    | nil => exact .inr ⟨by rwa [hs], rfl⟩
    | cons c before => exact .inl ⟨c, before, after, hs, hafter, rfl⟩

/-- The parts of a text `s` make up `s`. -/
theorem text_ofText (s : String) : (ofText s).text = s := by
  obtain ⟨c, before, after, hs, -, hcut⟩ | ⟨-, hcut⟩ := ofText_cases s
  · have hspace : String.ofList (c :: before) ≠ "" := by simp
    rw [hcut, text, if_neg hspace, ← String.toList_inj, hs]
    simp
  · rw [hcut, text, if_pos rfl]

/-- A `name` is read back as it was written exactly if its simple part has no dot, or it is at the
top level and its only dot is a leading one. -/
theorem ofText_text_iff {name : QualifiedName} :
    ofText name.text = name ↔
      '.' ∉ name.simple.toList ∨ name.space = "" ∧ '.' ∉ name.simple.toList.tail := by
  constructor
  · intro h
    obtain ⟨c, before, after, -, hafter, hcut⟩ | ⟨htail, hcut⟩ := ofText_cases name.text
    · rw [← h, hcut]
      exact .inl (by simpa using hafter)
    · have hname : name = ⟨"", name.text⟩ := h.symm.trans hcut
      rw [hname]
      exact .inr ⟨rfl, htail⟩
  · rintro (h | ⟨hspace, htail⟩)
    · exact ofText_text h
    · obtain ⟨space, simple⟩ := name
      obtain rfl : space = "" := hspace
      rw [text, if_pos rfl]
      obtain ⟨c, before, after, hs, -, -⟩ | ⟨-, hcut⟩ := ofText_cases simple
      · exact absurd (by simp [hs]) htail
      · exact hcut

/-- **Cutting and writing undo each other**: the parts of any text make up that text, and a name
whose simple part has no dot is read back from what is written for it, whatever its namespace. -/
theorem cut_and_write_inverse :
    (∀ s : String, text (ofText s) = s) ∧
      ∀ space simple : String, '.' ∉ simple.toList →
        ofText (text ⟨space, simple⟩) = ⟨space, simple⟩ :=
  ⟨text_ofText, fun _ _ h => ofText_text h⟩

/-- A namespace with dots at both ends is read back. -/
theorem dotted_space_read_back :
    '.' ∉ "Box$1".toList ∧ ofText (text ⟨"..Zoo.", "Box$1"⟩) = ⟨"..Zoo.", "Box$1"⟩ := by
  have hdot : '.' ∉ "Box$1".toList := by decide
  exact ⟨hdot, cut_and_write_inverse.2 "..Zoo." "Box$1" hdot⟩

end ScriptNaming.QualifiedName
