/-!
# Qualified names

A qualified name is a namespace, which may be empty and may itself hold dots, and a simple name.
`QualifiedName.text` writes it with a dot between the two, and `QualifiedName.ofText` reads it
back by cutting at the last dot.
-/

namespace ScriptNaming

/-- A simple name in a namespace. -/
structure QualifiedName where
  /-- The namespace; empty for a name at the top level. -/
  space : String
  /-- The name within its namespace. -/
  simple : String
  deriving DecidableEq, Repr

namespace QualifiedName

/-- Cuts characters at their last dot; `none` when there is no dot. -/
def cutAtLastDot : List Char → Option (List Char × List Char)
  | [] => none
  | c :: cs =>
    match cutAtLastDot cs with
    | some (before, after) => some (c :: before, after)
    | none => if c = '.' then some ([], cs) else none

/-- Reads a dotted text `s`. Without a dot, or with no dot but a leading one, the whole text is the
simple name. -/
def ofText (s : String) : QualifiedName :=
  match cutAtLastDot s.toList with
  | some (c :: before, after) => ⟨.ofList (c :: before), .ofList after⟩
  | _ => ⟨"", s⟩

/-- Writes `name`; an empty namespace leaves out the dot. -/
def text (name : QualifiedName) : String :=
  if name.space = "" then name.simple else name.space ++ "." ++ name.simple

/-! ## Reading back -/

theorem cutAtLastDot_eq_none {cs : List Char} (h : '.' ∉ cs) : cutAtLastDot cs = none := by
  induction cs with
  | nil => rfl
  | cons c cs ih =>
    obtain ⟨hc, hcs⟩ := not_or.1 (mt List.mem_cons.2 h)
    rw [cutAtLastDot, ih hcs]
    exact if_neg (Ne.symm hc)

theorem cutAtLastDot_append {after : List Char} (h : '.' ∉ after) (before : List Char) :
    cutAtLastDot (before ++ '.' :: after) = some (before, after) := by
  induction before with
  | nil => simp [cutAtLastDot, cutAtLastDot_eq_none h]
  | cons c before ih => rw [List.cons_append, cutAtLastDot, ih]

/-- A `name` whose simple part has no dot is read back as it was written. -/
theorem ofText_text {name : QualifiedName} (h : '.' ∉ name.simple.toList) :
    ofText name.text = name := by
  obtain ⟨space, simple⟩ := name
  unfold text ofText
  by_cases hspace : space = ""
  · rw [if_pos hspace, cutAtLastDot_eq_none h, hspace]
  · have hlist : (space ++ "." ++ simple).toList = space.toList ++ '.' :: simple.toList := by
      simp
    rw [if_neg hspace, hlist, cutAtLastDot_append h]
    cases hchars : space.toList with
    | nil => exact absurd (String.toList_eq_nil_iff.1 hchars) hspace
    | cons c before => simp [← hchars]

end QualifiedName

end ScriptNaming
