import ScriptNaming.Template
import Mathlib.Data.List.Forall2
import Mathlib.Data.List.TakeWhile

/-!
# Placeholders of templates

What the holes of a template are can be said without a scanner: a hole is a name between braces, and
the placeholders are the names of the leftmost hole, of the leftmost hole behind that one, and so on
(`FindsHoles`). The scan over characters finds exactly these, and so does a scan over the bytes of
the template that goes on one byte at a time outside of holes (`holeSpans`). As braces, letters and
digits take one byte each, and no byte of another character looks like them, the offsets that the
scan over bytes comes to lie between characters.

Text that ends before an opening parenthesis can be scanned on its own, so that the placeholders of
a call are those of the callee and then the parameters.
-/

namespace ScriptNaming.Template

/-! ## Holes -/

/-- A placeholder name: a letter or an underscore, and then letters and digits. -/
def IsName : List Char → Prop
  | [] => False
  | c :: cs => (c.isAlpha ∨ c = '_') ∧ ∀ d ∈ cs, d.isAlphanum

instance instDecidableIsName : (name : List Char) → Decidable (IsName name)
  | [] => isFalse not_false
  | c :: cs =>
    decidable_of_iff ((c.isAlpha || c == '_') && cs.all Char.isAlphanum) (by simp [IsName])

/-- A text has a hole for `name` between `before` and `after`. -/
structure HoleAt (text before name after : List Char) : Prop where
  isName : IsName name
  text_eq : text = before ++ '{' :: (name ++ '}' :: after)

/-- The names of the leftmost holes of a text that do not overlap. -/
inductive FindsHoles : List Char → List (List Char) → Prop
  | none {text : List Char} (free : ∀ before name after, ¬HoleAt text before name after) :
      FindsHoles text []
  | hole {text before name after : List Char} {names : List (List Char)}
      (here : HoleAt text before name after)
      (leftmost : ∀ before' name' after', HoleAt text before' name' after' →
        before.length ≤ before'.length)
      (rest : FindsHoles after names) : FindsHoles text (name :: names)

/-- Whether `text` begins with a hole. -/
def OpensHole (text : List Char) : Prop := ∃ name after, HoleAt text [] name after

section

variable {text name after cs : List Char} {c : Char}

theorem isNameStart_iff : isNameStart c ↔ c.isAlpha ∨ c = '_' := by
  simp [isNameStart]

/-- Which characters `c` a `name` is made of. -/
theorem IsName.mem (h : IsName name) (hc : c ∈ name) : c.isAlphanum ∨ c = '_' := by
  cases name with
  | nil => exact h.elim
  | cons d ds =>
    obtain ⟨hstart, hrest⟩ := h
    rcases List.mem_cons.1 hc with rfl | hc
    · exact hstart.imp_left fun halpha => by simp [Char.isAlphanum, halpha]
    · exact .inl (hrest c hc)

theorem IsName.open_notMem (h : IsName name) : '{' ∉ name :=
  fun hc => absurd (h.mem hc) (by decide)

theorem IsName.close_notMem (h : IsName name) : '}' ∉ name :=
  fun hc => absurd (h.mem hc) (by decide)

/-- Where the `name` of a hole ends is determined. -/
theorem name_unique {name' after' : List Char} (h : IsName name) (h' : IsName name')
    (heq : name ++ '}' :: after = name' ++ '}' :: after') : name = name' ∧ after = after' := by
  rcases List.append_eq_append_iff.1 heq with ⟨as, rfl, has⟩ | ⟨as, rfl, has⟩
  · cases as with
    | nil => simpa using has
    | cons a as =>
      obtain rfl := (List.cons.inj has).1
      exact absurd (by simp) h'.close_notMem
  · cases as with
    | nil => simpa [eq_comm] using has
    | cons a as =>
      obtain rfl := (List.cons.inj has).1
      exact absurd (by simp) h.close_notMem

/-- A text is gone through hole by hole, and character by character where no hole begins. -/
@[elab_as_elim]
theorem holes_induction {motive : List Char → Prop} (nil : motive [])
    (hole : ∀ name after, IsName name → motive after → motive ('{' :: (name ++ '}' :: after)))
    (skip : ∀ c cs, ¬OpensHole (c :: cs) → motive cs → motive (c :: cs)) (text : List Char) :
    motive text := by
  induction hn : text.length using Nat.strongRecOn generalizing text with
  | _ n ih =>
    cases text with
    | nil => exact nil
    | cons c cs =>
      rw [List.length_cons] at hn
      by_cases h : OpensHole (c :: cs)
      · obtain ⟨name, after, hname, heq⟩ := h
        have hafter : after.length < n := by
          have hlength := congrArg List.length heq
          simp only [List.nil_append, List.length_cons, List.length_append] at hlength
          omega
        rw [heq]
        exact hole name after hname (ih after.length hafter after rfl)
      · exact skip c cs h (ih cs.length (by omega) cs rfl)

/-! ## The scan over characters -/

theorem closedName?_eq_some_iff :
    closedName? text = some name ↔ IsName name ∧ ∃ after, text = name ++ '}' :: after := by
  constructor
  · intro h
    cases text with
    | nil => cases h
    | cons c cs =>
      simp only [closedName?, Option.ite_none_right_eq_some, Option.some.injEq, Bool.and_eq_true,
        beq_iff_eq, isNameStart_iff] at h
      obtain ⟨⟨hstart, hclose⟩, rfl⟩ := h
      obtain ⟨after, hafter⟩ := List.head?_eq_some_iff.1 hclose
      refine ⟨⟨hstart, fun d hd => List.mem_takeWhile_imp hd⟩, after, ?_⟩
      rw [List.cons_append, ← hafter, List.takeWhile_append_dropWhile]
  · rintro ⟨hname, after, rfl⟩
    cases name with
    | nil => exact hname.elim
    | cons c cs =>
      obtain ⟨hstart, hrest⟩ := hname
      have hstop : ¬('}'.isAlphanum = true) := by decide
      simp [closedName?, isNameStart_iff.2 hstart, List.dropWhile_append_of_pos hrest,
        List.takeWhile_append_of_pos hrest, hstop]

/-- A hole begins where a name follows the opening brace and a closing brace follows the name. -/
theorem opensHole_of_close (hstart : isNameStart c)
    (hclose : (cs.dropWhile Char.isAlphanum).head? = some '}') : OpensHole ('{' :: c :: cs) := by
  have hclosed : closedName? (c :: cs) = some (c :: cs.takeWhile Char.isAlphanum) := by
    simp [closedName?, hstart, hclose]
  obtain ⟨hname, after, heq⟩ := closedName?_eq_some_iff.1 hclosed
  exact ⟨_, after, hname, congrArg _ heq⟩

theorem placeholderNames_append (h : '{' ∉ cs) :
    placeholderNames (cs ++ text) = placeholderNames text := by
  induction cs with
  | nil => rfl
  | cons c cs ih =>
    obtain ⟨hc, hcs⟩ := not_or.1 (mt List.mem_cons.2 h)
    rw [List.cons_append, placeholderNames, if_neg (Ne.symm hc), ih hcs]

/-- The scan finds a hole at the beginning and goes on behind it. -/
theorem placeholderNames_hole (h : IsName name) :
    placeholderNames ('{' :: (name ++ '}' :: after)) = name :: placeholderNames after := by
  have hclosed : closedName? (name ++ '}' :: after) = some name :=
    closedName?_eq_some_iff.2 ⟨h, after, rfl⟩
  rw [placeholderNames, if_pos rfl, hclosed, placeholderNames_append h.open_notMem,
    placeholderNames, if_neg (by decide)]
  rfl

/-- The scan goes on by one character where no hole begins. -/
theorem placeholderNames_skip (h : ¬OpensHole (c :: cs)) :
    placeholderNames (c :: cs) = placeholderNames cs := by
  rw [placeholderNames]
  split
  case isFalse => rfl
  case isTrue hc =>
    subst hc
    cases hclosed : closedName? cs with
    | none => rfl
    | some name =>
      obtain ⟨hname, after, rfl⟩ := closedName?_eq_some_iff.1 hclosed
      exact absurd ⟨name, after, hname, rfl⟩ h

/-! ## The scan finds the leftmost holes -/

theorem FindsHoles.skip (h : ¬OpensHole (c :: cs)) {names : List (List Char)}
    (hfinds : FindsHoles cs names) : FindsHoles (c :: cs) names := by
  -- A hole of the longer text lies in the shorter text, one character further to the left.
  have htail {before name after : List Char} (hat : HoleAt (c :: cs) before name after) :
      ∃ before', before = c :: before' ∧ HoleAt cs before' name after := by
    cases before with
    | nil => exact absurd ⟨name, after, hat⟩ h
    | cons b before =>
      obtain ⟨rfl, heq⟩ := List.cons.inj hat.text_eq
      exact ⟨before, rfl, hat.isName, heq⟩
  cases hfinds with
  | none free =>
    refine .none fun before name after hat => ?_
    obtain ⟨before', -, hat'⟩ := htail hat
    exact free before' name after hat'
  | @hole _ before name after names here leftmost rest =>
    have here' : HoleAt (c :: cs) (c :: before) name after :=
      ⟨here.isName, congrArg (c :: ·) here.text_eq⟩
    refine .hole here' (fun before' name' after' hat => ?_) rest
    obtain ⟨before'', rfl, hat'⟩ := htail hat
    exact Nat.succ_le_succ (leftmost before'' name' after' hat')

theorem findsHoles_placeholderNames (text : List Char) :
    FindsHoles text (placeholderNames text) := by
  induction text using holes_induction with
  | nil => exact .none fun before name after hat => by simpa using hat.text_eq
  | hole name after hname ih =>
    have here : HoleAt ('{' :: (name ++ '}' :: after)) [] name after := ⟨hname, rfl⟩
    rw [placeholderNames_hole hname]
    exact .hole here (fun _ _ _ _ => Nat.zero_le _) ih
  | skip c cs h ih =>
    rw [placeholderNames_skip h]
    exact ih.skip h

/-- The leftmost holes of `text` are determined, one after the other. -/
theorem FindsHoles.unique {names names' : List (List Char)} (h : FindsHoles text names)
    (h' : FindsHoles text names') : names = names' := by
  induction h generalizing names' with
  | none free =>
    cases h' with
    | none => rfl
    | hole here => exact absurd here (free _ _ _)
  | hole here leftmost rest ih =>
    cases h' with
    | none free => exact absurd here (free _ _ _)
    | hole here' leftmost' rest' =>
      have hlength := Nat.le_antisymm (leftmost _ _ _ here') (leftmost' _ _ _ here)
      obtain ⟨-, htail⟩ := List.append_inj (here.text_eq.symm.trans here'.text_eq) hlength
      obtain ⟨rfl, rfl⟩ := name_unique here.isName here'.isName (List.cons.inj htail).2
      rw [ih rest']

theorem findsHoles_iff {names : List (List Char)} :
    FindsHoles text names ↔ placeholderNames text = names :=
  ⟨(findsHoles_placeholderNames text).unique, fun h => h ▸ findsHoles_placeholderNames text⟩

/-! ## Calls -/

/-- A hole that `text` opens with lies before a character `c` that no hole contains. -/
theorem OpensHole.of_append {rest : List Char} (hc : ¬(c.isAlphanum ∨ c = '_' ∨ c = '}'))
    (htext : text ≠ []) (h : OpensHole (text ++ c :: rest)) : OpensHole text := by
  obtain ⟨name, after, hname, heq⟩ := h
  cases text with
  | nil => exact absurd rfl htext
  | cons b text =>
    obtain ⟨rfl, htail⟩ := List.cons.inj heq
    rcases List.append_eq_append_iff.1 htail with ⟨as, rfl, has⟩ | ⟨as, rfl, has⟩
    · cases as with
      | nil =>
        obtain rfl := (List.cons.inj has).1
        exact absurd (.inr (.inr rfl)) hc
      | cons a as =>
        obtain rfl := (List.cons.inj has).1
        have hmem := hname.mem (c := c) (by simp)
        exact absurd (hmem.imp_right .inl) hc
    · cases as with
      | nil =>
        obtain rfl := (List.cons.inj has).1
        exact absurd (.inr (.inr rfl)) hc
      | cons a as =>
        obtain ⟨rfl, -⟩ := List.cons.inj has
        exact ⟨name, as, hname, rfl⟩

/-- The part `text` before a character `c` that no hole contains can be scanned on its own. -/
theorem placeholderNames_append_cons {rest : List Char}
    (hc : ¬(c.isAlphanum ∨ c = '_' ∨ c = '}')) :
    placeholderNames (text ++ c :: rest) =
      placeholderNames text ++ placeholderNames (c :: rest) := by
  induction text using holes_induction with
  | nil => rfl
  | hole name after hname ih =>
    rw [placeholderNames_hole hname, List.cons_append, List.append_assoc, List.cons_append,
      placeholderNames_hole hname, ih, List.cons_append]
  | skip d ds h ih =>
    rw [placeholderNames_skip h, List.cons_append, placeholderNames_skip, ih]
    exact fun hopens => h (hopens.of_append hc (List.cons_ne_nil d ds))

theorem toList_hole (name : String) : (hole name).toList = '{' :: (name.toList ++ ['}']) := by
  simp [hole]

/-- The placeholders of holes for `parameters`. -/
theorem placeholderNames_holes {parameters : List String}
    (h : ∀ p ∈ parameters, IsName p.toList) :
    placeholderNames ((", ".intercalate (parameters.map hole)).toList ++ [')']) =
      parameters.map String.toList := by
  induction parameters with
  | nil => rfl
  | cons p parameters ih =>
    obtain ⟨hp, hparameters⟩ := List.forall_mem_cons.1 h
    cases parameters with
    | nil =>
      have hhole : (", ".intercalate ([p].map hole)).toList ++ [')'] =
          '{' :: (p.toList ++ '}' :: [')']) := by simp [toList_hole]
      rw [hhole, placeholderNames_hole hp]
      rfl
    | cons q parameters =>
      have hholes : (", ".intercalate ((p :: q :: parameters).map hole)).toList ++ [')'] =
          '{' :: (p.toList ++ '}' :: ([',', ' '] ++
            ((", ".intercalate ((q :: parameters).map hole)).toList ++ [')']))) := by
        simp [toList_hole]
      rw [hholes, placeholderNames_hole hp, placeholderNames_append (by decide), ih hparameters]
      rfl

/-- The placeholders of a call are those of `callee` and then `parameters`. -/
theorem placeholders_call {callee : String} {parameters : List String}
    (h : ∀ p ∈ parameters, IsName p.toList) :
    placeholders (call callee parameters) = placeholders callee ++ parameters := by
  have hcall : (call callee parameters).toList =
      callee.toList ++ '(' :: ((", ".intercalate (parameters.map hole)).toList ++ [')']) := by
    simp [call]
  have hparameters : (parameters.map String.toList).map String.ofList = parameters := by
    simp
  rw [placeholders, hcall, placeholderNames_append_cons (by decide), placeholderNames,
    if_neg (by decide), placeholderNames_holes h, List.map_append, hparameters, placeholders]

/-! ## The scan over bytes -/

/-- The bytes of the characters `cs`. -/
def bytes (cs : List Char) : List UInt8 := cs.flatMap String.utf8EncodeChar

/-- Whether the byte `b` may continue a placeholder name. -/
def continuesName (b : UInt8) : Bool := (Char.ofUInt8 b).isAlphanum

/-- Where the names of holes begin and end among bytes, of which the first is at `offset`. Wherever
no hole is, the scan goes on by one byte, and it stops at a brace at the end. -/
def holeSpans (offset : Nat) : List UInt8 → List (Nat × Nat)
  | [] => []
  | b :: bs =>
    if Char.ofUInt8 b ≠ '{' then holeSpans (offset + 1) bs
    else
      match bs with
      | [] => []
      | first :: rest =>
        if ¬isNameStart (Char.ofUInt8 first) then holeSpans (offset + 1) (first :: rest)
        else
          let stop := offset + 2 + (rest.takeWhile continuesName).length
          let behind := rest.dropWhile continuesName
          if behind.head?.map Char.ofUInt8 = some '}' then
            (offset + 1, stop) :: holeSpans (stop + 1) behind.tail
          else holeSpans (offset + 1) (first :: rest)
termination_by bs => bs.length
decreasing_by
  all_goals try simp
  have hlength := (List.dropWhile_suffix (l := rest) continuesName).length_le
  omega

theorem toNat_lt_of_isAlphanum (h : c.isAlphanum) : c.toNat < 128 := by
  rcases Bool.or_eq_true_iff.1 h with halpha | hdigit
  · rcases Bool.or_eq_true_iff.1 halpha with hupper | hlower
    · have hle := UInt32.le_iff_toNat_le.1 (of_decide_eq_true hupper).2
      exact Nat.lt_of_le_of_lt hle (by decide)
    · have hle := UInt32.le_iff_toNat_le.1 (of_decide_eq_true (Bool.and_eq_true_iff.1 hlower).2)
      exact Nat.lt_of_le_of_lt hle (by decide)
  · exact Nat.lt_of_le_of_lt (Char.isDigit_iff_toNat.1 hdigit).2 (by decide)

theorem toNat_lt_of_isNameStart (h : isNameStart c) : c.toNat < 128 := by
  rcases isNameStart_iff.1 h with h | rfl
  · exact toNat_lt_of_isAlphanum (by simp [Char.isAlphanum, h])
  · decide

/-- A character is either one byte with the same number, or its bytes are like no characters with
small numbers. -/
theorem utf8EncodeChar_cases (c : Char) :
    (∃ b, Char.ofUInt8 b = c ∧ String.utf8EncodeChar c = [b]) ∨
      128 ≤ c.toNat ∧ ∀ b ∈ String.utf8EncodeChar c, 128 ≤ (Char.ofUInt8 b).toNat := by
  have htoNat (b : UInt8) : (Char.ofUInt8 b).toNat = b.toNat := rfl
  by_cases hsmall : c.toNat ≤ 127
  · refine .inl ⟨UInt8.ofNat c.toNat, ?_, if_pos hsmall⟩
    apply Char.toNat_inj.1
    simp only [htoNat, UInt8.toNat_ofNat']
    omega
  · refine .inr ⟨by omega, fun b hb => ?_⟩
    have hhigh {k m n : Nat} (hm : 0 < m) (hn : 128 ≤ n) (hmn : m + n ≤ 256) :
        128 ≤ (Char.ofUInt8 (UInt8.ofNat (k % m + n))).toNat := by
      have hmod := Nat.mod_lt k hm
      simp only [htoNat, UInt8.toNat_ofNat']
      omega
    change b ∈ ite (c.toNat ≤ 127) _ _ at hb
    rw [if_neg hsmall] at hb
    split_ifs at hb
    all_goals simp only [List.mem_cons, List.not_mem_nil, or_false] at hb
    · obtain rfl | rfl := hb <;> exact hhigh (by decide) (by decide) (by decide)
    · obtain rfl | rfl | rfl := hb <;> exact hhigh (by decide) (by decide) (by decide)
    · obtain rfl | rfl | rfl | rfl := hb <;> exact hhigh (by decide) (by decide) (by decide)

@[simp] theorem bytes_nil : bytes [] = [] := rfl

theorem bytes_append (cs ds : List Char) : bytes (cs ++ ds) = bytes cs ++ bytes ds :=
  List.flatMap_append

theorem bytes_cons (c : Char) (cs : List Char) :
    bytes (c :: cs) = String.utf8EncodeChar c ++ bytes cs := rfl

/-- What the bytes of a text begin with: its first character, or what is like no character with a
small number. -/
theorem bytes_cons_cases (c : Char) (cs : List Char) :
    ∃ b bs, bytes (c :: cs) = b :: bs ∧
      (Char.ofUInt8 b = c ∧ bs = bytes cs ∨ 128 ≤ c.toNat ∧ 128 ≤ (Char.ofUInt8 b).toNat) := by
  obtain ⟨b, hb, hbytes⟩ | ⟨hc, hbytes⟩ := utf8EncodeChar_cases c
  · exact ⟨b, bytes cs, by rw [bytes_cons, hbytes]; rfl, .inl ⟨hb, rfl⟩⟩
  · cases hencode : String.utf8EncodeChar c with
    | nil => exact absurd hencode (by simp)
    | cons b bs =>
      refine ⟨b, bs ++ bytes cs, by rw [bytes_cons, hencode]; rfl, .inr ⟨hc, hbytes b ?_⟩⟩
      rw [hencode]
      exact .head _

/-- The bytes of a `name` are its characters. -/
theorem IsName.map_bytes (h : IsName name) : (bytes name).map Char.ofUInt8 = name := by
  have hsmall : ∀ c ∈ name, c.toNat < 128 := by
    intro c hc
    obtain halnum | rfl := h.mem hc
    · exact toNat_lt_of_isAlphanum halnum
    · decide
  clear h
  induction name with
  | nil => rfl
  | cons c cs ih =>
    obtain ⟨hc, hcs⟩ := List.forall_mem_cons.1 hsmall
    obtain ⟨b, rfl, hbytes⟩ | ⟨hlarge, -⟩ := utf8EncodeChar_cases c
    · rw [bytes_cons, hbytes, List.singleton_append, List.map_cons, ih hcs]
    · omega

theorem IsName.length_bytes (h : IsName name) : (bytes name).length = name.length := by
  rw [← h.map_bytes, List.length_map, h.map_bytes]

theorem bytes_dropWhile (cs : List Char) :
    (bytes cs).dropWhile continuesName = bytes (cs.dropWhile Char.isAlphanum) := by
  induction cs with
  | nil => rfl
  | cons c cs ih =>
    obtain ⟨b, bs, hbytes, ⟨rfl, rfl⟩ | ⟨hc, hb⟩⟩ := bytes_cons_cases c cs
    · by_cases halnum : (Char.ofUInt8 b).isAlphanum
      · have hb : continuesName b := halnum
        rw [hbytes, List.dropWhile_cons_of_pos hb, List.dropWhile_cons_of_pos halnum, ih]
      · have hb : ¬continuesName b := halnum
        rw [hbytes, List.dropWhile_cons_of_neg hb, List.dropWhile_cons_of_neg halnum, hbytes]
    · have hc' : ¬c.isAlphanum := fun h => absurd (toNat_lt_of_isAlphanum h) (by omega)
      have hb' : ¬continuesName b := fun h => absurd (toNat_lt_of_isAlphanum h) (by omega)
      rw [hbytes, List.dropWhile_cons_of_neg hb', List.dropWhile_cons_of_neg hc', hbytes]

theorem head?_of_bytes (h : (bytes cs).head?.map Char.ofUInt8 = some '}') :
    cs.head? = some '}' := by
  cases cs with
  | nil => simp at h
  | cons c cs =>
    obtain ⟨b, bs, hbytes, hb⟩ := bytes_cons_cases c cs
    rw [hbytes, List.head?_cons, Option.map_some, Option.some.injEq] at h
    obtain ⟨rfl, -⟩ | ⟨-, hlarge⟩ := hb
    · rw [h, List.head?_cons]
    · rw [h] at hlarge
      exact absurd hlarge (by decide)

theorem holeSpans_append {offset : Nat} {bs rest : List UInt8}
    (h : ∀ b ∈ bs, Char.ofUInt8 b ≠ '{') :
    holeSpans offset (bs ++ rest) = holeSpans (offset + bs.length) rest := by
  induction bs generalizing offset with
  | nil => rfl
  | cons b bs ih =>
    obtain ⟨hb, hbs⟩ := List.forall_mem_cons.1 h
    rw [List.cons_append, holeSpans.eq_def]
    simp only [if_pos hb, ih hbs, List.length_cons]
    congr 1
    omega

/-- The scan over bytes finds a hole at the beginning and goes on behind it. -/
theorem holeSpans_hole {offset : Nat} (h : IsName name) :
    holeSpans offset (bytes ('{' :: (name ++ '}' :: after))) =
      (offset + 1, offset + 1 + name.length) ::
        holeSpans (offset + name.length + 2) (bytes after) := by
  have hlength := h.length_bytes
  have hmap := h.map_bytes
  cases name with
  | nil => exact h.elim
  | cons c cs =>
    obtain ⟨hstart, hcs⟩ := h
    cases hbytes : bytes (c :: cs) with
    | nil => simp [hbytes] at hlength
    | cons first rest =>
      rw [hbytes, List.map_cons] at hmap
      obtain ⟨rfl, rfl⟩ := List.cons.inj hmap
      have hrest : ∀ b ∈ rest, continuesName b := fun b hb => hcs _ (List.mem_map_of_mem hb)
      have hopen : bytes ('{' :: (Char.ofUInt8 first :: rest.map Char.ofUInt8 ++ '}' :: after)) =
          123 :: first :: (rest ++ 125 :: bytes after) := by
        rw [bytes_cons, bytes_append, hbytes]
        rfl
      have hstop : ¬continuesName 125 := by decide
      have hbraces : Char.ofUInt8 123 = '{' ∧ Char.ofUInt8 125 = '}' := by decide
      have hsize : offset + 2 + rest.length = offset + 1 + (rest.length + 1) := by omega
      rw [hopen, holeSpans.eq_def]
      simp [List.takeWhile_append_of_pos hrest, List.dropWhile_append_of_pos hrest, hstop,
        isNameStart_iff.2 hstart, hbraces, hsize]
      congr 1
      omega

/-- The scan over bytes goes on by all bytes of a character where no hole begins. -/
theorem holeSpans_skip {offset : Nat} (h : ¬OpensHole (c :: cs)) :
    holeSpans offset (bytes (c :: cs)) = holeSpans (offset + c.utf8Size) (bytes cs) := by
  by_cases hc : c = '{'
  · subst hc
    obtain ⟨b, bs, hbytes, ⟨hb, rfl⟩ | ⟨hlarge, -⟩⟩ := bytes_cons_cases '{' cs
    case inr => exact absurd hlarge (by decide)
    have hsize : '{'.utf8Size = 1 := by decide
    rw [hbytes, hsize, holeSpans.eq_def]
    simp only [hb, ne_eq, not_true_eq_false, if_false]
    cases cs with
    | nil =>
      rw [bytes_nil, holeSpans.eq_def]
    | cons d ds =>
      obtain ⟨first, rest, hrest, hfirst⟩ := bytes_cons_cases d ds
      rw [hrest]
      dsimp only
      split_ifs with hstart hclose
      · -- What the scan over bytes takes for a hole is one.
        refine absurd ?_ h
        obtain ⟨rfl, rfl⟩ | ⟨-, hlarge⟩ := hfirst
        · rw [bytes_dropWhile] at hclose
          exact opensHole_of_close hstart (head?_of_bytes hclose)
        · exact absurd (toNat_lt_of_isNameStart hstart) (by omega)
      · rfl
      · rfl
  · rw [bytes_cons, holeSpans_append, String.length_utf8EncodeChar]
    intro b hb hopen
    obtain ⟨b', rfl, hencode⟩ | ⟨-, hlarge⟩ := utf8EncodeChar_cases c
    · rw [hencode, List.mem_singleton] at hb
      exact hc (hb ▸ hopen)
    · have hsmall := hlarge b hb
      rw [hopen] at hsmall
      exact absurd hsmall (by decide)

end

/-! ## The scan cuts out names -/

/-- The offsets `span` of the `name` of a hole in `template`, which lie between characters. -/
def CutsOut (template : String) (span : Nat × Nat) (name : String) : Prop :=
  ∃ before after : String, template = before ++ hole name ++ after ∧
    span.1 = (before ++ "\x7b").utf8ByteSize ∧ span.2 = (before ++ "\x7b" ++ name).utf8ByteSize

theorem bytes_toList (s : String) : s.toByteArray.data.toList = bytes s.toList := by
  rw [← String.utf8Encode_toList]
  exact List.toList_data_toByteArray

theorem length_bytes (s : String) : (bytes s.toList).length = s.utf8ByteSize := by
  rw [← bytes_toList, ← String.size_toByteArray]
  rfl

theorem cutsOut_holeSpans (before text : List Char) :
    List.Forall₂ (CutsOut (String.ofList (before ++ text)))
      (holeSpans (bytes before).length (bytes text))
      ((placeholderNames text).map String.ofList) := by
  induction text using holes_induction generalizing before with
  | nil =>
    rw [bytes_nil, holeSpans.eq_def]
    exact .nil
  | hole name after hname ih =>
    have hbraces : '{'.utf8Size = 1 ∧ '}'.utf8Size = 1 := by decide
    have hsize : (bytes (before ++ '{' :: (name ++ ['}']))).length =
        (bytes before).length + name.length + 2 := by
      simp [bytes_append, bytes_cons, hname.length_bytes, hbraces]
      omega
    have hbehind := ih (before ++ '{' :: (name ++ ['}']))
    rw [hsize] at hbehind
    rw [placeholderNames_hole hname, holeSpans_hole hname]
    refine .cons ⟨String.ofList before, String.ofList after, ?_, ?_, ?_⟩ (by simpa using hbehind)
    · apply String.toList_inj.1
      simp [toList_hole]
    · simp [← length_bytes, bytes_append, bytes_cons, hbraces]
    · simp [← length_bytes, bytes_append, bytes_cons, hname.length_bytes, hbraces, Nat.add_assoc]
  | skip c cs h ih =>
    have hsize : (bytes (before ++ [c])).length = (bytes before).length + c.utf8Size := by
      simp [bytes_append, bytes_cons]
    have hbehind := ih (before ++ [c])
    rw [hsize] at hbehind
    rw [placeholderNames_skip h, holeSpans_skip h]
    simpa using hbehind

/-- The scan reads exactly the leftmost holes of `template` that do not overlap. The same scan over
bytes cuts their names out of `template` between characters. The placeholders of a call are those of
the template that is called, whatever it ends in, and then the parameters. -/
theorem placeholders_exact (template : String) :
    (∀ names : List String,
      placeholders template = names ↔ FindsHoles template.toList (names.map String.toList)) ∧
    List.Forall₂ (CutsOut template) (holeSpans 0 template.toByteArray.data.toList)
      (placeholders template) ∧
    ∀ parameters : List String, (∀ p ∈ parameters, IsName p.toList) →
      placeholders (call template parameters) = placeholders template ++ parameters := by
  refine ⟨fun names => ?_, ?_, fun parameters h => placeholders_call h⟩
  · rw [findsHoles_iff, placeholders]
    constructor
    · rintro rfl
      simp
    · intro h
      rw [h]
      simp
  · have hspans := cutsOut_holeSpans [] template.toList
    rw [List.nil_append, String.ofList_toList] at hspans
    rw [bytes_toList]
    exact hspans

/-- A brace in front of a hole, a name with an underscore in it, a character of two bytes, and a
brace at the end that is not closed. -/
theorem placeholders_of_unfinished_hole :
    placeholders "\x7b\x7bx\x7d \x7ba_b\x7d é\x7b_y2\x7d\x7bthis" = ["x", "_y2"] ∧
      placeholders (call "\x7b\x7bx\x7d \x7ba_b\x7d é\x7b_y2\x7d\x7bthis" ["url", "settings"]) =
        ["x", "_y2", "url", "settings"] :=
  ⟨by decide, (placeholders_exact _).2.2 ["url", "settings"] (by decide)⟩

end ScriptNaming.Template
