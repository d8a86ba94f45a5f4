import ScriptNaming.Document.Reading
import ScriptNaming.Document.Writing

/-!
# Documents read back

Reading the JSON value of a document gives the document back, and so a value that is read and
written again stays as it is from then on (`GraphDocument.reads_back`). A reader that does so for
all that a writer writes is said to undo it (`Json.Undoes`): this goes through lists, optional
values and fields, and so from arguments up to the whole document, record by record.
-/

namespace ScriptNaming

namespace Json

/-! ## Records -/

/-- The `members` of an object state the fields `field`: each has the value under its name. -/
def Fields.State (field : Fields) (members : List (String × Json)) : Prop :=
  ∀ x ∈ members, field x.1 = some x.2

theorem namesOnce_of_nodup {members : List (String × Json)} (h : (members.map Prod.fst).Nodup)
    (names : List String) : namesOnce names members := by
  refine List.all_eq_true.2 fun name _ => decide_eq_true ?_
  have hcount := List.nodup_iff_count.1 h name
  rwa [List.count, List.countP_map, List.countP_eq_length_filter] at hcount

theorem state_memberValue? {members : List (String × Json)} (h : (members.map Prod.fst).Nodup) :
    Fields.State (memberValue? members) members := by
  induction members with
  | nil => exact fun _ hx => nomatch hx
  | cons y members ih =>
    obtain ⟨hy, hrest⟩ := List.nodup_cons.1 h
    intro x hx
    rcases List.mem_cons.1 hx with rfl | hx
    · exact List.lookup_cons_self
    · have hne : x.1 ≠ y.1 := fun heq => hy (heq ▸ List.mem_map_of_mem hx)
      rw [memberValue?, List.lookup_cons, beq_eq_false_iff_ne.2 hne]
      exact ih hrest x hx

section

variable {α : Type} {a : α} {members : List (String × Json)} {names : List String}
  {read : Fields → Option α} (written : List String) (hwritten : members.map Prod.fst = written)
  (hnodup : written.Nodup) (h : ∀ field : Fields, field.State members → read field = some a)

include hwritten hnodup h

/-- An object whose `members` have different names is read through the fields that these state. -/
theorem bind_fields? : (fields? names (.obj members) >>= read) = some a := by
  subst hwritten
  rw [fields?, if_pos (namesOnce_of_nodup hnodup names)]
  exact h _ (state_memberValue? hnodup)

/-- So is an open record, if all its members are known. -/
theorem bind_openFields? (hknown : written ⊆ names) {levels : Nat} :
    (openFields? names levels (.obj members) >>= read) = some a := by
  subst hwritten
  have hcontains : ∀ x ∈ members, names.contains x.1 := fun x hx =>
    List.contains_iff_mem.2 (hknown (List.mem_map_of_mem hx))
  rw [openFields?, if_pos]
  · exact h _ (state_memberValue? hnodup)
  · refine Bool.and_eq_true_iff.2 ⟨namesOnce_of_nodup hnodup names, List.all_eq_true.2 ?_⟩
    exact fun x hx => Bool.or_eq_true_iff.2 (.inl (hcontains x hx))

end

/-! ## Readers and writers -/

/-- The reader `read` undoes the writer `write`: it reads every value that is written, as what was
written. -/
def Undoes {α : Type} (read : Json → Option α) (write : α → Json) : Prop :=
  ∀ a, read (write a) = some a

theorem string?_undoes : Undoes string? .str := fun _ => rfl

theorem bool?_undoes : Undoes bool? .bool := fun _ => rfl

section

variable {α : Type} {read : Json → Option α} {write : α → Json} (h : Undoes read write)

include h

theorem Undoes.list? : Undoes (list? read) (ofList write) := by
  intro as
  rw [ofList, Json.list?, List.mapM_map, show read ∘ write = some from funext h]
  induction as with
  | nil => rfl
  | cons a as ih =>
    rw [List.mapM_cons, ih]
    rfl

/-- A missing value is written as `null`, which must not be what a value is written as. -/
theorem Undoes.nullable? (hnull : ∀ a, write a ≠ .null) :
    Undoes (nullable? read) (ofOption write) := by
  rintro (_ | a)
  · rfl
  · rw [ofOption, Option.elim_some, Json.nullable?, h, Option.map_some]
    exact fun heq => hnull a heq

theorem Undoes.required? (a : α) : required? read (some (write a)) = some a := h a

theorem Undoes.orElse? (missing a : α) : orElse? read missing (some (write a)) = some a := h a

theorem Undoes.orEmpty? (as : List α) : orEmpty? read (some (ofList write as)) = some as :=
  h.list?.orElse? [] as

theorem Undoes.optional? (hnull : ∀ a, write a ≠ .null) (o : Option α) :
    optional? read (some (ofOption write o)) = some o :=
  (h.nullable? hnull).orElse? none o

end

theorem ofList_ne_null {α : Type} (write : α → Json) (as : List α) : ofList write as ≠ .null :=
  nofun

end Json

open Json

/-! ## Arguments, parameters and references -/

/-- No two shapes of arguments are written alike, and every whole number of 64 bits is in range. -/
theorem AttributeValue.ofJson?_undoes : Undoes AttributeValue.ofJson? AttributeValue.toJson := by
  intro argument
  cases argument with
  | null => rfl
  | bool value => rfl
  | int value =>
    rw [toJson, ofJson?, if_pos ⟨value.minValue_le_toInt, value.toInt_le⟩, Int64.ofInt_toInt]
  | str value => rfl

theorem Attribute.ofJson?_undoes : Undoes Attribute.ofJson? Attribute.toJson := by
  intro a
  refine bind_fields? ["name", "args"] rfl (by decide) fun field h => ?_
  simp only [Fields.State, List.forall_mem_cons] at h
  simp only [h, string?_undoes.required?, AttributeValue.ofJson?_undoes.orEmpty?]
  -- What is put together from the fields of `a` is `a`.
  rfl

theorem Parameter.ofJson?_undoes : Undoes Parameter.ofJson? Parameter.toJson := by
  intro p
  refine bind_fields? ["name", "type"] rfl (by decide) fun field h => ?_
  simp only [Fields.State, List.forall_mem_cons] at h
  simp only [h, string?_undoes.required?]
  rfl

theorem Accessibility.ofJson?_undoes : Undoes Accessibility.ofJson? Accessibility.toJson :=
  lookup_tag

theorem TypeKind.ofJson?_undoes : Undoes TypeKind.ofJson? TypeKind.toJson := lookup_tag

theorem MemberReference.ofJson?_undoes : Undoes MemberReference.ofJson? MemberReference.toJson := by
  intro r
  refine bind_fields? ["type", "name", "parameters"] rfl (by decide) fun field h => ?_
  simp only [Fields.State, List.forall_mem_cons] at h
  simp only [h, string?_undoes.required?, string?_undoes.list?.optional? (ofList_ne_null _)]
  rfl

theorem Accessibility.optional?_undoes (a : Option Accessibility) :
    optional? ofJson? (some (ofOption toJson a)) = some a :=
  ofJson?_undoes.optional? (fun _ => nofun) a

theorem MemberReference.optional?_undoes (r : Option MemberReference) :
    optional? ofJson? (some (ofOption toJson r)) = some r :=
  ofJson?_undoes.optional? (fun _ => nofun) r

/-! ## Members

The modifier flags of a member stand among its fields, and are read from there. -/

theorem ModifierFlags.ofFields?_eq {f : ModifierFlags} {field : Fields}
    (h : field.State f.members) : ofFields? field = some f := by
  simp only [Fields.State, members, List.forall_mem_cons] at h
  simp only [ofFields?, h, bool?_undoes.orElse?]
  rfl

theorem MethodEntry.ofJson?_undoes : Undoes MethodEntry.ofJson? MethodEntry.toJson := by
  intro m
  refine bind_openFields? ["name", "accessibility", "isStatic", "isVirtual", "isAbstract",
    "isSealed", "parameters", "typeParameters", "overrides", "implements", "attributes"]
    rfl (by decide) (fun field h => ?_) (by decide)
  -- The flags are stated between the fields in front and those at the back.
  obtain ⟨h, hback⟩ := List.forall_mem_append.1 h
  obtain ⟨hfront, hflags⟩ := List.forall_mem_append.1 h
  simp only [List.forall_mem_cons] at hfront hback
  simp only [hfront, hback, ModifierFlags.ofFields?_eq hflags, string?_undoes.required?,
    Accessibility.ofJson?_undoes.orElse?, Parameter.ofJson?_undoes.orEmpty?,
    string?_undoes.orEmpty?, MemberReference.optional?_undoes,
    MemberReference.ofJson?_undoes.orEmpty?, Attribute.ofJson?_undoes.orEmpty?]
  rfl

theorem PropertyEntry.ofJson?_undoes : Undoes PropertyEntry.ofJson? PropertyEntry.toJson := by
  intro p
  refine bind_openFields? ["name", "type", "accessibility", "isStatic", "isVirtual", "isAbstract",
    "isSealed", "parameters", "hasGetter", "hasSetter", "getterAccessibility",
    "setterAccessibility", "getterAttributes", "setterAttributes", "overrides", "implements",
    "attributes"] rfl (by decide) (fun field h => ?_) (by decide)
  obtain ⟨h, hback⟩ := List.forall_mem_append.1 h
  obtain ⟨hfront, hflags⟩ := List.forall_mem_append.1 h
  simp only [List.forall_mem_cons] at hfront hback
  simp only [hfront, hback, ModifierFlags.ofFields?_eq hflags, string?_undoes.required?,
    string?_undoes.orElse?, Accessibility.ofJson?_undoes.orElse?, bool?_undoes.orElse?,
    Parameter.ofJson?_undoes.orEmpty?, Accessibility.optional?_undoes,
    MemberReference.optional?_undoes, MemberReference.ofJson?_undoes.orEmpty?,
    Attribute.ofJson?_undoes.orEmpty?]
  rfl

theorem FieldEntry.ofJson?_undoes : Undoes FieldEntry.ofJson? FieldEntry.toJson := by
  intro f
  refine bind_fields? ["name", "accessibility", "isStatic", "attributes"] rfl (by decide)
    fun field h => ?_
  simp only [Fields.State, List.forall_mem_cons] at h
  simp only [h, string?_undoes.required?, Accessibility.ofJson?_undoes.orElse?,
    bool?_undoes.orElse?, Attribute.ofJson?_undoes.orEmpty?]
  rfl

theorem EventEntry.ofJson?_undoes : Undoes EventEntry.ofJson? EventEntry.toJson := by
  intro e
  refine bind_openFields? ["name", "type", "accessibility", "isStatic", "isVirtual", "isAbstract",
    "isSealed", "adderAttributes", "removerAttributes", "overrides", "implements", "attributes"]
    rfl (by decide) (fun field h => ?_) (by decide)
  obtain ⟨h, hback⟩ := List.forall_mem_append.1 h
  obtain ⟨hfront, hflags⟩ := List.forall_mem_append.1 h
  simp only [List.forall_mem_cons] at hfront hback
  simp only [hfront, hback, ModifierFlags.ofFields?_eq hflags, string?_undoes.required?,
    string?_undoes.orElse?, Accessibility.ofJson?_undoes.orElse?, MemberReference.optional?_undoes,
    MemberReference.ofJson?_undoes.orEmpty?, Attribute.ofJson?_undoes.orEmpty?]
  rfl

/-! ## Types and documents -/

theorem TypeEntry.ofJson?_undoes : Undoes TypeEntry.ofJson? TypeEntry.toJson := by
  intro t
  refine bind_fields? ["name", "namespace", "assembly", "kind", "accessibility", "isStatic",
    "typeParameters", "declaringType", "baseTypes", "attributes", "methods", "properties",
    "fields", "events"] rfl (by decide) fun field h => ?_
  simp only [Fields.State, List.forall_mem_cons] at h
  simp only [h, string?_undoes.required?, string?_undoes.orElse?,
    TypeKind.ofJson?_undoes.orElse?, Accessibility.ofJson?_undoes.orElse?, bool?_undoes.orElse?,
    string?_undoes.orEmpty?, string?_undoes.optional? (fun _ => nofun),
    Attribute.ofJson?_undoes.orEmpty?, MethodEntry.ofJson?_undoes.orEmpty?,
    PropertyEntry.ofJson?_undoes.orEmpty?, FieldEntry.ofJson?_undoes.orEmpty?,
    EventEntry.ofJson?_undoes.orEmpty?]
  rfl

namespace GraphDocument

theorem ofJson?_undoes : Undoes GraphDocument.ofJson? GraphDocument.toJson := by
  intro d
  refine bind_fields? ["assemblies", "types"] rfl (by decide) fun field h => ?_
  simp only [Fields.State, List.forall_mem_cons] at h
  simp only [h, string?_undoes.orEmpty?, TypeEntry.ofJson?_undoes.orEmpty?]
  rfl

/-- The value of a document after `value` is read as one and written again: it states every
field. -/
def restated? (value : Json) : Option Json := (ofJson? value).map toJson

/-- **Documents read back**: what is written for a document is read as that document, so that
reading and writing a value a second time changes nothing. -/
theorem reads_back : (∀ d : GraphDocument, ofJson? d.toJson = some d) ∧
    ∀ value, (restated? value).bind restated? = restated? value := by
  refine ⟨ofJson?_undoes, fun value => ?_⟩
  rw [restated?]
  cases ofJson? value with
  | none => rfl
  | some d => rw [Option.map_some, Option.bind_some, restated?, ofJson?_undoes, Option.map_some]

end GraphDocument

end ScriptNaming
