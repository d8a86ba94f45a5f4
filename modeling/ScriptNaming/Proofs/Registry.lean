import ScriptNaming.NameRegistry
import Mathlib.Data.List.Forall2

/-!
# Names in registries

What a registry is used for depends on nothing but the names that are taken in it
(`SameNames.allocate`). The lemmas here say which names those are after a name is added or
registries are merged, and that an allocated name is the first that is not one of them (`FirstFree`,
`not_contains_of_allocate`).
-/

namespace ScriptNaming.NameRegistry

@[simp] theorem not_contains_empty (name : String) : ¬(∅ : NameRegistry).contains name := by
  change ¬(∅ : Std.ExtTreeMap String (List MemberId)).contains name = true
  simp

theorem contains_add {names : NameRegistry} {name other : String} {m : MemberId} :
    (names.add name m).contains other ↔ name = other ∨ names.contains other := by
  simp only [contains, add, Std.ExtTreeMap.contains_insert, Bool.or_eq_true, beq_iff_eq,
    Std.compare_eq_iff_eq]

theorem contains_addAll {names : NameRegistry} {name other : String} {ms : List MemberId} :
    (names.addAll name ms).contains other ↔ name = other ∨ names.contains other := by
  simp only [contains, addAll, Std.ExtTreeMap.contains_insert, Bool.or_eq_true, beq_iff_eq,
    Std.compare_eq_iff_eq]

/-! ## Merging -/

theorem contains_foldl_addAll {entries : List (String × List MemberId)} {names : NameRegistry}
    {name : String} :
    (entries.foldl (fun names e => names.addAll e.1 e.2) names).contains name ↔
      name ∈ entries.map Prod.fst ∨ names.contains name := by
  induction entries generalizing names with
  | nil => simp
  | cons e entries ih =>
    rw [List.foldl_cons, ih, contains_addAll, List.map_cons, List.mem_cons]
    constructor
    · rintro (h | rfl | h)
      · exact .inl (.inr h)
      · exact .inl (.inl rfl)
      · exact .inr h
    · rintro ((rfl | h) | h)
      · exact .inr (.inl rfl)
      · exact .inl h
      · exact .inr (.inr h)

theorem contains_merge {names other : NameRegistry} {name : String} :
    (names.merge other).contains name ↔ other.contains name ∨ names.contains name := by
  rw [merge, Std.ExtTreeMap.foldl_eq_foldl_toList, contains_foldl_addAll,
    Std.ExtTreeMap.map_fst_toList_eq_keys, Std.ExtTreeMap.mem_keys]
  rfl

theorem contains_foldl_merge {registries : List NameRegistry} {names : NameRegistry}
    {name : String} :
    (registries.foldl merge names).contains name ↔
      (∃ r ∈ registries, r.contains name) ∨ names.contains name := by
  induction registries generalizing names with
  | nil => simp
  | cons r registries ih =>
    simp only [List.foldl_cons, ih, contains_merge, List.mem_cons, exists_eq_or_imp,
      or_left_comm, or_assoc]

/-- The union of `registries` has the names that some of them have. -/
theorem contains_merged {registries : List NameRegistry} {name : String} :
    (merged registries).contains name ↔ ∃ r ∈ registries, r.contains name := by
  simp [merged, contains_foldl_merge]

/-! ## Allocation -/

/-- A name with a suffix to `base` is found by trying the suffixes from the first one. -/
theorem allocateSuffixed_eq_ok_iff {names : NameRegistry} {base name : String} :
    names.allocateSuffixed base = .ok name ↔ ∃ i < maxNameAllocationAttempts,
      name = suffixed base i ∧ names.contains (suffixed base i) = false ∧
        ∀ j < i, names.contains (suffixed base j) := by
  have hfound : names.allocateSuffixed base = .ok name ↔
      firstFree? names.contains (suffixed base) maxNameAllocationAttempts 0 = some name := by
    rw [allocateSuffixed]
    cases firstFree? names.contains (suffixed base) maxNameAllocationAttempts 0 with
    | none => exact ⟨nofun, nofun⟩
    | some found => rw [Except.ok.injEq, Option.some.injEq]
  rw [hfound, firstFree?_eq_some_iff]
  simp only [Nat.zero_add]

/-- The name is the one to be taken for an optional base: the base itself where it is given and
free, and otherwise the base, or nothing, with the first suffix that makes a free name. -/
inductive FirstFree (names : NameRegistry) : Option String → String → Prop
  | base {name : String} (free : names.contains name = false) : FirstFree names (some name) name
  | suffixed {base : Option String} {i : Nat}
    (taken : ∀ name, base = some name → names.contains name)
    (free : names.contains (suffixed (base.getD "") i) = false)
    (lower : ∀ j < i, names.contains (suffixed (base.getD "") j)) :
    FirstFree names base (suffixed (base.getD "") i)

theorem firstFree_of_allocate {names : NameRegistry} {base : Option String} {name : String}
    (h : names.allocate base = .ok name) : names.FirstFree base name := by
  have hsuffixed (hbase : ∀ name, base = some name → names.contains name)
      (h : names.allocateSuffixed (base.getD "") = .ok name) : names.FirstFree base name := by
    obtain ⟨i, -, rfl, hfree, hlower⟩ := allocateSuffixed_eq_ok_iff.1 h
    exact .suffixed hbase hfree hlower
  cases base with
  | none => exact hsuffixed nofun h
  | some base =>
    rw [allocate] at h
    split at h
    · rename_i htaken
      exact hsuffixed (fun _ heq => Option.some.inj heq ▸ htaken) h
    · rename_i hfree
      obtain rfl := Except.ok.inj h
      exact .base (Bool.eq_false_iff.2 hfree)

theorem FirstFree.free {names : NameRegistry} {base : Option String} {name : String}
    (h : names.FirstFree base name) : names.contains name = false := by
  cases h with
  | base free => exact free
  | suffixed _ free _ => exact free

/-- An allocated `name` is not taken. -/
theorem not_contains_of_allocate {names : NameRegistry} {base : Option String} {name : String}
    (h : names.allocate base = .ok name) : ¬names.contains name :=
  Bool.eq_false_iff.1 (firstFree_of_allocate h).free

/-- An allocated `name` begins with what was asked for, `base`. -/
theorem exists_append_of_allocate {names : NameRegistry} {base name : String}
    (h : names.allocate (some base) = .ok name) : ∃ suffix, name = base ++ suffix := by
  cases firstFree_of_allocate h with
  | base => exact ⟨"", String.append_empty.symm⟩
  | @suffixed _ i => exact ⟨"$" ++ Base62.encode i, String.append_assoc⟩

/-! ## The same names -/

/-- The same names are taken in `names` and in `names'`. -/
def SameNames (names names' : NameRegistry) : Prop :=
  ∀ name, names'.contains name = names.contains name

theorem SameNames.refl (names : NameRegistry) : names.SameNames names := fun _ => rfl

theorem SameNames.allocate {names names' : NameRegistry} (h : names.SameNames names')
    (base : Option String) : names'.allocate base = names.allocate base := by
  have hcontains : names'.contains = names.contains := funext h
  simp only [NameRegistry.allocate, allocateSuffixed, hcontains]

theorem SameNames.add {names names' : NameRegistry} (h : names.SameNames names') (name : String)
    (m m' : MemberId) : (names.add name m).SameNames (names'.add name m') := by
  intro other
  rw [Bool.eq_iff_iff, contains_add, contains_add, h]

theorem SameNames.merged {registries registries' : List NameRegistry}
    (h : List.Forall₂ SameNames registries registries') :
    (merged registries).SameNames (merged registries') := by
  intro name
  rw [Bool.eq_iff_iff, contains_merged, contains_merged]
  induction h with
  | nil => simp
  | cons hr _ ih => simp only [List.mem_cons, exists_eq_or_imp, hr name, ih]

end ScriptNaming.NameRegistry
