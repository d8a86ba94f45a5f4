import ScriptNaming.Proofs.Allocation
import ScriptNaming.Proofs.DiagnosticLogs

/-!
# Unions of registries

Merging registries makes their union: a name is held by all that hold it in one of them, each once
and in the order in which they first come up (`NameRegistry.IsUnion`). Neither the order nor the
repetition of the registries makes a difference to what is asked of the union
(`NameRegistry.SameAnswers`).

The name and the holders that one registry adds to another are added name by name. What comes of it
is independent of the order of the names (`NameRegistry.foldl_addAll_eq_merge`), and nothing comes
of it if the registry has been merged in before, directly or as a part of another one
(`NameRegistry.HasMerged`).
-/

namespace ScriptNaming

theorem nodup_eraseDups {α : Type} [BEq α] [LawfulBEq α] (l : List α) : l.eraseDups.Nodup := by
  induction l using List.reverseRecOn with
  | nil => exact List.nodup_nil
  | append_singleton l a ih =>
    rw [eraseDups_append_singleton]
    split
    · exact ih
    · rename_i ha
      exact ih.append (List.nodup_singleton a) (by simpa using ha)

namespace NameRegistry

/-! ## Holders -/

theorem unionHolders_of_subset {holders ms : List MemberId} (h : ms ⊆ holders) :
    unionHolders holders ms = holders := by
  induction ms with
  | nil => rfl
  | cons m ms ih =>
    obtain ⟨hm, hms⟩ := List.cons_subset.1 h
    rw [unionHolders, if_pos (List.contains_iff_mem.2 hm), ih hms]

theorem mem_unionHolders {holders ms : List MemberId} {k : MemberId} :
    k ∈ unionHolders holders ms ↔ k ∈ holders ∨ k ∈ ms := by
  induction ms generalizing holders with
  | nil => simp [unionHolders]
  | cons m ms ih =>
    have hstep : k ∈ (if holders.contains m then holders else holders ++ [m]) ↔
        k ∈ holders ∨ k = m := by
      split
      · rename_i hm
        refine ⟨.inl, ?_⟩
        rintro (hk | rfl)
        · exact hk
        · exact List.contains_iff_mem.1 hm
      · simp
    rw [unionHolders, ih, hstep, List.mem_cons, or_assoc]

/-- The holders `ms` that are added to those in `seen` come up after these. -/
theorem unionHolders_eraseDups (seen ms : List MemberId) :
    unionHolders seen.eraseDups ms = (seen ++ ms).eraseDups := by
  induction ms generalizing seen with
  | nil => rw [List.append_nil, unionHolders]
  | cons m ms ih =>
    have hstep : (if seen.eraseDups.contains m then seen.eraseDups else seen.eraseDups ++ [m]) =
        (seen ++ [m]).eraseDups := by
      simp only [eraseDups_append_singleton, List.contains_iff_mem, List.mem_eraseDups]
    rw [unionHolders, hstep, ih, List.append_assoc, List.singleton_append]

theorem holders_add (names : NameRegistry) (name other : String) (m : MemberId) :
    (names.add name m).holders other =
      if name = other then names.holders name ++ [m] else names.holders other := by
  simp only [holders, add, Std.ExtTreeMap.getElem?_insert, Std.compare_eq_iff_eq]
  split <;> rfl

theorem holders_addAll (names : NameRegistry) (name other : String) (ms : List MemberId) :
    (names.addAll name ms).holders other =
      if name = other then unionHolders (names.holders name) ms else names.holders other := by
  simp only [holders, addAll, Std.ExtTreeMap.getElem?_insert, Std.compare_eq_iff_eq]
  split <;> rfl

/-- Registries `names` and `names'` with the same names and the same holders of each are the
same. -/
theorem eq_of_holders {names names' : NameRegistry} (hnames : names.SameNames names')
    (hholders : ∀ name, names'.holders name = names.holders name) : names' = names := by
  refine congrArg NameRegistry.mk (Std.ExtTreeMap.ext_getElem? fun name => ?_)
  have hsome : names'.table[name]?.isSome = names.table[name]?.isSome := by
    rw [← Std.ExtTreeMap.contains_eq_isSome_getElem?, ← Std.ExtTreeMap.contains_eq_isSome_getElem?]
    exact hnames name
  have hheld : names'.table[name]?.getD [] = names.table[name]?.getD [] := hholders name
  cases h : names.table[name]? with
  | none =>
    rw [h] at hsome
    exact Option.isNone_iff_eq_none.1 (Option.isSome_eq_false_iff.1 hsome)
  | some ms =>
    rw [h] at hsome hheld
    obtain ⟨ms', h'⟩ := Option.isSome_iff_exists.1 hsome
    rw [h'] at hheld ⊢
    exact congrArg some hheld

/-! ## Merging -/

section

variable {entries : List (String × List MemberId)} (names : NameRegistry) {name : String}

theorem holders_foldl_addAll_of_not_mem (h : name ∉ entries.map Prod.fst) :
    (entries.foldl (fun names e => names.addAll e.1 e.2) names).holders name =
      names.holders name := by
  induction entries generalizing names with
  | nil => rfl
  | cons e entries ih =>
    rw [List.map_cons, List.mem_cons, not_or] at h
    rw [List.foldl_cons, ih _ h.2, holders_addAll, if_neg (Ne.symm h.1)]

/-- A `name` that comes up once has its further holders `ms` from there. -/
theorem holders_foldl_addAll_of_mem (hnodup : (entries.map Prod.fst).Nodup) {ms : List MemberId}
    (h : (name, ms) ∈ entries) :
    (entries.foldl (fun names e => names.addAll e.1 e.2) names).holders name =
      unionHolders (names.holders name) ms := by
  obtain ⟨before, after, rfl⟩ := List.append_of_mem h
  rw [List.map_append, List.map_cons] at hnodup
  obtain ⟨-, hafter, hdisjoint⟩ := List.nodup_append'.1 hnodup
  have hbefore : name ∉ before.map Prod.fst := fun hmem => hdisjoint hmem (.head _)
  rw [List.foldl_append, List.foldl_cons,
    holders_foldl_addAll_of_not_mem _ (List.nodup_cons.1 hafter).1, holders_addAll, if_pos rfl,
    holders_foldl_addAll_of_not_mem _ hbefore]

variable {other : NameRegistry} (hentries : entries.Perm other.table.toList)

include hentries

theorem holders_foldl_addAll : (entries.foldl (fun names e => names.addAll e.1 e.2) names).holders
    name = unionHolders (names.holders name) (other.holders name) := by
  have hkeys : (entries.map Prod.fst).Perm other.table.keys := by
    rw [← Std.ExtTreeMap.map_fst_toList_eq_keys]
    exact hentries.map Prod.fst
  cases hname : other.table[name]? with
  | none =>
    have hnot : name ∉ entries.map Prod.fst := by
      rw [hkeys.mem_iff, Std.ExtTreeMap.mem_keys, Std.ExtTreeMap.mem_iff_isSome_getElem?, hname]
      exact nofun
    rw [holders_foldl_addAll_of_not_mem _ hnot, holders, holders, hname]
    rfl
  | some ms =>
    have hmem : (name, ms) ∈ entries :=
      hentries.mem_iff.2 (Std.ExtTreeMap.mem_toList_iff_getElem?_eq_some.2 hname)
    have hnodup := hkeys.nodup_iff.2 Std.ExtTreeMap.nodup_keys
    have hheld : other.holders name = ms := by
      rw [holders, hname]
      rfl
    rw [holders_foldl_addAll_of_mem _ hnodup hmem, hheld]

/-- The names of the registry that is merged in may be gone through in any order. -/
theorem foldl_addAll_eq_merge :
    entries.foldl (fun names e => names.addAll e.1 e.2) names = names.merge other := by
  have hmerge : names.merge other =
      other.table.toList.foldl (fun names e => names.addAll e.1 e.2) names := by
    rw [merge, Std.ExtTreeMap.foldl_eq_foldl_toList]
  rw [hmerge]
  refine eq_of_holders (fun name => ?_) fun name => ?_
  · rw [Bool.eq_iff_iff, contains_foldl_addAll, contains_foldl_addAll,
      (hentries.map Prod.fst).mem_iff]
  · rw [holders_foldl_addAll names hentries, holders_foldl_addAll names (.refl _)]

omit hentries

theorem holders_merge (names other : NameRegistry) (name : String) :
    (names.merge other).holders name =
      unionHolders (names.holders name) (other.holders name) := by
  rw [← foldl_addAll_eq_merge names (.refl _), holders_foldl_addAll names (.refl _)]

end

/-- Merging goes on from the holders in `seen` that have come up so far. -/
theorem holders_foldl_merge {registries : List NameRegistry} {names : NameRegistry}
    {name : String} {seen : List MemberId} (h : names.holders name = seen.eraseDups) :
    (registries.foldl merge names).holders name =
      (seen ++ registries.flatMap (holders · name)).eraseDups := by
  induction registries generalizing names seen with
  | nil => rw [List.flatMap_nil, List.append_nil, List.foldl_nil, h]
  | cons r registries ih =>
    rw [List.foldl_cons, List.flatMap_cons, ← List.append_assoc]
    refine ih ?_
    rw [holders_merge, h, unionHolders_eraseDups]

theorem holders_merged (registries : List NameRegistry) (name : String) :
    (merged registries).holders name =
      (registries.flatMap (holders · name)).eraseDups := by
  have hempty : (∅ : NameRegistry).holders name = [].eraseDups := by
    change (∅ : Std.ExtTreeMap String (List MemberId))[name]?.getD [] = _
    rw [Std.ExtTreeMap.getElem?_empty]
    rfl
  rw [merged, holders_foldl_merge hempty, List.nil_append]

/-! ## Merging again -/

/-- A registry holds all that another one holds. -/
structure Includes (names other : NameRegistry) : Prop where
  contains : ∀ ⦃name⦄, other.contains name → names.contains name
  holders : ∀ name, other.holders name ⊆ names.holders name

theorem Includes.trans {names other further : NameRegistry} (h : names.Includes other)
    (h' : other.Includes further) : names.Includes further where
  contains _ hname := h.contains (h'.contains hname)
  holders name := List.Subset.trans (h'.holders name) (h.holders name)

theorem includes_add (names : NameRegistry) (name : String) (m : MemberId) :
    (names.add name m).Includes names where
  contains _ h := contains_add.2 (.inr h)
  holders other := by
    rw [holders_add]
    split
    · rename_i hname
      exact hname ▸ List.subset_append_left _ _
    · exact List.Subset.refl _

theorem includes_merge_left (names other : NameRegistry) : (names.merge other).Includes names where
  contains _ h := contains_merge.2 (.inr h)
  holders name _ hm := by
    rw [holders_merge]
    exact mem_unionHolders.2 (.inl hm)

theorem includes_merge_right (names other : NameRegistry) :
    (names.merge other).Includes other where
  contains _ h := contains_merge.2 (.inl h)
  holders name _ hm := by
    rw [holders_merge]
    exact mem_unionHolders.2 (.inr hm)

/-- Merging in what `names` holds already changes nothing. -/
theorem Includes.merge_eq {names other : NameRegistry} (h : names.Includes other) :
    names.merge other = names := by
  refine eq_of_holders (fun name => ?_) fun name => ?_
  · rw [Bool.eq_iff_iff, contains_merge]
    exact ⟨fun hname => hname.elim (fun hother => h.contains hother) id, .inr⟩
  · rw [holders_merge, unionHolders_of_subset (h.holders name)]

/-- The registry `r` has been merged into another one, by itself or as a part of what was merged,
and whatever happened to the other one since. -/
inductive HasMerged (r : NameRegistry) : NameRegistry → Prop
  | directly (names : NameRegistry) : HasMerged r (names.merge r)
  | through {other : NameRegistry} (h : HasMerged r other) (names : NameRegistry) :
    HasMerged r (names.merge other)
  | merge {names : NameRegistry} (h : HasMerged r names) (other : NameRegistry) :
    HasMerged r (names.merge other)
  | add {names : NameRegistry} (h : HasMerged r names) (name : String) (m : MemberId) :
    HasMerged r (names.add name m)

theorem HasMerged.includes {r names : NameRegistry} (h : HasMerged r names) : names.Includes r := by
  induction h with
  | directly names => exact includes_merge_right names r
  | @through other _ names ih => exact (includes_merge_right names other).trans ih
  | @merge names _ other ih => exact (includes_merge_left names other).trans ih
  | @add names _ name m ih => exact (includes_add names name m).trans ih

theorem HasMerged.foldl_merge {r names : NameRegistry} (h : HasMerged r names)
    (registries : List NameRegistry) : HasMerged r (registries.foldl NameRegistry.merge names) := by
  induction registries generalizing names with
  | nil => exact h
  | cons other registries ih => exact ih (h.merge other)

/-- All parts of a union have been merged into it. -/
theorem hasMerged_merged {registries : List NameRegistry} {r : NameRegistry}
    (h : r ∈ registries) : HasMerged r (merged registries) := by
  obtain ⟨before, after, rfl⟩ := List.append_of_mem h
  rw [merged, List.foldl_append, List.foldl_cons]
  exact (HasMerged.directly _).foldl_merge after

/-- So has everything that was merged into one of the parts, `other`. -/
theorem HasMerged.merged {registries : List NameRegistry} {r other : NameRegistry}
    (h : HasMerged r other) (hother : other ∈ registries) :
    HasMerged r (NameRegistry.merged registries) := by
  obtain ⟨before, after, rfl⟩ := List.append_of_mem hother
  rw [NameRegistry.merged, List.foldl_append, List.foldl_cons]
  exact (h.through _).foldl_merge after

/-! ## Unions -/

theorem SameNames.sortedNames {names names' : NameRegistry} (h : names.SameNames names') :
    names'.sortedNames = names.sortedNames := by
  have hperm : names'.sortedNames.Perm names.sortedNames := by
    refine (List.perm_ext_iff_of_nodup (nodup_sortedNames _) (nodup_sortedNames _)).2 fun name => ?_
    rw [mem_sortedNames, mem_sortedNames, h name]
  have hasymm (a b : String) (hab : compare a b = .lt) (hba : compare b a = .lt) : a = b := by
    have hswap : compare b a = (compare a b).swap := Std.OrientedCmp.eq_swap
    rw [hswap, hab] at hba
    cases hba
  exact hperm.eq_of_pairwise (fun a b _ _ => hasymm a b) Std.ExtTreeMap.ordered_keys
    Std.ExtTreeMap.ordered_keys

/-- A registry is the union of some: it has their names, and a name has their holders, each once and
in the order in which they first come up. -/
structure IsUnion (names : NameRegistry) (registries : List NameRegistry) : Prop where
  contains : ∀ name, names.contains name ↔ ∃ r ∈ registries, r.contains name
  mem_holders : ∀ name m, m ∈ names.holders name ↔ ∃ r ∈ registries, m ∈ r.holders name
  nodup : ∀ name, (names.holders name).Nodup
  order : ∀ name, names.holders name = (registries.flatMap (holders · name)).eraseDups

theorem isUnion_merged (registries : List NameRegistry) : (merged registries).IsUnion registries where
  contains _ := contains_merged
  mem_holders name m := by rw [holders_merged, List.mem_eraseDups, List.mem_flatMap]
  nodup name := by
    rw [holders_merged]
    exact nodup_eraseDups _
  order := holders_merged registries

/-- Two registries with the same answers to everything, up to the order of holders. -/
structure SameAnswers (names names' : NameRegistry) : Prop where
  contains : ∀ name, names'.contains name = names.contains name
  holders : ∀ name, (names'.holders name).Perm (names.holders name)
  size : names'.size = names.size
  isEmpty : names'.isEmpty = names.isEmpty
  sortedNames : names'.sortedNames = names.sortedNames
  allocate : ∀ base, names'.allocate base = names.allocate base

theorem IsUnion.sameAnswers {names names' : NameRegistry} {registries registries' : List NameRegistry}
    (h : names.IsUnion registries) (h' : names'.IsUnion registries')
    (hsame : ∀ r, r ∈ registries' ↔ r ∈ registries) : names.SameAnswers names' := by
  have hnames : names.SameNames names' := fun name => by
    rw [Bool.eq_iff_iff, h.contains, h'.contains]
    simp only [hsame]
  have hsize : names'.size = names.size := by
    rw [← length_sortedNames, ← length_sortedNames, hnames.sortedNames]
  exact {
    contains := hnames
    holders := fun name => (List.perm_ext_iff_of_nodup (h'.nodup name) (h.nodup name)).2 fun m => by
      simp only [h.mem_holders, h'.mem_holders, hsame]
    size := hsize
    isEmpty := by
      simp only [NameRegistry.isEmpty, Std.ExtTreeMap.isEmpty_eq_size_beq_zero]
      exact congrArg (· == 0) hsize
    sortedNames := hnames.sortedNames
    allocate := hnames.allocate }

/-- **Merging makes unions**: what is merged of `registries` has their names and holders and nothing
else, each holder once and in the order in which they first come up. Registries in another order, or
some of them repeatedly, come to the same up to the order of holders. To merge in a registry that
has been merged in before changes nothing at all, and it makes no difference in which order the
names of a registry are merged in. -/
theorem merged_union (registries : List NameRegistry) :
    (merged registries).IsUnion registries ∧
    (∀ registries' : List NameRegistry, (∀ r, r ∈ registries' ↔ r ∈ registries) →
      (merged registries).SameAnswers (merged registries')) ∧
    (∀ r ∈ registries, (merged registries).merge r = merged registries) ∧
    (∀ r names : NameRegistry, HasMerged r names → names.merge r = names) ∧
    ∀ (names other : NameRegistry) (entries : List (String × List MemberId)),
      entries.Perm other.table.toList →
        entries.foldl (fun names e => names.addAll e.1 e.2) names = names.merge other := by
  refine ⟨isUnion_merged registries, fun registries' hsame => ?_, fun r hr => ?_,
    fun r names h => h.includes.merge_eq, fun names other entries => foldl_addAll_eq_merge names⟩
  · exact (isUnion_merged registries).sameAnswers (isUnion_merged registries') hsame
  · exact (hasMerged_merged hr).includes.merge_eq

/-- The names of a class, one of whose methods was entered twice. -/
def petNames : NameRegistry := (add ∅ "speak" ⟨0⟩).add "speak" ⟨0⟩

/-- The names of a class that inherits from it. -/
def catNames : NameRegistry := (merged [petNames]).add "purr" ⟨1⟩

/-- The names of another class that inherits from it and overrides the method. -/
def dogNames : NameRegistry := ((merged [petNames]).add "bark" ⟨2⟩).add "speak" ⟨3⟩

/-- A type that inherits from the two classes, in one order or in the other, has the method of the
class above them and the override as holders of one name, and merging in the names of the class
above them changes nothing. -/
theorem pets_union :
    (∀ r, r ∈ [dogNames, catNames, dogNames] ↔ r ∈ [catNames, dogNames]) ∧
      (merged [catNames, dogNames]).SameAnswers (merged [dogNames, catNames, dogNames]) ∧
      (merged [catNames, dogNames]).holders "speak" = [⟨0⟩, ⟨3⟩] ∧
      HasMerged petNames (merged [catNames, dogNames]) ∧
      (merged [catNames, dogNames]).merge petNames = merged [catNames, dogNames] := by
  have hsame : ∀ r, r ∈ [dogNames, catNames, dogNames] ↔ r ∈ [catNames, dogNames] := by
    simp [or_comm]
  have hdog : HasMerged petNames dogNames :=
    ((hasMerged_merged (.head _)).add "bark" ⟨2⟩).add "speak" ⟨3⟩
  have hmerged : HasMerged petNames (merged [catNames, dogNames]) := hdog.merged (.tail _ (.head _))
  obtain ⟨hunion, hanswers, -, hagain, -⟩ := merged_union [catNames, dogNames]
  refine ⟨hsame, hanswers _ hsame, ?_, hmerged, hagain petNames _ hmerged⟩
  rw [hunion.order]
  decide +kernel

end NameRegistry

end ScriptNaming
