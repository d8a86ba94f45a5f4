import ScriptNaming.Proofs.Allocation
import ScriptNaming.Proofs.NameUniqueness
import ScriptNaming.Proofs.TypeSuccess

/-!
# Counts stay small

Names that are counted out for interface members go to as many members, and a registry has no more
names than there are members, so that counts stay small (`ResolutionState.Steady`,
`ResolutionState.Tidy.size_origins_le`) and, in a graph with fewer members than there are suffixes,
every name can be told apart from those in a registry (`Naming.exists_allocate`).
-/

namespace ScriptNaming

open ResolutionState

/-! ## Counted names -/

namespace InterfaceNames

theorem used_next (names : InterfaceNames) (a b : AssemblyId) :
    (names.next a).2.used b = if a = b then names.used a + 1 else names.used b := by
  simp only [next, used, Table.find?_insert]
  split <;> rfl

/-- The count of an assembly `b` only goes up, and by one at a time. -/
theorem used_next_le (names : InterfaceNames) (a b : AssemblyId) :
    names.used b ≤ (names.next a).2.used b ∧ (names.next a).2.used b ≤ names.used b + 1 := by
  rw [used_next]
  split
  · rename_i hab
    subst hab
    omega
  · omega

end InterfaceNames

namespace ResolutionState

/-- No type is being resolved, names are counted out for members that have names of their own, and
the names of types are few. -/
structure Steady (s : ResolutionState) : Prop where
  typeGuard : s.typeGuard = ∅
  counted : ∀ a, s.interfaceNames.used a ≤ s.origins.size
  typeNames : s.FewTypeNames

variable {g : TypeGraph} {options : Options} {s s' : ResolutionState}

theorem Steady.initial : ResolutionState.initial.Steady where
  typeGuard := rfl
  counted _ := Nat.le_refl 0
  typeNames _ := Nat.le_refl 0

theorem Steady.grow (hs : s.Steady) (h : s.TypesGrow s') (typeNames : s'.FewTypeNames) :
    s'.Steady where
  typeGuard := by rw [h.typeGuard, hs.typeGuard]
  counted a := by
    rw [h.interfaceNames, h.origins]
    exact hs.counted a
  typeNames := typeNames

/-- What else is known of members does not matter, nor which of them are in progress. -/
theorem Steady.apart (hs : s.Steady) (h : s' = { s with
    memberNames := s'.memberNames, methods := s'.methods, properties := s'.properties
    fields := s'.fields, events := s'.events, diagnostics := s'.diagnostics
    memberGuard := s'.memberGuard }) : s'.Steady := by
  rw [h]
  exact ⟨hs.typeGuard, hs.counted, hs.typeNames⟩

/-- A name may be counted out for a member that had none. -/
theorem Steady.named (hs : s.Steady) {k : MemberId} (hk : s.origins.find? k = none)
    {counts : InterfaceNames} (hcounts : ∀ a, counts.used a ≤ s.interfaceNames.used a + 1)
    (origin : NameOrigin) :
    Steady { s with interfaceNames := counts, origins := s.origins.insert k origin } where
  typeGuard := hs.typeGuard
  counted a := by
    rw [Table.size_insert _ _ hk]
    exact (hcounts a).trans (Nat.succ_le_succ (hs.counted a))
  typeNames := hs.typeNames

/-- Only members of `g` have names of their own. -/
theorem Tidy.size_origins_le (hs : s.Tidy g options) : s.origins.size ≤ g.members.size := by
  rw [← Table.length_keys]
  refine length_le_of_nodup s.origins.nodup_keys MemberId.index ?_ fun m hm => ?_
  · rintro ⟨i⟩ ⟨j⟩ rfl
    rfl
  · have hfound : (s.origins.find? m).isSome := (s.origins.contains_iff_mem_keys m).2 hm
    have hrecord : s.recordOf m ≠ .empty := by
      intro hempty
      have horigin : s.origins.find? m = none := congrArg MemberRecord.origin hempty
      rw [horigin] at hfound
      cases hfound
    obtain ⟨x, hx, -⟩ := hs.records hrecord
    exact TypeGraph.index_lt_of_member? hx

/-- Only types of `g` are resolved. -/
theorem Tidy.size_types_le (hs : s.Tidy g options) : s.types.size ≤ g.types.size := by
  rw [← Table.length_keys]
  refine length_le_of_nodup s.types.nodup_keys TypeId.index ?_ fun t ht => ?_
  · exact fun _ _ => TypeId.eq_of_index
  · obtain ⟨r, hr⟩ := Option.isSome_iff_exists.1 ((s.types.contains_iff_mem_keys t).2 ht)
    obtain ⟨ty, hty, -⟩ := hs.types hr
    exact TypeGraph.index_lt_of_type? hty

/-! ## Names in registries -/

/-- A member of a type of `g` that is done has registered the `name`. -/
def Registers (s : ResolutionState) (g : TypeGraph) (name : String) : Prop :=
  ∃ k x, g.member? k = some x ∧ s.Done x.declaringType ∧
    (s.recordOf k).registeredName? = some name

theorem Registers.later {name : String} (h : s.Registers g name) (hlater : s.Later g s') :
    s'.Registers g name := by
  obtain ⟨k, x, hx, hdone, hname⟩ := h
  exact ⟨k, x, hx, hlater.done hdone, by rwa [hlater.records hx hdone]⟩

end ResolutionState

section

variable {g : TypeGraph} {options : Options} {s : ResolutionState} {name : String}

/-- The `names` of a type `t` that is done are registered by its members, or by those of types that
it inherits from. -/
theorem registers_of_done (linked : g.Linked) (hs : s.Reached g options) {t : TypeId}
    {names : NameRegistry} (ht : s.memberNames.find? t = some names)
    (hname : names.contains name) : s.Registers g name := by
  induction hindex : t.index using Nat.strongRecOn generalizing t names with
  | ind i ih =>
    obtain ⟨ty, bases, hty, hbases, -, hn⟩ := naming_of_done linked hs ht
    rcases hn.owned hname with hinherited | ⟨k, ⟨x, hx, hxt⟩, hregistered⟩
    · obtain ⟨registry, hmem, hcontains⟩ := NameRegistry.contains_merged.1 hinherited
      obtain ⟨b, hb, hfound⟩ := List.mem_filterMap.1 hmem
      have hlt := linked.inherits_lt (TypeGraph.inherits_of_mem_allBaseTypes hty hbases b hb)
      exact ih b.index (hindex ▸ hlt) hfound hcontains rfl
    · exact ⟨k, x, hx, hxt ▸ done_iff.2 ⟨names, ht⟩, hregistered⟩

/-- The names of several types that are done. -/
theorem registers_of_merged (linked : g.Linked) (hs : s.Reached g options) {bases : List TypeId}
    (hname : (NameRegistry.merged (bases.filterMap s.memberNames.find?)).contains name) :
    s.Registers g name := by
  obtain ⟨registry, hmem, hcontains⟩ := NameRegistry.contains_merged.1 hname
  obtain ⟨b, -, hfound⟩ := List.mem_filterMap.1 hmem
  exact registers_of_done linked hs hfound hcontains

/-- In a graph with fewer members than there are suffixes to try, allocation in `names` succeeds. -/
theorem Naming.exists_allocate {t : TypeId} {inherited names : NameRegistry}
    (hn : Naming g t inherited names s)
    (hinherited : ∀ name, inherited.contains name → s.Registers g name)
    (hmembers : g.members.size < maxNameAllocationAttempts) (base : Option String) :
    ∃ name, names.allocate base = .ok name := by
  -- Each of the names in the registry is registered by a member of the graph.
  refine NameRegistry.exists_allocate (l := (List.range g.members.size).filterMap fun i =>
    (s.recordOf ⟨i⟩).registeredName?) (fun name hname => ?_) ?_ base
  · have hmember : ∃ k x, g.member? k = some x ∧ (s.recordOf k).registeredName? = some name := by
      rcases hn.owned hname with h | ⟨k, ⟨x, hx, -⟩, hregistered⟩
      · obtain ⟨k, x, hx, -, hregistered⟩ := hinherited name h
        exact ⟨k, x, hx, hregistered⟩
      · exact ⟨k, x, hx, hregistered⟩
    obtain ⟨k, x, hx, hregistered⟩ := hmember
    exact List.mem_filterMap.2
      ⟨k.index, List.mem_range.2 (TypeGraph.index_lt_of_member? hx), hregistered⟩
  · refine Nat.lt_of_le_of_lt (List.length_filterMap_le _ _) ?_
    rwa [List.length_range]

end

end ScriptNaming
