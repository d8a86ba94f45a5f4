import ScriptNaming.Document.Linking
import ScriptNaming.Proofs.Naming
import ScriptNaming.Proofs.ReachedStates

/-!
# Uniqueness of allocated names

A name that is allocated for a member is told apart from all names that base types have registered,
and from the other names that are allocated in the type (`allocated_names_distinct`).

The members of a type are resolved one after the other, and each step keeps the registry together
with the records (`resolveMembers_naming`).
-/

namespace ScriptNaming

open ResolutionState

section

variable {g : TypeGraph} {options : Options} {ensure : TypeId → Resolve Unit}
  (hensure : EnsuresMembers g options ensure) {t : TypeId} {ty : TypeSymbol}
  {resolved : ResolvedType} {m : MemberSymbol} {preferred : PreferredName}
  {inherited names names' : NameRegistry} {s₀ s s' : ResolutionState}

include hensure

/-! ## All members of a type -/

/-- The own members of a usable type. -/
theorem resolveMembers_naming (wf : g.WellFormed) (hty : g.type? t = some ty)
    (hs : Within g options t s₀ s) (hn : Naming g t inherited names s)
    (hempty : ∀ k, g.Declared t k → s.recordOf k = .empty)
    (h : (g.memberContext options ensure ty resolved).resolveMembers names s =
      .ok (names', s')) : Within g options t s s' ∧ Naming g t inherited names' s' := by
  have settles : SettlesMembers False (g.memberContext options ensure ty resolved) t
      (Naming g t inherited) fun _ _ => True := {
    report := fun names s ds hn => hn.congr fun _ _ => rfl
    member := fun m hm preferred _ => (resolveMember_settles hensure wf hm).settles
    alternate := fun p hp =>
      (resolveAlternate_settles (owns_of_mem_alternates wf hty hp).1 p.2).settles }
  obtain ⟨hs', hn', -⟩ := (resolveMembers_settles wf (fun _ _ _ h _ => h) settles hty hs hn
    hempty).of_ok h
  exact ⟨hs', hn'⟩

omit hensure in
/-- The own members of a type without a place in script. -/
theorem markNotUsable_naming (wf : g.WellFormed) (hty : g.type? t = some ty)
    (hs : Within g options t s₀ s) (hn : Naming g t inherited names s)
    (hempty : ∀ k, g.Declared t k → s.recordOf k = .empty)
    (h : (g.canonicalMembers ty).forM markNotUsable s = .ok ((), s')) :
    Within g options t s s' ∧ Naming g t inherited names s' := by
  have hrun : (do
      (g.canonicalMembers ty).forM markNotUsable
      return names : Resolve NameRegistry) s = .ok (names, s') :=
    run_bind_eq_ok.2 ⟨(), s', h, rfl⟩
  obtain ⟨hs', hn', -⟩ := (forM_markNotUsable_settles wf (fun _ _ _ h _ => h) hty hs hn hempty
    fun m hm => (markNotUsable_settles wf hm).settles).of_ok hrun
  exact ⟨hs', hn'⟩

/-- The names of `ty` go with the records of its members, and start from the names of its base
types, all of which are done. -/
theorem processMembers_naming (linked : g.Linked) (hty : g.type? t = some ty)
    (hs : Within g options t s₀ s) (hempty : ∀ k, g.Declared t k → s.recordOf k = .empty)
    (h : processMembers g options ensure ty resolved s = .ok (names', s')) :
    ∃ bases, g.allBaseTypes ty = .ok bases ∧ ∃ s₁ : ResolutionState, s₁.Later g s' ∧
      (∀ b ∈ bases, s₁.Done b) ∧
      Naming g t (.merged (bases.filterMap s₁.memberNames.find?)) names' s' := by
  have wf := linked.toWellFormed
  obtain ⟨bases, s₁, hbases, hs₁, hdone, hempty₁, husable, hunusable⟩ :=
    processMembers_own hensure hty hs hempty h
  have hstart : Naming g t (.merged (bases.filterMap s₁.memberNames.find?))
      (.merged (bases.filterMap s₁.memberNames.find?)) s₁ := .start hempty₁
  by_cases hresolved : resolved.isUsable
  · obtain ⟨hs', hn'⟩ :=
      resolveMembers_naming hensure wf hty hs₁ hstart hempty₁ (husable hresolved)
    exact ⟨bases, hbases, s₁, hs'.grown.toLater, hdone linked.toLayered, hn'⟩
  · obtain ⟨hmark, rfl⟩ := hunusable hresolved
    obtain ⟨hs', hn'⟩ := markNotUsable_naming wf hty hs₁ hstart hempty₁ hmark
    exact ⟨bases, hbases, s₁, hs'.grown.toLater, hdone linked.toLayered, hn'⟩

end

/-! ## Resolutions -/

section

variable {g : TypeGraph} {options : Options} {t : TypeId} {s : ResolutionState}

/-- Whenever a type `t` is done, its `names` go with the records of its members, and start from the
names of its base types. -/
theorem naming_of_done (linked : g.Linked) (hs : s.Reached g options) {names : NameRegistry}
    (ht : s.memberNames.find? t = some names) :
    ∃ ty bases, g.type? t = some ty ∧ g.allBaseTypes ty = .ok bases ∧ (∀ b ∈ bases, s.Done b) ∧
      Naming g t (.merged (bases.filterMap s.memberNames.find?)) names s := by
  obtain ⟨p, rfl, hp⟩ := hs.exists_leadsTo linked.toWellFormed (done_iff.2 ⟨names, ht⟩)
  obtain rfl := Option.some.inj (hp.names.symm.trans ht)
  obtain ⟨bases, hbases, s₁, hlater₁, hdone, hn⟩ :=
    processMembers_naming (ensureMembersWithin_spec linked.toWellFormed p.steps) linked p.known
      hp.before p.unrecorded p.run
  have hend : s₁.Later g s := hlater₁.trans hp.later
  refine ⟨p.type, bases, p.known, hbases, fun b hb => hend.done (hdone b hb), ?_⟩
  rw [hend.registries hdone]
  exact hn.congr hp.records

/-- The names of the base types of `ty` are those that everything that it inherits from has
registered, if this goes for the base types themselves. -/
theorem contains_merged_iff (linked : g.Linked) {ty : TypeSymbol} (hty : g.type? t = some ty)
    {bases : List TypeId} (hbases : g.allBaseTypes ty = .ok bases) (hdone : ∀ b ∈ bases, s.Done b)
    {name : String} (hvisible : ∀ b ∈ bases, ∀ names, s.memberNames.find? b = some names →
      (names.contains name ↔ ∃ u, Relation.ReflTransGen g.NamesBase b u ∧
        ∃ k, g.Declared u k ∧ (s.recordOf k).registeredName? = some name)) :
    (NameRegistry.merged (bases.filterMap s.memberNames.find?)).contains name ↔
      ∃ u, g.Inherits t u ∧ ∃ k, g.Declared u k ∧ (s.recordOf k).registeredName? = some name := by
  rw [NameRegistry.contains_merged]
  constructor
  · rintro ⟨names, hmem, hname⟩
    obtain ⟨b, hb, hnames⟩ := List.mem_filterMap.1 hmem
    obtain ⟨u, hu, howner⟩ := (hvisible b hb names hnames).1 hname
    exact ⟨u, .trans_left (TypeGraph.inherits_of_mem_allBaseTypes hty hbases b hb) hu, howner⟩
  · rintro ⟨u, hu, howner⟩
    obtain ⟨b, hb, hu⟩ := Relation.TransGen.head'_iff.1 hu
    have hlt := linked.base_lt hb
    obtain ⟨ty', hty', hmem⟩ := hb
    obtain rfl := Option.some.inj (hty'.symm.trans hty)
    have hlisted : b ∈ bases := TypeGraph.mem_allBaseTypes_of_mem_baseTypes hbases hmem (by
      rw [linked.type_id hty]
      rintro rfl
      exact Nat.lt_irrefl _ hlt)
    obtain ⟨names, hnames⟩ := done_iff.1 (hdone b hlisted)
    exact ⟨names, List.mem_filterMap.2 ⟨b, hlisted, hnames⟩,
      (hvisible b hlisted names hnames).2 ⟨u, hu, howner⟩⟩

/-- The names that are visible in a type that is done are those that its members and the members of
everything that it inherits from have registered. -/
theorem contains_iff_of_done (linked : g.Linked) (hs : s.Reached g options) {names : NameRegistry}
    (ht : s.memberNames.find? t = some names) {name : String} : names.contains name ↔
      ∃ u, Relation.ReflTransGen g.NamesBase t u ∧
        ∃ k, g.Declared u k ∧ (s.recordOf k).registeredName? = some name := by
  induction hindex : t.index using Nat.strongRecOn generalizing t names with
  | ind i ih =>
    subst hindex
    obtain ⟨ty, bases, hty, hbases, hdone, hn⟩ := naming_of_done linked hs ht
    have hinherits := TypeGraph.inherits_of_mem_allBaseTypes hty hbases
    rw [hn.contains_iff, contains_merged_iff linked hty hbases hdone fun b hb names hnames =>
      ih _ (linked.inherits_lt (hinherits b hb)) hnames rfl]
    simp only [Relation.reflTransGen_iff_eq_or_transGen, or_and_right, exists_or,
      exists_eq_left, TypeGraph.Inherits, or_comm]

end

/-- A member `m` has a name in `r` that no member of a base type has registered, and that is
allocated for no other member of its type. Accessors count as members of their types here. -/
def Resolution.HasUniqueName (r : Resolution) (g : TypeGraph) (m : MemberId) : Prop :=
  ∃ x ty bases name, g.member? m = some x ∧ g.type? x.declaringType = some ty ∧
    g.allBaseTypes ty = .ok bases ∧ (r.recordOf m).name? = some name ∧
    (∀ b y, g.member? b = some y → y.declaringType ∈ bases →
      (r.recordOf b).registeredName? ≠ some name) ∧
    ∀ k y, g.member? k = some y → y.declaringType = x.declaringType → k ≠ m →
      r.origins.find? k = some .allocated → (r.recordOf k).name? ≠ some name

/-- **Allocated names are unique in the hierarchy**: in a resolution `r` of the graph `g` of a
document, a name that is allocated for a member `m` is registered nowhere in the base types, and
allocated for no other member of the type. -/
theorem allocated_names_distinct {d : GraphDocument} {g : TypeGraph} (hd : d.link = .ok g)
    {options : Options} {roots : List TypeId} {main : AssemblyId} {r : Resolution}
    (h : g.resolve options roots main = .ok r) {m : MemberId}
    (hm : r.origins.find? m = some .allocated) : r.HasUniqueName g m := by
  have linked := GraphDocument.linked hd
  obtain ⟨s, rfl, hs, hvisiting⟩ := reached_of_resolve linked.toWellFormed h
  have hrecord : s.recordOf m ≠ .empty := fun hempty => by
    cases hm.symm.trans (congrArg MemberRecord.origin hempty)
  obtain ⟨x, names, hx, hnames⟩ := hs.sound.names_of_record hvisiting hrecord
  obtain ⟨ty, bases, hty, hbases, hdone, hn⟩ := naming_of_done linked hs hnames
  obtain ⟨name, hname, hfresh, hother⟩ := hn.allocated ⟨x, hx, rfl⟩ hm
  refine ⟨x, ty, bases, name, hx, hty, hbases, hname, fun b y hy hb hregistered => hfresh ?_,
    fun k y hy hk hkm hallocated => hother k ⟨y, hy, hk⟩ hkm hallocated⟩
  -- What the base type has registered is inherited.
  obtain ⟨registry, hregistry⟩ := done_iff.1 (hdone _ hb)
  obtain ⟨_, _, -, -, -, hbase⟩ := naming_of_done linked hs hregistry
  refine NameRegistry.contains_merged.2 ⟨registry, List.mem_filterMap.2 ⟨_, hb, hregistry⟩, ?_⟩
  exact hbase.registered ⟨y, hy, rfl⟩ hregistered

theorem animals_allocated_names_distinct :
    animals.link = .ok animalGraph ∧ ∃ r, animalGraph.resolve {} [⟨1⟩] ⟨0⟩ = .ok r ∧
      r.origins.find? ⟨2⟩ = some .allocated ∧ r.HasUniqueName animalGraph ⟨2⟩ := by
  have h : (animalGraph.resolve {} [⟨1⟩] ⟨0⟩).toOption.any fun r =>
      r.origins.find? ⟨2⟩ = some .allocated := by
    decide +kernel
  obtain ⟨r, hr, horigin⟩ := exists_of_any_toOption h
  have hallocated := of_decide_eq_true horigin
  exact ⟨link_animals, r, hr, hallocated, allocated_names_distinct link_animals hr hallocated⟩

end ScriptNaming
