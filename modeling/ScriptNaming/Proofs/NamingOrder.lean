import ScriptNaming.Proofs.MemberEntries

/-!
# The order of naming

The members of a type are named group by group, and in each group those first that choose their
names (`namingPlan_pairwise`). An allocated name differs from all names that came in before, and the
accessors of a member that chooses its name are told apart from that name by their stems
(`resolveMember_named`).

A `ScriptName` chooses the name of a member that is named by default (`scriptName_chosen`). So a
chosen name is shared with an allocated one only where the latter belongs to a group that comes up
before (`chosen_name_shared_only_before`), as it may happen (`chosen_name_shared`).
-/

namespace ScriptNaming

open ResolutionState

/-! ## Groups -/

/-- The preferred names of `members` in the order in which they first come up. -/
def nameGroups (members : List (MemberSymbol × PreferredName)) : List (Option String) :=
  (members.map (·.2.name)).eraseDups

/-- The `members` are resolved group by group, and in a group those first that choose their
names. -/
theorem namingPlan_pairwise (members : List (MemberSymbol × PreferredName)) :
    (namingPlan members).Pairwise fun p q =>
      p.2.name = q.2.name ∧ (q.2.isSpecified → p.2.isSpecified) ∨
        [p.2.name, q.2.name].Sublist (nameGroups members) := by
  have hgroup {name : Option String} {p : MemberSymbol × PreferredName}
      (hp : p ∈ (members.filter (·.2.name == name)).filter (·.2.isSpecified) ++
        (members.filter (·.2.name == name)).filter (!·.2.isSpecified)) : p.2.name = name := by
    have hmem : p ∈ members.filter (·.2.name == name) := by
      rcases List.mem_append.1 hp with hp | hp
      · exact (List.mem_filter.1 hp).1
      · exact (List.mem_filter.1 hp).1
    exact beq_iff_eq.1 (List.mem_filter.1 hmem).2
  refine List.pairwise_flatMap.2 ⟨fun name _ => ?_, ?_⟩
  · have hspecified : (((members.filter (·.2.name == name)).filter (·.2.isSpecified)) ++
        (members.filter (·.2.name == name)).filter (!·.2.isSpecified)).Pairwise
          fun p q => q.2.isSpecified → p.2.isSpecified := by
      refine List.pairwise_append.2 ⟨?_, ?_, fun p hp q hq _ => (List.mem_filter.1 hp).2⟩
      · exact List.pairwise_of_forall_mem_list fun p hp q hq _ => (List.mem_filter.1 hp).2
      · refine List.pairwise_of_forall_mem_list fun p hp q hq h => ?_
        simp [h] at hq
    refine hspecified.imp_of_mem fun hp hq h => .inl ⟨?_, h⟩
    exact (hgroup hp).trans (hgroup hq).symm
  · refine List.pairwise_iff_forall_sublist.2 fun hsublist p hp q hq => .inr ?_
    rw [hgroup hp, hgroup hq]
    exact hsublist

/-- The members of `ty` that are named, with their preferred names. -/
def TypeGraph.preferredNames (g : TypeGraph) (options : Options) (ty : TypeSymbol)
    (resolved : ResolvedType) : List (MemberSymbol × PreferredName) :=
  (g.namedMembers ty).map fun m => (m, (g.preferredName options ty resolved m).1)

section

variable {g : TypeGraph} {options : Options} {t : TypeId} {ty : TypeSymbol}
  {resolved : ResolvedType}

theorem mem_plan_preferredNames {p : MemberSymbol × PreferredName} :
    p ∈ namingPlan (g.preferredNames options ty resolved) ↔
      p.1 ∈ g.namedMembers ty ∧ p.2 = (g.preferredName options ty resolved p.1).1 :=
  MemberContext.mem_plan (c := g.memberContext options (fun _ => pure ()) ty resolved)

theorem lists_of_mem_plan (wf : g.WellFormed) (hty : g.type? t = some ty) :
    ∀ p ∈ namingPlan (g.preferredNames options ty resolved), g.Lists t p.1 :=
  fun _ hp => TypeGraph.lists_of_mem_canonicalMembers wf hty
    (TypeGraph.mem_namedMembers.1 (mem_plan_preferredNames.1 hp).1).1

end

/-! ## Records of names -/

/-- A name in a record is one that a preferred name leads to, starting from the names in `names`. -/
def MemberRecord.NamedFrom (r : MemberRecord) (preferred : PreferredName) (names : NameRegistry) :
    Prop :=
  ∀ origin, r.origin = some origin →
    ∃ name, r.name? = some name ∧ preferred.LeadsTo names name origin

/-- An allocated name in a record is none of the names in `names`, and not the preferred name if
that is chosen. -/
def MemberRecord.FreshFrom (r : MemberRecord) (preferred : PreferredName) (names : NameRegistry) :
    Prop :=
  r.origin = some .allocated → ∃ name, r.name? = some name ∧ ¬names.contains name ∧
    (preferred.isSpecified → preferred.name ≠ some name)

namespace MemberRecord

variable {r : MemberRecord} {preferred : PreferredName} {names names' : NameRegistry}

theorem NamedFrom.of_origin (h : r.origin = none) : r.NamedFrom preferred names := by
  intro origin horigin
  cases h.symm.trans horigin

theorem NamedFrom.fresh (h : r.NamedFrom preferred names) : r.FreshFrom preferred names := by
  intro horigin
  obtain ⟨name, hname, hleads⟩ := h .allocated horigin
  refine ⟨name, hname, hleads.fresh rfl, fun hspecified => ?_⟩
  cases hleads with
  | allocated hnot _ =>
    rw [hnot hspecified]
    exact nofun

theorem FreshFrom.mono (h : r.FreshFrom preferred names')
    (hnames : ∀ name, names.contains name → names'.contains name) :
    r.FreshFrom preferred names := by
  intro horigin
  obtain ⟨name, hname, hfree, hne⟩ := h horigin
  exact ⟨name, hname, fun hin => hfree (hnames name hin), hne⟩

end MemberRecord

namespace MemberSymbol

/-- The name of a member goes back to its preferred name, and its accessors have new names. -/
structure HasNamesFrom (m : MemberSymbol) (preferred : PreferredName) (names : NameRegistry)
    (recordOf : MemberId → MemberRecord) : Prop where
  own : (recordOf m.id).NamedFrom preferred names
  accessors : ∀ a ∈ m.accessors, (recordOf a).FreshFrom preferred names

namespace HasNamesFrom

variable {m : MemberSymbol} {preferred : PreferredName} {names : NameRegistry}
  {recordOf recordOf' : MemberId → MemberRecord}

theorem fresh (h : m.HasNamesFrom preferred names recordOf) {k : MemberId} (hk : m.Covers k) :
    (recordOf k).FreshFrom preferred names := by
  rcases hk with rfl | hk
  · exact h.own.fresh
  · exact h.accessors k hk

theorem congr (h : m.HasNamesFrom preferred names recordOf)
    (heq : ∀ k, m.Covers k → recordOf' k = recordOf k) :
    m.HasNamesFrom preferred names recordOf' where
  own := by
    rw [heq m.id (.inl rfl)]
    exact h.own
  accessors a ha := by
    rw [heq a (.inr ha)]
    exact h.accessors a ha

theorem of_origins (h : ∀ k, m.Covers k → (recordOf k).origin = none) :
    m.HasNamesFrom preferred names recordOf where
  own := .of_origin (h m.id (.inl rfl))
  accessors a ha := (MemberRecord.NamedFrom.of_origin (h a (.inr ha))).fresh

theorem of_own (hkind : m.isMethod ∨ m.kind = .field)
    (own : (recordOf m.id).NamedFrom preferred names) :
    m.HasNamesFrom preferred names recordOf where
  own := own
  accessors := by
    rw [accessors_eq_nil hkind]
    exact List.forall_mem_nil _

end HasNamesFrom

end MemberSymbol

/-- A name that `m` chooses is there. -/
theorem TypeGraph.name_ne_none_of_isSpecified {g : TypeGraph} {options : Options} {ty : TypeSymbol}
    {resolved : ResolvedType} {m : MemberSymbol}
    (h : (g.preferredName options ty resolved m).1.isSpecified) :
    (g.preferredName options ty resolved m).1.name ≠ none := by
  have hown {x : MemberSymbol} (hx : (g.ownPreferredName options resolved x).1.isSpecified) :
      (g.ownPreferredName options resolved x).1.name ≠ none := by
    unfold ownPreferredName at hx ⊢
    split
    · exact nofun
    · split_ifs <;> simp_all
  unfold preferredName at h ⊢
  split
  · rename_i hmain
    rw [hmain] at h
    exact hown h
  · rename_i hmain
    rw [hmain] at h
    exact hown h
  · exact nofun

/-- The name of an accessor is longer than the chosen `name` that it follows from. -/
theorem AccessorSlot.ne_stem_append (slot : AccessorSlot) (name suffix : String) :
    name ≠ slot.stem ++ name ++ suffix := by
  intro h
  have hlength := congrArg String.length h
  have hstem : 0 < slot.stem.length := by cases slot <;> decide
  simp only [String.length_append] at hlength
  omega

/-! ## Names in order -/

/-- The records about the members of a type, as they come up when the members are named in the order
of a plan. -/
structure NamedInOrder (g : TypeGraph) (t : TypeId) (plan : List (MemberSymbol × PreferredName))
    (recordOf : MemberId → MemberRecord) : Prop where
  listed : ∀ p ∈ plan, g.Lists t p.1
  /-- All names are those of members of the plan and of their accessors. -/
  planned : ∀ ⦃k⦄, g.Declared t k → (recordOf k).origin ≠ none → ∃ p ∈ plan, p.1.Covers k
  /-- Each member of the plan is named when the names of those before it have come in. -/
  named : ∀ ⦃before p after⦄, plan = before ++ p :: after → ∃ names,
    p.1.HasNamesFrom p.2 names recordOf ∧ ∀ q ∈ before, ∀ k name, q.1.Covers k →
      (recordOf k).origin ≠ none → (recordOf k).name? = some name → names.contains name

namespace NamedInOrder

variable {g : TypeGraph} {t : TypeId} {plan : List (MemberSymbol × PreferredName)}
  {recordOf recordOf' : MemberId → MemberRecord}

/-- It is enough that the members of `plan` keep their records, and that no names come up
elsewhere. -/
theorem congr (h : NamedInOrder g t plan recordOf)
    (hplan : ∀ p ∈ plan, ∀ k, p.1.Covers k → recordOf' k = recordOf k)
    (horigin : ∀ k, g.Declared t k → (recordOf' k).origin = (recordOf k).origin) :
    NamedInOrder g t plan recordOf' where
  listed := h.listed
  planned k hk hk' := h.planned hk (horigin k hk ▸ hk')
  named before p after hsplit := by
    have hp : p ∈ plan := hsplit ▸ List.mem_append_right _ (.head _)
    obtain ⟨names, hnamed, hbefore⟩ := h.named hsplit
    refine ⟨names, hnamed.congr (hplan p hp), fun q hq k name hk => ?_⟩
    rw [hplan q (hsplit ▸ List.mem_append_left _ hq) k hk]
    exact hbefore q hq k name hk

/-- Members of `plan` that have no names may come in any order. -/
theorem of_unnamed (wf : g.WellFormed) (listed : ∀ p ∈ plan, g.Lists t p.1)
    (h : ∀ k, g.Declared t k → (recordOf k).origin = none) : NamedInOrder g t plan recordOf where
  listed := listed
  planned k hk horigin := absurd (h k hk) horigin
  named before p after hsplit := by
    have hnone {q : MemberSymbol × PreferredName} (hq : q ∈ before ++ p :: after) {k : MemberId}
        (hk : q.1.Covers k) : (recordOf k).origin = none :=
      h k ((listed q (hsplit ▸ hq)).1.declared_of_covers wf hk)
    exact ⟨∅, .of_origins fun k hk => hnone (List.mem_append_right _ (.head _)) hk,
      fun q hq k name hk horigin => absurd (hnone (List.mem_append_left _ hq) hk) horigin⟩

/-- A member `m` that has a name is in `plan` unless it is an accessor. -/
theorem exists_mem_plan (wf : g.WellFormed) (h : NamedInOrder g t plan recordOf) {m : MemberId}
    {x : MemberSymbol} (hx : g.member? m = some x) (ht : x.declaringType = t)
    (hown : x.accessorOf = none) (hm : (recordOf m).origin ≠ none) :
    ∃ preferred, (x, preferred) ∈ plan := by
  obtain ⟨p, hp, hm | hm⟩ := h.planned ⟨x, hx, ht⟩ hm
  · have hp' := (h.listed p hp).1.1
    rw [← hm] at hp'
    obtain rfl := Option.some.inj (hx.symm.trans hp')
    exact ⟨p.2, hp⟩
  · obtain ⟨slot, hslot⟩ := MemberSymbol.mem_accessors.1 hm
    obtain ⟨y, hy, -, haccessor⟩ := wf.accessor (h.listed p hp).1.1 hslot
    obtain rfl := Option.some.inj (hx.symm.trans hy)
    cases hown.symm.trans haccessor

/-- Where the member of `p` has chosen its `name`, this is its preferred name. -/
theorem eq_of_chosen (h : NamedInOrder g t plan recordOf) {p : MemberSymbol × PreferredName}
    (hp : p ∈ plan) (hm : (recordOf p.1.id).origin = some .chosen) {name : String}
    (hname : (recordOf p.1.id).name? = some name) : p.2 = ⟨some name, true⟩ := by
  obtain ⟨before, after, hsplit⟩ := List.append_of_mem hp
  obtain ⟨_, hnamed, -⟩ := h.named hsplit
  obtain ⟨name', hname', hleads⟩ := hnamed.own .chosen hm
  obtain rfl := Option.some.inj (hname'.symm.trans hname)
  cases hleads with
  | chosen hpreferred => exact hpreferred

/-- The `name` of a member that may choose it is chosen. -/
theorem chosen_of_isSpecified (h : NamedInOrder g t plan recordOf)
    {p : MemberSymbol × PreferredName} (hp : p ∈ plan) {name : String}
    (hpreferred : p.2 = ⟨some name, true⟩) (hm : (recordOf p.1.id).origin ≠ none) :
    (recordOf p.1.id).origin = some .chosen ∧ (recordOf p.1.id).name? = some name := by
  obtain ⟨before, after, hsplit⟩ := List.append_of_mem hp
  obtain ⟨_, hnamed, -⟩ := h.named hsplit
  obtain ⟨origin, horigin⟩ := Option.ne_none_iff_exists'.1 hm
  obtain ⟨name', hname', hleads⟩ := hnamed.own origin horigin
  rw [hpreferred] at hleads
  cases hleads with
  | chosen heq =>
    cases heq
    exact ⟨horigin, hname'⟩
  | counted hnone => cases hnone
  | allocated hnot _ => cases hnot rfl

/-- The allocated name of a member `k` is neither one that came in before nor the preferred name
that it follows from, if that is chosen. -/
theorem freshFrom (h : NamedInOrder g t plan recordOf) {before after}
    {p : MemberSymbol × PreferredName} (hsplit : plan = before ++ p :: after) {k : MemberId}
    (hcovers : p.1.Covers k) {name : String} (hk : (recordOf k).origin = some .allocated)
    (hname : (recordOf k).name? = some name) :
    (p.2.isSpecified → p.2.name ≠ some name) ∧ ∀ q ∈ before, ∀ m, q.1.Covers m →
      (recordOf m).origin ≠ none → (recordOf m).name? ≠ some name := by
  obtain ⟨names, hnamed, hbefore⟩ := h.named hsplit
  obtain ⟨name', hname', hfree, hne⟩ := hnamed.fresh hcovers hk
  obtain rfl := Option.some.inj (hname'.symm.trans hname)
  exact ⟨hne, fun q hq m hm horigin hshared => hfree (hbefore q hq m _ hm horigin hshared)⟩

end NamedInOrder

section

variable {g : TypeGraph} {options : Options} {ensure : TypeId → Resolve Unit}
  (hensure : EnsuresMembers g options ensure) {t : TypeId} {ty : TypeSymbol}
  {resolved : ResolvedType} {m : MemberSymbol} {preferred : PreferredName}
  {inherited names names' : NameRegistry} {s₀ s s' : ResolutionState}

/-! ## Members without names -/

/-- The alternate signatures in `l` have no names of their own, and other members are left alone. -/
theorem forM_resolveAlternate_spec {l : List (MemberSymbol × MemberSymbol)} {u : Unit}
    (hs : Within g options t s₀ s) (hl : ∀ p ∈ l, g.Owns t p.1)
    (h : l.forM (fun p => resolveAlternate p.1 p.2) s = .ok (u, s')) :
    s'.origins = s.origins ∧ Framed g options t (fun k => ∃ p ∈ l, p.1.id = k) s s' := by
  induction l generalizing s₀ s with
  | nil =>
    obtain ⟨-, rfl⟩ := run_pure_eq_ok.1 h
    exact ⟨rfl, .start hs _⟩
  | cons p l ih =>
    change (resolveAlternate p.1 p.2 >>= fun _ => l.forM fun p => resolveAlternate p.1 p.2) s = _
      at h
    rw [run_bind_eq_ok] at h
    obtain ⟨_, s₁, hfirst, h⟩ := h
    obtain ⟨x, rfl⟩ := resolveAlternate_eq_ok hfirst
    have hdeclared : ∀ k, p.1.id = k → g.Declared t k := by
      rintro _ rfl
      exact (hl p (.head _)).declared
    have hs₁ := (Framed.start hs (p.1.id = ·)).changesAt hdeclared
      (.method (K := (p.1.id = ·)) s rfl x)
    obtain ⟨horigins, hs'⟩ := ih hs₁.toWithin (fun q hq => hl q (.tail _ hq)) h
    refine ⟨horigins, (hs₁.mono fun k hk => ⟨p, .head _, hk⟩).trans (hs'.mono ?_)⟩
    rintro k ⟨q, hq, hk⟩
    exact ⟨q, .tail _ hq, hk⟩

include hensure

/-! ## Methods and accessors -/

theorem resolveMethod_named {x : MethodSemantics} (hs : Within g options t s₀ s) (hm : g.Owns t m)
    (hempty : s.recordOf m.id = .empty)
    (h : resolveMethod g (methodSemanticsBy g ensure) ty resolved m preferred names s =
      .ok ((x, names'), s')) :
    (∀ name, names.contains name → names'.contains name) ∧
      (s'.recordOf m.id).NamedFrom preferred names := by
  obtain ⟨s₁, hs₁, hcases⟩ := resolveMethod_cases hensure hs hm h
  have hempty₁ : s₁.recordOf m.id = .empty := (hs₁.frame hm.declared not_false).trans hempty
  obtain ⟨rfl, rfl⟩ | ⟨name, counts, origin, hname, rfl, hleads, rfl⟩ := hcases
  · exact ⟨fun _ h => h, .of_origin (congrArg MemberRecord.origin hempty₁)⟩
  · refine ⟨fun _ h => NameRegistry.contains_add.2 (.inr h), fun origin' horigin => ?_⟩
    have hself : (s₁.origins.insert m.id origin).find? m.id = some origin :=
      Table.find?_insert_self _ _ _
    obtain rfl := Option.some.inj (hself.symm.trans horigin)
    have hfield : s₁.fields.find? m.id = none := congrArg MemberRecord.field hempty₁
    refine ⟨name, ?_, hleads⟩
    simp only [recordOf, MemberRecord.name?, hfield, Table.find?_insert_self, Option.bind_some,
      hname]

/-- An accessor `a` has a chosen name of its own, or one that begins with the stem of its place
`slot`. -/
theorem resolveAccessor_named (wf : g.WellFormed) {slot : AccessorSlot} {a : MemberId}
    {x : MethodSemantics} (hs : Within g options t s₀ s) (hm : g.Owns t m)
    (ha : m.accessor? slot = some a) (hempty : s.recordOf a = .empty)
    (h : (g.memberContext options ensure ty resolved).resolveAccessor m slot preferred a names s =
      .ok ((x, names'), s')) :
    (∀ name, names.contains name → names'.contains name) ∧
      (s'.recordOf a).FreshFrom preferred names := by
  obtain ⟨y, ds, accessorName, hy, hname, hmethod⟩ := MemberContext.resolveAccessor_eq_ok h
  obtain rfl := wf.member_id hy
  have hreport := (Framed.start hs fun _ => False).changesAt (fun _ h => h.elim) (.report _ _ ds)
  obtain ⟨hnames, hnamed⟩ := resolveMethod_named hensure hreport.toWithin
    ((hm.accessor wf ha).2 y hy) hempty hmethod
  refine ⟨hnames, fun horigin => ?_⟩
  obtain ⟨name, hrecorded, hleads⟩ := hnamed .allocated horigin
  refine ⟨name, hrecorded, hleads.fresh rfl, fun hspecified => ?_⟩
  cases hleads with
  | allocated hnot hallocate =>
    obtain ⟨rfl, hown⟩ | hname := hname
    · exact absurd (hnot hown) (TypeGraph.name_ne_none_of_isSpecified hown)
    · rw [MemberContext.accessorName, if_pos hspecified] at hname
      obtain rfl := Except.ok.inj hname
      obtain ⟨suffix, happend⟩ := NameRegistry.exists_append_of_allocate hallocate
      intro hsame
      rw [hsame, Option.getD_some] at happend
      exact slot.ne_stem_append name suffix happend

theorem resolveAccessor?_named (wf : g.WellFormed) {slot : AccessorSlot}
    {x : Option MethodSemantics} (hs : Within g options t s₀ s) (hm : g.Owns t m)
    (hempty : ∀ a, m.accessor? slot = some a → s.recordOf a = .empty)
    (h : (g.memberContext options ensure ty resolved).resolveAccessor? m slot preferred names s =
      .ok ((x, names'), s')) :
    (∀ name, names.contains name → names'.contains name) ∧
      ∀ a, m.accessor? slot = some a → (s'.recordOf a).FreshFrom preferred names := by
  obtain ⟨hnone, -, rfl, rfl⟩ | ⟨a, y, ha, -, haccessor⟩ := MemberContext.resolveAccessor?_eq_ok h
  · exact ⟨fun _ h => h, fun a ha => nomatch hnone.symm.trans ha⟩
  · obtain ⟨hnames, hfresh⟩ := resolveAccessor_named hensure wf hs hm ha (hempty a ha) haccessor
    refine ⟨hnames, fun b hb => ?_⟩
    obtain rfl := Option.some.inj (ha.symm.trans hb)
    exact hfresh

/-- A property or an event `m` has no name of its own, and its accessors in the places `slot` and
`slot'` are named one after the other. -/
theorem resolveAccessors_named (wf : g.WellFormed) {slot slot' : AccessorSlot}
    (hslot : slot ≠ slot') {x x' : Option MethodSemantics} {names₁ : NameRegistry}
    {s₁ : ResolutionState} (hs : Within g options t s₀ s) (hn : Naming g t inherited names s)
    (hm : g.Lists t m) (hempty : ∀ k, m.Covers k → s.recordOf k = .empty)
    (hslots : ∀ a ∈ m.accessors, m.accessor? slot = some a ∨ m.accessor? slot' = some a)
    (h : (g.memberContext options ensure ty resolved).resolveAccessor? m slot preferred names s =
      .ok ((x, names₁), s₁))
    (h' : (g.memberContext options ensure ty resolved).resolveAccessor? m slot' preferred names₁ s₁
      = .ok ((x', names'), s')) : m.HasNamesFrom preferred names s'.recordOf := by
  have hother {a : MemberId} (ha : m.accessor? slot = some a) : m.accessor? slot' ≠ some a :=
    fun ha' => hslot (wf.slot_unique hm.1.1 ha ha')
  have hcovers {slot : AccessorSlot} {a : MemberId} (ha : m.accessor? slot = some a) : m.Covers a :=
    .inr (MemberSymbol.mem_accessors.2 ⟨slot, ha⟩)
  have hself {slot : AccessorSlot} : m.accessor? slot ≠ some m.id :=
    fun ha => hm.not_mem_accessors wf (MemberSymbol.mem_accessors.2 ⟨slot, ha⟩)
  obtain ⟨hframed, hnaming⟩ := resolveAccessor?_naming hensure wf hs hn hm.1
    (fun a ha => hempty a (hcovers ha)) h
  have hempty₁ (a : MemberId) (ha : m.accessor? slot' = some a) : s₁.recordOf a = .empty :=
    (hframed.frame (hm.1.accessor wf ha).1 fun ha' => hother ha' ha).trans (hempty a (hcovers ha))
  obtain ⟨hframed', -⟩ :=
    resolveAccessor?_naming hensure wf hframed.toWithin hnaming hm.1 hempty₁ h'
  obtain ⟨hnames, hfresh⟩ :=
    resolveAccessor?_named hensure wf hs hm.1 (fun a ha => hempty a (hcovers ha)) h
  obtain ⟨-, hfresh'⟩ := resolveAccessor?_named hensure wf hframed.toWithin hm.1 hempty₁ h'
  refine ⟨.of_origin ?_, fun a ha => ?_⟩
  · rw [hframed'.frame hm.1.declared hself, hframed.frame hm.1.declared hself,
      hempty m.id (.inl rfl)]
    rfl
  · rcases hslots a ha with ha | ha
    · rw [hframed'.frame (hm.1.accessor wf ha).1 (hother ha)]
      exact hfresh a ha
    · exact (hfresh' a ha).mono hnames

/-! ## Members of all kinds -/

theorem resolveDataMember_named (wf : g.WellFormed) (hs : Within g options t s₀ s)
    (hn : Naming g t inherited names s) (hm : g.Lists t m)
    (hempty : ∀ k, m.Covers k → s.recordOf k = .empty)
    (h : (g.memberContext options ensure ty resolved).resolveDataMember m preferred names s =
      .ok (names', s')) : m.HasNamesFrom preferred names s'.recordOf := by
  have hunnamed (horigins : s'.origins = s.origins) :
      m.HasNamesFrom preferred names s'.recordOf := by
    refine .of_origins fun k hk => ?_
    rw [recordOf, horigins]
    exact congrArg MemberRecord.origin (hempty k hk)
  obtain ⟨-, hmark⟩ | ⟨-, -, rfl⟩ | ⟨data, x, s₁, hkind, hclassify, rfl⟩ |
    ⟨name, s₁, hkind, hname, rfl⟩ | ⟨data, adder, remover, names₁, s₁, s₂, hkind, hadder, hremover, rfl⟩ :=
    MemberContext.resolveDataMember_eq_ok h
  · exact hunnamed (markNotUsable_onlyLeavesOut (.head []) hmark).origins
  · exact hunnamed rfl
  · cases MemberContext.classifyProperty_eq_ok hclassify with
    | direct hx hmatches hnames ds hstate => exact hunnamed (by rw [hstate])
    | accessed hx ds haccessed =>
      obtain ⟨hreport, hnaming⟩ := report_naming hs hn ds
      obtain ⟨getter, setter, names₂, s₂, -, hgetter, hsetter⟩ :=
        MemberContext.accessedProperty_eq_ok haccessed
      have hnamed := resolveAccessors_named hensure wf (by decide) hreport.toWithin hnaming hm hempty
        (fun _ => MemberSymbol.accessor?_of_property hkind) hgetter hsetter
      exact ⟨hnamed.own, hnamed.accessors⟩
  · obtain ⟨rfl, counts, origin, rfl, hleads⟩ := nameMember_eq_ok hname
    refine .of_own (.inr hkind) fun origin' horigin' => ?_
    have hself : (s.origins.insert m.id origin).find? m.id = some origin :=
      Table.find?_insert_self _ _ _
    obtain rfl := Option.some.inj (hself.symm.trans horigin')
    refine ⟨name, ?_, hleads⟩
    simp only [recordOf, MemberRecord.name?, Table.find?_insert_self, FieldSemantics.name?]
  · have hnamed := resolveAccessors_named hensure wf (by decide) hs hn hm hempty
      (fun _ => MemberSymbol.accessor?_of_event hkind) hadder hremover
    exact ⟨hnamed.own, hnamed.accessors⟩

/-- Whatever kind a member is of, its name goes back to its preferred name. -/
theorem resolveMember_named (wf : g.WellFormed) (hs : Within g options t s₀ s)
    (hn : Naming g t inherited names s) (hm : g.Lists t m)
    (hempty : ∀ k, m.Covers k → s.recordOf k = .empty)
    (h : (g.memberContext options ensure ty resolved).resolveMember m preferred names s =
      .ok (names', s')) : m.HasNamesFrom preferred names s'.recordOf := by
  obtain ⟨hmethod, x, hresolve⟩ | ⟨-, hdata⟩ := MemberContext.resolveMember_eq_ok h
  · exact .of_own (.inl hmethod)
      (resolveMethod_named hensure hs hm.1 (hempty m.id (.inl rfl)) hresolve).2
  · exact resolveDataMember_named hensure wf hs hn hm hempty hdata

/-! ## All members of a type -/

/-- The members of `ty` are named one after the other by the plan. -/
theorem foldlM_namedInOrder (wf : g.WellFormed) (hty : g.type? t = some ty)
    (hs : Within g options t s₀ s) (hn : Naming g t inherited names s)
    (hempty : ∀ k, g.Declared t k → s.recordOf k = .empty)
    (h : (namingPlan (g.preferredNames options ty resolved)).foldlM (fun names p =>
      (g.memberContext options ensure ty resolved).resolveMember p.1 p.2 names) names s =
        .ok (names', s')) :
    Within g options t s s' ∧
      NamedInOrder g t (namingPlan (g.preferredNames options ty resolved)) s'.recordOf := by
  have hapart : (g.memberContext options ensure ty resolved).plan.Pairwise
      fun p q => p.1.Apart q.1 := plan_apart wf hty
  have hlists : ∀ p ∈ namingPlan (g.preferredNames options ty resolved), g.Lists t p.1 :=
    lists_of_mem_plan wf hty
  change (namingPlan (g.preferredNames options ty resolved)).Pairwise _ at hapart
  generalize namingPlan (g.preferredNames options ty resolved) = plan at h hapart hlists ⊢
  have hsettles (p : MemberSymbol × PreferredName) (hp : p ∈ plan) : g.Owns t p.1 ∧
      Settles False g options t (Naming g t inherited) (fun _ _ => True) p.1
        ((g.memberContext options ensure ty resolved).resolveMember p.1 p.2) :=
    ⟨(hlists p hp).1, (resolveMember_settles hensure wf (hlists p hp)).settles⟩
  have hdeclared {p : MemberSymbol × PreferredName} (hp : p ∈ plan) {k : MemberId}
      (hk : p.1.Covers k) : g.Declared t k := (hlists p hp).1.declared_of_covers wf hk
  have stable : DependsOnRecords fun (_ : MemberSymbol) (_ : ResolutionState) => True :=
    fun _ _ _ h _ => h
  obtain ⟨hs', -, -⟩ := (foldlM_settles wf stable Prod.fst hsettles hapart hs hn
    fun p hp k hk => hempty k (hdeclared hp hk)).of_ok h
  refine ⟨hs'.toWithin, hlists, fun k hk horigin => ?_, fun before p after hsplit => ?_⟩
  · by_contra hnot
    have hrecord : s'.recordOf k = .empty := (hs'.frame hk hnot).trans (hempty k hk)
    exact horigin (congrArg MemberRecord.origin hrecord)
  subst hsplit
  obtain ⟨names₁, s₁, names₂, s₂, hs₁, hn₁, hempty₁, hstep, hself, hbefore⟩ :=
    foldlM_settles_at wf stable Prod.fst hsettles hapart hs hn
      (fun q hq k hk => hempty k (hdeclared hq hk)) h
  have hnamed := resolveMember_named hensure wf hs₁ hn₁
    (hlists p (List.mem_append_right _ (.head _))) hempty₁ hstep
  refine ⟨names₁, hnamed.congr hself, fun q hq k name hk horigin hname => ?_⟩
  rw [hbefore q hq k hk] at horigin hname
  refine hn₁.registered (hdeclared (List.mem_append_left _ hq) hk) ?_
  rwa [MemberRecord.registeredName?, if_pos (Option.isSome_iff_ne_none.2 horigin)]

/-- The own members of a usable type are named in the order of the plan. -/
theorem resolveMembers_namedInOrder (wf : g.WellFormed) (hty : g.type? t = some ty)
    (hs : Within g options t s₀ s) (hn : Naming g t inherited names s)
    (hempty : ∀ k, g.Declared t k → s.recordOf k = .empty)
    (h : (g.memberContext options ensure ty resolved).resolveMembers names s =
      .ok (names', s')) :
    NamedInOrder g t (namingPlan (g.preferredNames options ty resolved)) s'.recordOf := by
  obtain ⟨s₁, hplan, halternates⟩ := MemberContext.resolveMembers_eq_ok h
  rw [MemberContext.resolveNamed, report, run_modify_bind] at hplan
  obtain ⟨hs₀, hn₀⟩ := report_naming hs hn
    (g.memberContext options ensure ty resolved).planProblems
  obtain ⟨hs₁, hnamed⟩ := foldlM_namedInOrder hensure wf hty hs₀.toWithin hn₀ hempty hplan
  obtain ⟨horigins, hs₂⟩ := forM_resolveAlternate_spec hs₁
    (fun p hp => (owns_of_mem_alternates wf hty hp).1) halternates
  refine hnamed.congr (fun p hp k hk => ?_) fun k _ => congrArg (·.find? k) horigins
  refine hs₂.frame ((hnamed.listed p hp).1.declared_of_covers wf hk) ?_
  rintro ⟨q, hq, rfl⟩
  exact named_apart_alternates wf hty (mem_plan_preferredNames.1 hp).1 hq q.1.id (.inl rfl) hk

/-- The members of `ty` are named in order, whether it is usable or not. -/
theorem processMembers_namedInOrder (wf : g.WellFormed) (hty : g.type? t = some ty)
    (hs : Within g options t s₀ s) (hempty : ∀ k, g.Declared t k → s.recordOf k = .empty)
    (h : processMembers g options ensure ty resolved s = .ok (names', s')) :
    NamedInOrder g t (namingPlan (g.preferredNames options ty resolved)) s'.recordOf := by
  obtain ⟨bases, s₁, -, hs₁, -, hempty₁, husable, hunusable⟩ :=
    processMembers_own hensure hty hs hempty h
  by_cases hresolved : resolved.isUsable
  · exact resolveMembers_namedInOrder hensure wf hty hs₁ (.start hempty₁) hempty₁
      (husable hresolved)
  · refine .of_unnamed wf (lists_of_mem_plan wf hty) fun k hk => ?_
    have honly := forM_markNotUsable_onlyLeavesOut (fun _ hm => hm) (hunusable hresolved).1
    rw [recordOf, honly.origins]
    exact congrArg MemberRecord.origin (hempty₁ k hk)

end

/-! ## Resolutions -/

/-- Whenever a type is done, its members have been named in order. -/
theorem namedInOrder_of_done {g : TypeGraph} {options : Options} {t : TypeId} {s : ResolutionState}
    (wf : g.WellFormed) (hs : s.Reached g options) (ht : s.Done t) :
    ∃ ty resolved, g.type? t = some ty ∧ s.types.find? t = some resolved ∧
      NamedInOrder g t (namingPlan (g.preferredNames options ty resolved)) s.recordOf := by
  obtain ⟨p, rfl, hp⟩ := hs.exists_leadsTo wf ht
  refine ⟨p.type, p.resolved, p.known, hp.entry, ?_⟩
  have hnamed := processMembers_namedInOrder (ensureMembersWithin_spec wf p.steps) wf p.known
    hp.before p.unrecorded p.run
  exact hnamed.congr
    (fun q hq k hk => hp.records k ((hnamed.listed q hq).1.declared_of_covers wf hk))
    fun k hk => congrArg MemberRecord.origin (hp.records k hk)

/-- In a resolution `r`, the members of the type of a member `m` that has a name have been named in
order. -/
theorem namedInOrder_of_resolve {g : TypeGraph} (wf : g.WellFormed) {options : Options}
    {roots : List TypeId} {main : AssemblyId} {r : Resolution}
    (h : g.resolve options roots main = .ok r) {m : MemberId} {x : MemberSymbol}
    (hx : g.member? m = some x) (hm : r.origins.find? m ≠ none) :
    ∃ ty resolved, g.type? x.declaringType = some ty ∧
      r.types.find? x.declaringType = some resolved ∧
      NamedInOrder g x.declaringType (namingPlan (g.preferredNames options ty resolved))
        r.recordOf := by
  obtain ⟨s, rfl, hs, hdone⟩ := done_of_resolve wf h hx (.inr hm)
  exact namedInOrder_of_done wf hs hdone

/-- A member that is named by default is named by its `ScriptName`, if it has one. -/
theorem scriptName_chosen {g : TypeGraph} (wf : g.WellFormed) {options : Options}
    {roots : List TypeId} {main : AssemblyId} {r : Resolution}
    (h : g.resolve options roots main = .ok r) {m : MemberId} {x : MemberSymbol}
    (hx : g.member? m = some x) (hown : x.accessorOf = none) (halternate : ¬x.has .alternateSignature)
    {name : String} (hmarker : x.markerText? .scriptName = some (some name))
    (hm : r.origins.find? m ≠ none) :
    r.origins.find? m = some .chosen ∧ (r.recordOf m).name? = some name := by
  obtain ⟨ty, resolved, hty, -, hn⟩ := namedInOrder_of_resolve wf h hx hm
  obtain ⟨preferred, hp⟩ := hn.exists_mem_plan wf hx rfl hown hm
  obtain rfl := wf.member_id hx
  have hmain : g.mainMethod ty x = .none := by
    rw [TypeGraph.mainMethod, if_neg]
    simp [halternate]
  have hpreferred : preferred = ⟨some name, true⟩ := by
    refine (mem_plan_preferredNames.1 hp).2.trans ?_
    rw [TypeGraph.preferredName, hmain]
    simp only [TypeGraph.ownPreferredName, hmarker, Option.getD_some]
  exact hn.chosen_of_isSpecified hp hpreferred hm

/-- The member that `m` is, or whose accessor it is, belongs to a group of names that comes up
before that of `name`. -/
def Resolution.NamedBefore (r : Resolution) (g : TypeGraph) (options : Options) (m : MemberId)
    (name : String) : Prop :=
  ∃ x ty resolved owner, g.member? m = some x ∧ g.type? x.declaringType = some ty ∧
    r.types.find? x.declaringType = some resolved ∧ owner ∈ g.namedMembers ty ∧ owner.Covers m ∧
    [(g.preferredName options ty resolved owner).1.name, some name].Sublist
      (nameGroups (g.preferredNames options ty resolved))

/-- **Chosen names win over allocated ones** unless these come up before: in a resolution `r` of the
graph `g` of a document, a name that is chosen for a method or a field is allocated for another
method or field of its type, or for an accessor, only where the preferred name of the latter or of
its owner comes up in the type before the chosen one. -/
theorem chosen_name_shared_only_before {d : GraphDocument} {g : TypeGraph} (hd : d.link = .ok g)
    {options : Options} {roots : List TypeId} {main : AssemblyId} {r : Resolution}
    (h : g.resolve options roots main = .ok r) {m k : MemberId} {x y : MemberSymbol}
    (hx : g.member? m = some x) (hown : x.accessorOf = none) (hy : g.member? k = some y)
    (htype : y.declaringType = x.declaringType) (hm : r.origins.find? m = some .chosen)
    (hk : r.origins.find? k = some .allocated) {name : String}
    (hname : (r.recordOf m).name? = some name) (hshared : (r.recordOf k).name? = some name) :
    r.NamedBefore g options k name := by
  have wf := (GraphDocument.linked hd).toWellFormed
  have horigin : r.origins.find? m ≠ none := by
    rw [hm]
    exact nofun
  obtain ⟨ty, resolved, hty, hresolved, hn⟩ := namedInOrder_of_resolve wf h hx horigin
  obtain ⟨preferred, hp⟩ := hn.exists_mem_plan wf hx rfl hown horigin
  obtain rfl := wf.member_id hx
  have hchosen : preferred = ⟨some name, true⟩ := hn.eq_of_chosen hp hm hname
  have hplanned : (r.recordOf k).origin ≠ none := fun hnone => nomatch hk.symm.trans hnone
  obtain ⟨q, hq, hcovers⟩ := hn.planned ⟨y, hy, htype⟩ hplanned
  obtain ⟨before, after, hsplit⟩ := List.append_of_mem hq
  obtain ⟨hne, hbefore⟩ := hn.freshFrom hsplit hcovers hk hshared
  rw [hsplit] at hp
  rcases List.mem_append.1 hp with hp | hp
  · exact absurd hname (hbefore _ hp x.id (.inl rfl) horigin)
  rcases List.mem_cons.1 hp with hp | hp
  · -- The accessors of a member do not have the name that it chooses.
    subst hp
    exact absurd (congrArg PreferredName.name hchosen)
      (hne (congrArg PreferredName.isSpecified hchosen))
  have hpairwise := namingPlan_pairwise (g.preferredNames options ty resolved)
  rw [hsplit] at hpairwise
  have hafter := (List.pairwise_cons.1 (List.pairwise_append.1 hpairwise).2.1).1 _ hp
  rw [hchosen] at hafter
  rcases hafter with ⟨hgroup, hspecified⟩ | hsublist
  · exact absurd hgroup (hne (hspecified rfl))
  · obtain ⟨hmem, hpreferred⟩ := mem_plan_preferredNames.1 hq
    rw [hpreferred] at hsublist
    exact ⟨y, ty, resolved, q.1, hy, htype ▸ hty, htype ▸ hresolved, hmem, hcovers, hsublist⟩

/-- A shop with two methods `Add`, and a method whose `ScriptName` is the name that the second of
these is given. -/
def shop : GraphDocument where
  assemblies := []
  types := [exampleClassEntry "Shop" [] [
    exampleMethodEntry "Add" false none,
    ⟨"Add", .public, ⟨false, false, false, false⟩, [⟨"item", "System.Int32"⟩], [], none, [], []⟩,
    ⟨"Zed", .public, ⟨false, false, false, false⟩, [], [], none, [],
      [.ofMarker .scriptName [.str "add$0"]]⟩] []]

/-- The graph of the shop. -/
def shopGraph : TypeGraph := shop.link.toOption.getD ∅

theorem link_shop : shop.link = .ok shopGraph :=
  eq_ok_getD (by decide +kernel)

/-- The second method `Add` belongs to a group that comes up before the name of `Zed`. -/
theorem shop_names_shared_before :
    shop.link = .ok shopGraph ∧ ∃ r x y, shopGraph.resolve {} [⟨0⟩] ⟨0⟩ = .ok r ∧
      shopGraph.member? ⟨2⟩ = some x ∧ x.accessorOf = none ∧ shopGraph.member? ⟨1⟩ = some y ∧
      y.declaringType = x.declaringType ∧ r.origins.find? ⟨2⟩ = some .chosen ∧
      r.origins.find? ⟨1⟩ = some .allocated ∧ (r.recordOf ⟨2⟩).name? = some "add$0" ∧
      (r.recordOf ⟨1⟩).name? = some "add$0" ∧ r.NamedBefore shopGraph {} ⟨1⟩ "add$0" := by
  have hrun : (shopGraph.resolve {} [⟨0⟩] ⟨0⟩).toOption.any fun r =>
      (shopGraph.member? ⟨2⟩).any fun x => (shopGraph.member? ⟨1⟩).any fun y =>
        x.accessorOf = none ∧ y.declaringType = x.declaringType ∧
        r.origins.find? ⟨2⟩ = some .chosen ∧ r.origins.find? ⟨1⟩ = some .allocated ∧
        (r.recordOf ⟨2⟩).name? = some "add$0" ∧ (r.recordOf ⟨1⟩).name? = some "add$0" := by
    decide +kernel
  obtain ⟨r, hr, hrest⟩ := exists_of_any_toOption hrun
  obtain ⟨x, hx, hrest⟩ := (Option.any_eq_true _ _).1 hrest
  obtain ⟨y, hy, hrest⟩ := (Option.any_eq_true _ _).1 hrest
  obtain ⟨hown, htype, hchosen, hallocated, hname, hshared⟩ := of_decide_eq_true hrest
  exact ⟨link_shop, r, x, y, hr, hx, hown, hy, htype, hchosen, hallocated, hname, hshared,
    chosen_name_shared_only_before link_shop hr hx hown hy htype hchosen hallocated hname hshared⟩

/-- The name that the `ScriptName` chooses is allocated for another method, and nothing is
reported. -/
theorem chosen_name_shared :
    shop.link = .ok shopGraph ∧ ∃ r x y, shopGraph.resolve {} [⟨0⟩] ⟨0⟩ = .ok r ∧
      ¬r.hasErrors ∧ shopGraph.member? ⟨2⟩ = some x ∧ x.accessorOf = none ∧
      x.markerText? .scriptName = some (some "add$0") ∧ isIdentifier "add$0" ∧
      shopGraph.member? ⟨1⟩ = some y ∧ y.declaringType = x.declaringType ∧
      r.origins.find? ⟨2⟩ = some .chosen ∧ r.origins.find? ⟨1⟩ = some .allocated ∧
      (r.recordOf ⟨2⟩).name? = some "add$0" ∧ (r.recordOf ⟨1⟩).name? = some "add$0" := by
  have hrun : (shopGraph.resolve {} [⟨0⟩] ⟨0⟩).toOption.any fun r =>
      (shopGraph.member? ⟨2⟩).any fun x => (shopGraph.member? ⟨1⟩).any fun y =>
        ¬r.hasErrors ∧ x.accessorOf = none ∧ x.markerText? .scriptName = some (some "add$0") ∧
        isIdentifier "add$0" ∧ y.declaringType = x.declaringType ∧
        r.origins.find? ⟨2⟩ = some .chosen ∧ r.origins.find? ⟨1⟩ = some .allocated ∧
        (r.recordOf ⟨2⟩).name? = some "add$0" ∧ (r.recordOf ⟨1⟩).name? = some "add$0" := by
    decide +kernel
  obtain ⟨r, hr, hrest⟩ := exists_of_any_toOption hrun
  obtain ⟨x, hx, hrest⟩ := (Option.any_eq_true _ _).1 hrest
  obtain ⟨y, hy, hrest⟩ := (Option.any_eq_true _ _).1 hrest
  obtain ⟨herrors, hown, hmarker, hvalid, htype, hrest⟩ := of_decide_eq_true hrest
  exact ⟨link_shop, r, x, y, hr, herrors, hx, hown, hmarker, hvalid, hy, htype, hrest⟩

end ScriptNaming
