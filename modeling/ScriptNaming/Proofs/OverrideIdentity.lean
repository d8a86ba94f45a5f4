import ScriptNaming.Document.Linking
import ScriptNaming.Proofs.ClassifiedMethods

/-!
# Override identity

An instance method that overrides a method of another type has the same semantics as that method,
unless one of its own markers decides against it, which is then reported
(`override_semantics_eq`).

The type of the overridden method comes earlier, so that it is done as soon as its method is asked
for (`inheritedMethod?_spec`). What is recorded about it then is final, and whatever is recorded for
the override goes with it (`FollowsOverridden`) from the moment when the override is classified.
-/

namespace ScriptNaming

open ResolutionState

/-! ## Misplaced markers -/

/-- The categories of reports about markers that cannot be on an overriding instance method. -/
def misplacedMarkerCategories : List String :=
  ["ScriptSkipOnInterfaceMember", "ScriptSkipOnOverridable", "NonStaticWithAlias",
    "InlineCodeOnInterfaceMember", "InlineCodeOnOverridable", "InstanceMethodOnFirstArgument"]

theorem exists_hierarchyRole_of_isOverride (ty : TypeSymbol) {m : MemberSymbol}
    (ho : m.isOverride) : ∃ role, hierarchyRole? ty m = some role := by
  rw [hierarchyRole?, if_pos ho]
  split <;> exact ⟨_, rfl⟩

theorem MisplacedCategory.mem_of_isOverride {ty : TypeSymbol} {m : MemberSymbol}
    (ho : m.isOverride) {role : HierarchyRole} (hrole : hierarchyRole? ty m = some role)
    {category : String} (h : MisplacedCategory role category) :
    category ∈ misplacedMarkerCategories := by
  rw [hierarchyRole?, if_pos ho] at hrole
  split at hrole
  all_goals
    obtain rfl := Option.some.inj hrole
    cases h with
    | placed marker decides => rcases decides with rfl | rfl <;> decide
    | aliased => decide
    | firstArgument => decide

/-! ## Overrides -/

/-- The instance method `m` overrides the method `b` of another type. Neither `m` nor the property
or event that it belongs to is left out of script, and `m` does not stand in for a main method. -/
structure TypeGraph.Overrides (g : TypeGraph) (m b : MemberSymbol) : Prop where
  known : g.member? m.id = some m
  target : g.member? b.id = some b
  overridden : m.overridden = some b.id
  otherType : b.declaringType ≠ m.declaringType
  isOverride : m.isOverride
  isInstance : m.isStatic = false
  scriptable : ¬m.has .nonScriptable
  ownerScriptable : ∀ o x, m.accessorOf = some o → g.member? o = some x → ¬x.has .nonScriptable
  noMainMethod : m.accessorOf = none → ∀ ty main, g.type? m.declaringType = some ty →
    g.mainMethod ty m ≠ .unique main

theorem TypeGraph.Overrides.classifies {g : TypeGraph} {m b : MemberSymbol} (h : g.Overrides m b) :
    g.Classifies m where
  known := h.known
  scriptable := h.scriptable
  ownerScriptable := h.ownerScriptable
  noMainMethod := h.noMainMethod

/-- The method `b` that `m` overrides is one of an earlier type. -/
theorem TypeGraph.Overrides.index_lt {g : TypeGraph} {m b : MemberSymbol} (h : g.Overrides m b)
    (layered : g.Layered) : b.declaringType.index < m.declaringType.index := by
  have hlink : g.LinksTo m.declaringType b.declaringType :=
    ⟨m.id, m, h.known, rfl, b.id, MemberSymbol.mem_links.2 (.inl h.overridden), b, h.target, rfl⟩
  exact Nat.lt_of_le_of_ne (layered.link_le hlink) fun heq => h.otherType (TypeId.eq_of_index heq)

/-- What is recorded for the override `m` goes with what it overrides: the type of `b` is done, and
`m` has the semantics of `b`, if there are any; or a misplaced marker of `m` has been reported. -/
def FollowsOverridden (g : TypeGraph) (m b : MemberSymbol) (s : ResolutionState) : Prop :=
  ∀ x, s.methods.find? m.id = some x →
    (s.Done b.declaringType ∧ ∀ y, s.methods.find? b.id = some y → x = y) ∨
      ∃ category ∈ misplacedMarkerCategories,
        s.diagnostics.contains (g.qualifiedName m) category

theorem FollowsOverridden.later {g : TypeGraph} {m b : MemberSymbol} {s s' : ResolutionState}
    (h : FollowsOverridden g m b s) (hb : g.member? b.id = some b) (hlater : s.Later g s')
    (hm : s'.methods.find? m.id = s.methods.find? m.id) : FollowsOverridden g m b s' := by
  intro x hx
  rw [hm] at hx
  rcases h x hx with ⟨hdone, hsame⟩ | ⟨category, hcategory, hreported⟩
  · refine .inl ⟨hlater.done hdone, fun y hy => hsame y ?_⟩
    have hmethod : s'.methods.find? b.id = s.methods.find? b.id :=
      congrArg MemberRecord.method (hlater.records hb hdone)
    rwa [hmethod] at hy
  · exact .inr ⟨category, hcategory, hlater.problems hreported⟩

section

variable {g : TypeGraph} {options : Options} {ensure : TypeId → Resolve Unit}
  (hensure : EnsuresMembers g options ensure) {t : TypeId} {ty : TypeSymbol}
  {resolved : ResolvedType} {m b : MemberSymbol} {preferred : PreferredName}
  {names names' : NameRegistry} {s₀ s s' : ResolutionState}

include hensure

/-! ## What an override takes over -/

/-- An override `m` takes over what is recorded for the overridden method `b`, whose type is done
then. -/
theorem overridingMethod_spec (layered : g.Layered) (hs : Within g options m.declaringType s₀ s)
    (hmb : g.Overrides m b) {isSpecified : Bool} {r : Option MethodSemantics}
    (h : overridingMethod g (methodSemanticsBy g ensure) m isSpecified s = .ok (r, s')) :
    Within g options m.declaringType s s' ∧ s'.Done b.declaringType ∧
      r = s'.methods.find? b.id := by
  have hm : g.Owns m.declaringType m := ⟨hmb.known, rfl⟩
  have hlink := MemberSymbol.mem_links.2 (.inl hmb.overridden)
  unfold overridingMethod at h
  rw [run_bind_eq_ok] at h
  obtain ⟨_, s₁, hreport, h⟩ := h
  obtain rfl := report_eq_ok hreport
  have hs₁ := (Framed.start hs fun _ => False).changesAt (fun _ h => h.elim)
    (.report _ _ (g.overrideMarkerProblems m isSpecified))
  rw [hmb.overridden] at h
  dsimp only at h
  rw [run_bind_eq_ok] at h
  obtain ⟨found, s₂, hsemantics, h⟩ := h
  obtain ⟨hs₂, -, rfl, hbegun⟩ := methodSemanticsBy_spec hensure hs₁.toWithin
    (fun y hy => .inr ⟨m.id, m, hmb.known, rfl, b.id, hlink, y, hy, rfl⟩) hsemantics
  have hdone := hs₂.done_of_lt layered (hmb.index_lt layered) (hbegun b hmb.target)
  cases hfound : s₂.methods.find? b.id with
  | none =>
    rw [hfound] at h
    obtain ⟨rfl, rfl⟩ := run_pure_eq_ok.1 h
    exact ⟨hs₂, hdone, hfound.symm⟩
  | some y =>
    rw [hfound] at h
    dsimp only at h
    rw [run_bind_eq_ok] at h
    obtain ⟨_, s₃, hdisagreement, h⟩ := h
    obtain ⟨rfl, rfl⟩ := run_pure_eq_ok.1 h
    have hs₃ := reportDisagreement_framed hensure hs₂ hm hdisagreement
    have hmethod : s'.methods.find? b.id = s₂.methods.find? b.id :=
      congrArg MemberRecord.method (hs₃.grown.records hmb.target hdone)
    exact ⟨hs₂.trans hs₃.toWithin, hs₃.grown.done hdone, by rw [hmethod, hfound]⟩

theorem inheritedMethod?_spec (layered : g.Layered) (hs : Within g options m.declaringType s₀ s)
    (hmb : g.Overrides m b) {isSpecified : Bool} {r : Option MethodSemantics}
    (h : inheritedMethod? g (methodSemanticsBy g ensure) m isSpecified s = .ok (r, s')) :
    Within g options m.declaringType s s' ∧ s'.Done b.declaringType ∧
      ∀ y, s'.methods.find? b.id = some y → r = some y := by
  unfold inheritedMethod? at h
  rw [if_pos hmb.isOverride, run_bind_eq_ok] at h
  obtain ⟨overriding, s₁, hoverriding, h⟩ := h
  obtain ⟨hs₁, hdone, hr⟩ := overridingMethod_spec hensure layered hs hmb hoverriding
  cases overriding with
  | some y =>
    obtain ⟨rfl, rfl⟩ := run_pure_eq_ok.1 h
    exact ⟨hs₁, hdone, fun z hz => hr.trans hz⟩
  | none =>
    -- Without semantics of the overridden method, nothing is claimed about what follows.
    have hrest : Framed g options m.declaringType (fun _ => False) s₁ s' := by
      dsimp only at h
      split at h
      · obtain ⟨rfl, rfl⟩ := run_pure_eq_ok.1 h
        exact .start hs₁ _
      · exact implementingMethod_framed hensure hs₁ ⟨hmb.known, rfl⟩ h
    have hmethod : s'.methods.find? b.id = s₁.methods.find? b.id :=
      congrArg MemberRecord.method (hrest.grown.records hmb.target hdone)
    refine ⟨hs₁.trans hrest.toWithin, hrest.grown.done hdone, fun y hy => ?_⟩
    rw [hmethod, ← hr] at hy
    cases hy

/-! ## The override itself -/

/-- When the override `m` is resolved, its record goes with the overridden method `b`. -/
theorem resolveMethod_follows (layered : g.Layered) (hs : Within g options m.declaringType s₀ s)
    (hmb : g.Overrides m b) (hglobal : ¬resolved.hasGlobalMembers) {x : MethodSemantics}
    (h : resolveMethod g (methodSemanticsBy g ensure) ty resolved m preferred names s =
      .ok ((x, names'), s')) : FollowsOverridden g m b s' := by
  obtain ⟨s₁, hclassify, rfl⟩ := resolveMethod_eq_ok h
  intro x' hx'
  obtain rfl := Option.some.inj ((Table.find?_insert_self _ _ _).symm.trans hx')
  have hne : m.id ≠ b.id := by
    intro heq
    have hsame := hmb.target
    rw [← heq, hmb.known] at hsame
    exact hmb.otherType (congrArg MemberSymbol.declaringType (Option.some.inj hsame).symm)
  have hsame {y : MethodSemantics} (hy : (s₁.methods.insert m.id x).find? b.id = some y) :
      s₁.methods.find? b.id = some y := by rwa [Table.find?_insert_of_ne _ _ hne] at hy
  obtain ⟨hexcluded, -⟩ | ⟨ds, hmarked, -, rfl⟩ | ⟨found, s₂, hinherited, hrest⟩ :=
    classifyMethod_eq_ok hclassify
  · exact (hexcluded.elim hmb.scriptable hglobal).elim
  · obtain ⟨role, hrole⟩ := exists_hierarchyRole_of_isOverride ty hmb.isOverride
    obtain ⟨d, hd, hentity, hcategory⟩ :=
      TypeGraph.exists_misplaced_of_markedMethod? hrole hmb.isInstance hmarked
    refine .inr ⟨d.category, hcategory.mem_of_isOverride hmb.isOverride hrole,
      DiagnosticBag.contains_addAll.2 (.inl ⟨d, hd, ?_⟩)⟩
    rw [Diagnostic.key, hentity]
  obtain ⟨-, hdone, hfound⟩ := inheritedMethod?_spec hensure layered hs hmb hinherited
  obtain ⟨rfl, -, rfl⟩ | ⟨rfl, hnamed⟩ := hrest
  · exact .inl ⟨hdone, fun y hy => Option.some.inj (hfound y (hsame hy))⟩
  · -- A name of its own means that there was nothing to take over.
    have hstate : s₁.methods = s₂.methods ∧ s₁.memberNames = s₂.memberNames := by
      obtain ⟨-, ds, rfl⟩ | ⟨name, -, hname⟩ := namedMethod_eq_ok hnamed
      · exact ⟨rfl, rfl⟩
      · obtain ⟨-, counts, origin, rfl, -⟩ := nameMember_eq_ok hname
        exact ⟨rfl, rfl⟩
    refine .inl ⟨?_, fun y hy => ?_⟩
    · change s₁.memberNames.contains b.declaringType
      rw [hstate.2]
      exact hdone
    · have hy := hsame hy
      rw [hstate.1] at hy
      cases hfound y hy

omit hensure in
theorem FollowsOverridden.judges (layered : g.Layered) (hmb : g.Overrides m b) :
    JudgesMethod g options m (FollowsOverridden g m b) where
  unrecorded s hm x hx := by rw [hm] at hx; cases hx
  later s s' h hlater hm := h.later hmb.target hlater hm
  classified _ _ _ _ _ _ _ _ _ _ hensure hs hglobal h :=
    resolveMethod_follows hensure layered hs hmb hglobal h

/-- Processing the members of `ty` keeps what is recorded for the override `m` in step with the
overridden method `b`. -/
theorem processMembers_follows (linked : g.Linked) (hmb : g.Overrides m b)
    (hty : g.type? m.declaringType = some ty) (husable : resolved.isUsable)
    (hglobal : ¬resolved.hasGlobalMembers) (hs : Within g options m.declaringType s₀ s)
    (hJ : FollowsOverridden g m b s)
    (h : processMembers g options ensure ty resolved s = .ok (names, s')) :
    FollowsOverridden g m b s' :=
  (FollowsOverridden.judges linked.toLayered hmb).after_processMembers hensure
    linked.toWellFormed hmb.classifies hty husable hglobal hs hJ h

end

/-! ## Resolutions -/

/-- **Overrides keep the identity of what they override**: in a resolution `r` of the graph `g` of a
document, an overriding instance method `m` of a usable type has the same semantics as the
overridden method `b` of another type, or a misplaced marker of `m` has been reported. -/
theorem override_semantics_eq {d : GraphDocument} {g : TypeGraph} (hd : d.link = .ok g)
    {options : Options} {roots : List TypeId} {main : AssemblyId} {r : Resolution}
    (h : g.resolve options roots main = .ok r) {m b : MemberSymbol} (hmb : g.Overrides m b)
    {resolved : ResolvedType} (ht : r.types.find? m.declaringType = some resolved)
    (husable : resolved.isUsable) (hglobal : ¬resolved.hasGlobalMembers) {x y : MethodSemantics}
    (hx : r.methods.find? m.id = some x) (hy : r.methods.find? b.id = some y) :
    x = y ∨ ∃ category ∈ misplacedMarkerCategories,
      r.diagnostics.contains (g.qualifiedName m) category := by
  have linked := GraphDocument.linked hd
  obtain ⟨s, rfl, hs, hvisiting⟩ := reached_of_resolve linked.toWellFormed h
  have hrecord : s.recordOf m.id ≠ .empty := fun hempty => by
    cases hx.symm.trans (congrArg MemberRecord.method hempty)
  obtain ⟨z, names, hz, hnames⟩ := hs.sound.names_of_record hvisiting hrecord
  obtain rfl := Option.some.inj (hz.symm.trans hmb.known)
  obtain ⟨p, hid, -, hlater, hbefore⟩ := hs.traced.exists_processing hnames
  -- The type is resolved when the processing of its members begins.
  have hstart : Within g options z.declaringType p.before p.before := hid ▸ p.within_before hbefore
  have hensure : EnsuresMembers g options (ensureMembersWithin g options p.steps) :=
    ensureMembersWithin_spec linked.toWellFormed p.steps
  have hafter := processMembers_within hensure linked.toWellFormed (hid ▸ p.known) hstart p.run
  have hend : p.after.Later g s := (p.later_finished (hid ▸ hafter)).trans hlater
  have hresolved : p.resolved = resolved := by
    have hentry := hend.types (hafter.grown.types p.entry)
    rw [hid] at hentry
    exact Option.some.inj (hentry.symm.trans ht)
  have hbegin : FollowsOverridden g z b p.before := by
    intro x hx
    have hfresh := p.fresh hmb.known hid.symm
    cases hx.symm.trans (congrArg MemberRecord.method hfresh)
  have hfollows := processMembers_follows hensure linked hmb (hid ▸ p.known)
    (hresolved ▸ husable) (hresolved ▸ hglobal) hstart hbegin p.run
  have hfinal : FollowsOverridden g z b s := by
    refine hfollows.later hmb.target hend ?_
    exact congrArg MemberRecord.method (hlater.records hmb.known (hid ▸ p.done_finished))
  rcases hfinal x hx with ⟨-, hsame⟩ | hreported
  · exact .inl (hsame y hy)
  · exact .inr hreported

/-- The virtual method of the example's base class. -/
def animalSpeak : MemberSymbol :=
  ⟨⟨0⟩, "Speak", ⟨0⟩, .public, { isVirtual := true }, none, [], [], .method ⟨[], [], none⟩⟩

/-- The override of `animalSpeak` in the derived class. -/
def dogSpeak : MemberSymbol :=
  ⟨⟨1⟩, "Speak", ⟨1⟩, .public, { isOverride := true }, some ⟨0⟩, [], [], .method ⟨[], [], none⟩⟩

theorem overrides_dogSpeak : animalGraph.Overrides dogSpeak animalSpeak where
  known := by decide +kernel
  target := by decide +kernel
  overridden := rfl
  otherType := by decide
  isOverride := rfl
  isInstance := rfl
  scriptable := by decide
  ownerScriptable _ _ h := nomatch h
  noMainMethod _ _ _ _ h := nomatch h

theorem dogSpeak_semantics_eq :
    animals.link = .ok animalGraph ∧ animalGraph.Overrides dogSpeak animalSpeak ∧
      ∃ r resolved x y, animalGraph.resolve {} [⟨1⟩] ⟨0⟩ = .ok r ∧
        r.types.find? dogSpeak.declaringType = some resolved ∧ resolved.isUsable ∧
        ¬resolved.hasGlobalMembers ∧ r.methods.find? dogSpeak.id = some x ∧
        r.methods.find? animalSpeak.id = some y ∧
        (x = y ∨ ∃ category ∈ misplacedMarkerCategories,
          r.diagnostics.contains (animalGraph.qualifiedName dogSpeak) category) := by
  have h : (animalGraph.resolve {} [⟨1⟩] ⟨0⟩).toOption.any fun r =>
      (r.types.find? ⟨1⟩).any (fun t => t.isUsable ∧ ¬t.hasGlobalMembers) ∧
        r.methods.contains ⟨1⟩ ∧ r.methods.contains ⟨0⟩ := by
    decide +kernel
  obtain ⟨r, hr, hentries⟩ := exists_of_any_toOption h
  obtain ⟨htype, hx, hy⟩ := of_decide_eq_true hentries
  obtain ⟨resolved, ht, hresolved⟩ := (Option.any_eq_true _ _).1 htype
  obtain ⟨husable, hglobal⟩ := of_decide_eq_true hresolved
  obtain ⟨x, hx⟩ := Option.isSome_iff_exists.1 hx
  obtain ⟨y, hy⟩ := Option.isSome_iff_exists.1 hy
  exact ⟨link_animals, overrides_dogSpeak, r, resolved, x, y, hr, ht, husable, hglobal, hx, hy,
    override_semantics_eq link_animals hr overrides_dogSpeak ht husable hglobal hx hy⟩

end ScriptNaming
