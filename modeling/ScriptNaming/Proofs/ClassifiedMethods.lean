import ScriptNaming.Proofs.MethodOutcomes
import ScriptNaming.Proofs.ReachedStates

/-!
# Classified methods

A method of a usable type that is neither left out of script nor an alternate signature
(`TypeGraph.Classifies`) gets its record when it is classified, and at no other time. So a statement
about this record holds in the final state of every resolution if it holds as soon as the method is
classified and whatever comes later keeps it (`JudgesMethod`, `JudgesMethod.of_resolve`).

For such statements there is also what the steps of classification leave behind: the reports about
misplaced markers (`TypeGraph.exists_misplaced_of_markedMethod?`), and which records they change.
-/

namespace ScriptNaming

open ResolutionState

/-- The method `m` is classified together with the members of its type: neither `m` nor the property
or event that it belongs to is left out of script, and `m` does not stand in for a main method. -/
structure TypeGraph.Classifies (g : TypeGraph) (m : MemberSymbol) : Prop where
  known : g.member? m.id = some m
  scriptable : ¬m.has .nonScriptable
  ownerScriptable : ∀ o x, m.accessorOf = some o → g.member? o = some x → ¬x.has .nonScriptable
  noMainMethod : m.accessorOf = none → ∀ ty main, g.type? m.declaringType = some ty →
    g.mainMethod ty m ≠ .unique main

/-! ## Misplaced markers -/

/-- The categories of reports that a marker cannot be on an instance method because of its role in
the hierarchy, or because it is not static. -/
inductive MisplacedCategory (role : HierarchyRole) : String → Prop
  | placed (marker : Marker) (decides : marker = .scriptSkip ∨ marker = .inlineCode) :
    MisplacedCategory role (marker.shortName ++ role.methodCategory)
  | aliased : MisplacedCategory role "NonStaticWithAlias"
  | firstArgument : MisplacedCategory role "InstanceMethodOnFirstArgument"

/-- A marker of `m` that decides over an instance method with the role `role` in the hierarchy is
misplaced, and reported. -/
theorem TypeGraph.exists_misplaced_of_markedMethod? {g : TypeGraph} {ty : TypeSymbol}
    {m : MemberSymbol} {role : HierarchyRole} (hrole : hierarchyRole? ty m = some role)
    (hi : m.isStatic = false) {preferred : Option String} {x : MethodSemantics}
    {ds : List Diagnostic} (h : g.markedMethod? ty m preferred = some (x, ds)) :
    ∃ d ∈ ds, d.entity = g.qualifiedName m ∧ MisplacedCategory role d.category := by
  unfold markedMethod? at h
  split at h
  · rw [skippedMethod, hrole] at h
    obtain ⟨-, rfl⟩ := Prod.mk.inj (Option.some.inj h)
    exact ⟨_, .head _, rfl, .placed .scriptSkip (.inl rfl)⟩
  split at h
  · rw [aliasedMethod, hi] at h
    obtain ⟨-, rfl⟩ := Prod.mk.inj (Option.some.inj h)
    exact ⟨_, .head _, rfl, .aliased⟩
  split at h
  · rw [inlinedMethod, hrole] at h
    obtain ⟨-, rfl⟩ := Prod.mk.inj (Option.some.inj h)
    exact ⟨_, .head _, rfl, .placed .inlineCode (.inr rfl)⟩
  split at h
  · rw [firstArgumentMethod, hi] at h
    obtain ⟨-, rfl⟩ := Prod.mk.inj (Option.some.inj h)
    exact ⟨_, .head _, rfl, .firstArgument⟩
  · cases h

/-! ## Changes by the steps of classification -/

section

variable {g : TypeGraph} {options : Options} {t : TypeId} {ty : TypeSymbol} {m : MemberSymbol}
  {preferred : PreferredName} {names names' : NameRegistry} {s₀ s s' : ResolutionState}

theorem ResolutionState.ChangesAt.trans {K : MemberId → Prop} {s'' : ResolutionState}
    (h : s.ChangesAt K s') (h' : s'.ChangesAt K s'') : s.ChangesAt K s'' where
  types := h'.types.trans h.types
  memberNames := h'.memberNames.trans h.memberNames
  typeGuard := h'.typeGuard.trans h.typeGuard
  memberGuard := h'.memberGuard.trans h.memberGuard
  problems _ _ hp := h'.problems (h.problems hp)
  records k hk := (h'.records k hk).trans (h.records k hk)

/-- Records about the members of the type that is processed add to what is known. -/
theorem ResolutionState.Within.later_of_changesAt (hs : Within g options t s₀ s)
    (h : s.ChangesAt (g.Declared t) s') : s.Later g s' :=
  (hs.restart.changesAt h).grown.toLater

/-- To name `m` records nothing about other members. -/
theorem namedMethod_changesAt {K : MemberId → Prop} (hm : K m.id) {x : MethodSemantics}
    (h : namedMethod g ty m preferred names s = .ok ((x, names'), s')) : s.ChangesAt K s' := by
  obtain ⟨-, ds, rfl⟩ | ⟨name, -, hname⟩ := namedMethod_eq_ok h
  · exact .report _ _ ds
  · obtain ⟨-, counts, origin, rfl, -⟩ := nameMember_eq_ok hname
    exact (ChangesAt.interfaceNames _ s counts).trans (.origin _ hm origin)

variable {ensure : TypeId → Resolve Unit} (hensure : EnsuresMembers g options ensure)

include hensure

theorem reportDisagreement_framed (hs : Within g options t s₀ s) (hm : g.Owns t m)
    {x : MethodSemantics} {u : Unit}
    (h : reportDisagreement g (methodSemanticsBy g ensure) m x s = .ok (u, s')) :
    Framed g options t (fun _ => False) s s' := by
  have hself : Lockstep True (Self (Framed g options t (fun _ => False) s)) Any
      (reportDisagreement g (methodSemanticsBy g ensure) m x)
      (reportDisagreement g (methodSemanticsBy g ensure) (m.renumber .refl) x) :=
    reportDisagreement_lockstep (.refl g) (keepsRecords_framed fun _ h => h.elim) x
      fun b hb => methodSemanticsBy_framed hensure hm hb
  rw [MemberSymbol.renumber_refl] at hself
  exact hself.invariant (.start hs _) h

theorem implementingMethod_framed (hs : Within g options t s₀ s) (hm : g.Owns t m)
    {isSpecified : Bool} {r : Option MethodSemantics}
    (h : implementingMethod g (methodSemanticsBy g ensure) m isSpecified s = .ok (r, s')) :
    Framed g options t (fun _ => False) s s' := by
  have hself : Lockstep True (Self (Framed g options t (fun _ => False) s)) Eq
      (implementingMethod g (methodSemanticsBy g ensure) m isSpecified)
      (implementingMethod g (methodSemanticsBy g ensure) (m.renumber .refl) isSpecified) :=
    implementingMethod_lockstep (.refl g) (keepsRecords_framed fun _ h => h.elim) isSpecified
      fun b hb => methodSemanticsBy_framed hensure hm hb
  rw [MemberSymbol.renumber_refl] at hself
  exact hself.invariant (.start hs _) h

theorem resolveMethod_framed {resolved : ResolvedType} {x : MethodSemantics}
    (hs : Within g options t s₀ s) (hm : g.Owns t m)
    (hp : preferred.name = none → options.minimizeNames)
    (h : resolveMethod g (methodSemanticsBy g ensure) ty resolved m preferred names s =
      .ok ((x, names'), s')) : Framed g options t (· = m.id) s s' := by
  have hdeclared : ∀ k, k = m.id → g.Declared t k := by
    rintro _ rfl
    exact hm.declared
  have hself : Lockstep True (Self (Framed g options t (· = m.id) s)) SameNamed
      (resolveMethod g (methodSemanticsBy g ensure) ty resolved m preferred names)
      (resolveMethod g (methodSemanticsBy g ensure) ty resolved (m.renumber .refl) preferred
        names) :=
    resolveMethod_lockstep (.refl g) (keepsRecords_framed hdeclared)
      (fun _ y hk => recordMethod_framed hdeclared hk y) (.refl ty) (.refl names) resolved hp rfl
      fun _ hb => methodSemanticsBy_framed hensure hm hb
  rw [MemberSymbol.renumber_refl] at hself
  exact hself.invariant (.start hs _) h

end

/-! ## Statements about one method -/

/-- A statement about what is recorded for the method `m`: it holds of `m` once `m` is classified,
and it is kept as long as the record stays the same. -/
structure JudgesMethod (g : TypeGraph) (options : Options) (m : MemberSymbol)
    (J : ResolutionState → Prop) : Prop where
  unrecorded : ∀ ⦃s⦄, s.methods.find? m.id = none → J s
  later : ∀ ⦃s s'⦄, J s → s.Later g s' → s'.methods.find? m.id = s.methods.find? m.id → J s'
  classified : ∀ ⦃ensure ty resolved preferred names names' s₀ s s' x⦄,
    EnsuresMembers g options ensure → Within g options m.declaringType s₀ s →
    ¬ResolvedType.hasGlobalMembers resolved →
    resolveMethod g (methodSemanticsBy g ensure) ty resolved m preferred names s =
      .ok ((x, names'), s') → J s'

section

variable {g : TypeGraph} {m : MemberSymbol} {t : TypeId}

/-- A member that is left out of script, or that belongs to such a member, is not classified. -/
theorem TypeGraph.Classifies.ne_of_covers (wf : g.WellFormed) (hm : g.Classifies m)
    {x : MemberSymbol} (hx : g.Owns t x) (hmark : x.has .nonScriptable) {k : MemberId}
    (hk : x.Covers k) : k ≠ m.id := by
  rintro rfl
  rcases hk with hid | hmem
  · have hknown := hm.known
    rw [hid, hx.1] at hknown
    exact hm.scriptable (Option.some.inj hknown ▸ hmark)
  · obtain ⟨slot, hslot⟩ := MemberSymbol.mem_accessors.1 hmem
    obtain ⟨y, hy, -, howner⟩ := wf.accessor hx.1 hslot
    obtain rfl := Option.some.inj (hy.symm.trans hm.known)
    exact hm.ownerScriptable x.id x howner hx.1 hmark

/-- A method with a main method is not classified. -/
theorem TypeGraph.Classifies.ne_of_mem_alternates (wf : g.WellFormed) (hm : g.Classifies m)
    {ty : TypeSymbol} (hty : g.type? m.declaringType = some ty) {p : MemberSymbol × MemberSymbol}
    (hp : p ∈ g.alternates ty) : p.1.id ≠ m.id := by
  obtain ⟨hp₁, hmain⟩ := TypeGraph.mem_alternates.1 hp
  obtain ⟨hown, hlisted⟩ := TypeGraph.lists_of_mem_canonicalMembers wf hty hp₁
  intro heq
  have hknown := hown.1
  rw [heq, hm.known] at hknown
  obtain rfl := Option.some.inj hknown
  exact hm.noMainMethod hlisted ty p.2 hty hmain

namespace JudgesMethod

variable {options : Options} {J : ResolutionState → Prop} (judges : JudgesMethod g options m J)
  {ensure : TypeId → Resolve Unit} {ty : TypeSymbol} {resolved : ResolvedType}
  {names : NameRegistry} {s₀ s s' : ResolutionState}

include judges

theorem changesAt (h : J s) (hs : Within g options t s₀ s)
    (hchange : s.ChangesAt (g.Declared t) s')
    (hm : s'.methods.find? m.id = s.methods.find? m.id) : J s' :=
  judges.later h (hs.later_of_changesAt hchange) hm

/-- Other methods get records. -/
theorem after_recordMethod (h : J s) (hs : Within g options t s₀ s) {k : MemberId}
    (hk : g.Declared t k) (hne : k ≠ m.id) {x : MethodSemantics} {u : Unit}
    (hrun : recordMethod k x s = .ok (u, s')) : J s' := by
  obtain rfl := recordMethod_eq_ok hrun
  exact judges.changesAt h hs (.method _ hk x) (Table.find?_insert_of_ne _ _ hne)

variable (hensure : EnsuresMembers g options ensure) (wf : g.WellFormed) (hm : g.Classifies m)

include hensure wf hm

theorem keepsMembers (husable : resolved.isUsable) (hglobal : ¬resolved.hasGlobalMembers) :
    KeepsMembers True .refl (g.memberContext options ensure ty resolved)
      (g.memberContext options ensure ty resolved)
      (g.OwnsIn m.declaringType (g.Declared m.declaringType)) (g.Declared m.declaringType)
      (Self fun s => Framed g options m.declaringType (g.Declared m.declaringType) s₀ s ∧ J s) := by
  have k : KeepsMembers True .refl (g.memberContext options ensure ty resolved)
      (g.memberContext options ensure ty resolved)
      (g.OwnsIn m.declaringType (g.Declared m.declaringType)) (g.Declared m.declaringType)
      (Self (Framed g options m.declaringType (g.Declared m.declaringType) s₀)) :=
    keepsMembers_framed hensure wf True resolved
  refine {
    contexts := k.contexts
    records := ?_
    own := k.own
    accessor := k.accessor
    notUsable := fun x hx hmark j hj => ?_
    method := fun x preferred names names' hx hp hn => ?_ }
  · exact {
      report := fun ds => (k.records.report ds).strengthen fun s _ s' hs hJ h => by
        obtain rfl := report_eq_ok h
        exact judges.changesAt hJ hs.toWithin (.report _ _ ds) rfl
      property := fun j x hj => (k.records.property j x hj).strengthen fun s _ s' hs hJ h => by
        obtain ⟨-, rfl⟩ := Prod.ext_iff.1 (Except.ok.inj h)
        exact judges.changesAt hJ hs.toWithin (.property _ hj x) rfl
      field := fun j x hj => (k.records.field j x hj).strengthen fun s _ s' hs hJ h => by
        obtain ⟨-, rfl⟩ := Prod.ext_iff.1 (Except.ok.inj h)
        exact judges.changesAt hJ hs.toWithin (.field _ hj x) rfl
      event := fun j x hj => (k.records.event j x hj).strengthen fun s _ s' hs hJ h => by
        obtain ⟨-, rfl⟩ := Prod.ext_iff.1 (Except.ok.inj h)
        exact judges.changesAt hJ hs.toWithin (.event _ hj x) rfl
      origin := fun j x hj => (k.records.origin j x hj).strengthen fun s _ s' hs hJ h => by
        obtain ⟨-, rfl⟩ := Prod.ext_iff.1 (Except.ok.inj h)
        exact judges.changesAt hJ hs.toWithin (.origin _ hj x) rfl
      counted := fun hmin s _ hs a => by
        obtain ⟨rfl, hs, hJ⟩ := hs
        obtain ⟨hname, -, hs'⟩ := k.records.counted hmin s s ⟨rfl, hs⟩ a
        exact ⟨hname, rfl, hs', judges.changesAt hJ hs.toWithin (.interfaceNames _ _ _) rfl⟩ }
  · have hmark := hmark.resolve_right (not_not.2 husable)
    refine (k.notUsable x hx (.inl hmark) j hj).strengthen fun s _ s' hs hJ h => ?_
    exact judges.after_recordMethod hJ hs.toWithin (hx.2 j hj)
      (hm.ne_of_covers wf hx.1 hmark hj) h
  · refine (k.method x preferred names names' hx hp hn).strengthen fun s p s' hs hJ h => ?_
    by_cases heq : x.id = m.id
    · have hknown := hx.1.1
      rw [heq, hm.known] at hknown
      obtain rfl := Option.some.inj hknown
      exact judges.classified hensure hs.toWithin hglobal h
    · have hframed := resolveMethod_framed hensure hs.toWithin hx.1 hp h
      exact judges.later hJ hframed.grown.toLater (congrArg MemberRecord.method
        (hframed.frame ⟨m, hm.known, rfl⟩ fun h => heq h.symm))

/-- Processing the members of the type keeps the statement. -/
theorem after_processMembers (hty : g.type? m.declaringType = some ty) (husable : resolved.isUsable)
    (hglobal : ¬resolved.hasGlobalMembers) (hs : Within g options m.declaringType s₀ s) (hJ : J s)
    (h : processMembers g options ensure ty resolved s = .ok (names, s')) : J s' := by
  obtain ⟨bases, s₁, hbases, hrun, hresolve, -⟩ := processMembers_eq_ok h
  obtain ⟨hs₁, hextends, -⟩ := forM_request hensure
    (fun c hc => .inl (TypeGraph.inherits_of_mem_allBaseTypes hty hbases c hc)) hs hrun
  have hJ₁ : J s₁ := judges.later hJ hextends.toLater
    (congrArg MemberRecord.method (hextends.inProgress hm.known hs.mem_visiting trivial))
  have hframed : Framed g options m.declaringType (g.Declared m.declaringType) s₀ s₁ :=
    ⟨hs₁, fun k hk hnot => absurd hk hnot⟩
  have halternate (p : MemberSymbol × MemberSymbol) (hp : p ∈ g.alternates ty) :
      Lockstep True (Self fun s =>
        Framed g options m.declaringType (g.Declared m.declaringType) s₀ s ∧ J s) Any
        (resolveAlternate p.1 p.2) (resolveAlternate p.1 p.2) := by
    have hdeclared := (owns_of_mem_alternates wf hty hp).1.declared
    have hne := hm.ne_of_mem_alternates wf hty hp
    refine (resolveAlternate_framed (fun _ h => h) hdeclared p.2).strengthen
      fun s _ s' hs hJ h => ?_
    unfold resolveAlternate at h
    split at h
    · exact judges.after_recordMethod hJ hs.toWithin hdeclared hne h
    · rw [run_get_bind] at h
      exact judges.after_recordMethod hJ hs.toWithin hdeclared hne h
  have k : KeepsMembers True .refl (g.memberContext options ensure ty resolved)
      (g.memberContext options ensure ty resolved)
      (g.OwnsIn m.declaringType (g.Declared m.declaringType)) (g.Declared m.declaringType)
      (Self fun s => Framed g options m.declaringType (g.Declared m.declaringType) s₀ s ∧ J s) :=
    judges.keepsMembers hensure wf hm husable hglobal
  have hself := resolveSameMembers_lockstep k
    (fun x hx => (owns_of_mem_namedMembers wf hty hx).ownsIn wf) halternate
    (.refl (.merged (bases.filterMap s₁.memberNames.find?)))
  exact (hself.invariant ⟨hframed, hJ₁⟩ (hresolve husable)).2

omit hensure in
/-- The statement holds of the method's record in a resolution, if its type is usable. -/
theorem of_resolve {roots : List TypeId} {main : AssemblyId} {r : Resolution}
    (h : g.resolve options roots main = .ok r) (ht : r.types.find? m.declaringType = some resolved)
    (husable : resolved.isUsable) (hglobal : ¬resolved.hasGlobalMembers) {x : MethodSemantics}
    (hx : r.methods.find? m.id = some x) : ∃ s : ResolutionState, r = s.toResolution ∧ J s := by
  obtain ⟨s, rfl, hs, hdone⟩ :=
    done_of_resolve wf h hm.known (.inl (Option.ne_none_iff_exists'.2 ⟨x, hx⟩))
  obtain ⟨p, hid, hp⟩ := hs.exists_leadsTo wf hdone
  have hstart : Within g options m.declaringType p.before p.before := hid ▸ hp.before
  -- The type is resolved when the processing of its members begins.
  have hresolved : p.resolved = resolved := by
    have hentry := hp.entry
    rw [hid] at hentry
    exact Option.some.inj (hentry.symm.trans ht)
  have hbegin : J p.before := judges.unrecorded
    (congrArg MemberRecord.method (p.fresh hm.known hid.symm))
  have hJ := judges.after_processMembers (ensureMembersWithin_spec wf p.steps) wf hm
    (hid ▸ p.known) (hresolved ▸ husable) (hresolved ▸ hglobal) hstart hbegin p.run
  exact ⟨s, rfl, judges.later hJ hp.later
    (congrArg MemberRecord.method (hp.records m.id ⟨m, hm.known, hid.symm⟩))⟩

end JudgesMethod

end

end ScriptNaming
