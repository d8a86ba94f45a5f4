import ScriptNaming.Proofs.Steady
import ScriptNaming.Proofs.Succeeding

/-!
# Members are resolved

The members of a type are resolved without a fault (`resolveMembers_endsIn`), if the requests for
the types that it depends on are answered (`AnswersRequests`) and there are fewer members than
suffixes: there is always a name left for the next member, and every reference leads to a member of
the graph.
-/

namespace ScriptNaming

open ResolutionState

/-- While the members of `t` are processed, requests for the types that it depends on succeed. -/
def AnswersRequests (g : TypeGraph) (options : Options) (ensure : TypeId → Resolve Unit)
    (t : TypeId) : Prop :=
  ∀ u, g.DependsOn t u → ∀ s₀ : ResolutionState,
    Succeeds (fun s => Within g options t s₀ s ∧ s.Steady) (ensure u)

/-- The state and the registry are as they should be before a member of `t` is resolved. -/
structure Ready (g : TypeGraph) (options : Options) (t : TypeId) (inherited names : NameRegistry)
    (s : ResolutionState) : Prop where
  within : Within g options t s s
  naming : Naming g t inherited names s
  registers : ∀ name, inherited.contains name → s.Registers g name
  steady : s.Steady

section

variable {g : TypeGraph} {options : Options} {t : TypeId} {ty : TypeSymbol}
  {resolved : ResolvedType} {m : MemberSymbol} {preferred : PreferredName}
  {inherited names names' : NameRegistry} {s₀ s s' : ResolutionState}

theorem Ready.of_framed (h : Ready g options t inherited names s) {K : MemberId → Prop}
    (hs' : Framed g options t K s s') (hn' : Naming g t inherited names' s') (hsteady : s'.Steady) :
    Ready g options t inherited names' s' where
  within := hs'.toWithin.restart
  naming := hn'
  registers name hname := (h.registers name hname).later hs'.grown.toLater
  steady := hsteady

theorem Ready.report (h : Ready g options t inherited names s) (ds : List Diagnostic) :
    Ready g options t inherited names { s with diagnostics := s.diagnostics.addAll ds } := by
  obtain ⟨hs', hn'⟩ := report_naming h.within h.naming ds
  exact h.of_framed hs' hn' (h.steady.apart rfl)

/-! ## Records -/

theorem markNotUsable_succeeds (m : MemberSymbol) :
    Succeeds ResolutionState.Steady (markNotUsable m) := by
  have haccessors : Succeeds ResolutionState.Steady
      (m.accessors.forM (recordMethod · .notUsable)) :=
    .forM fun a _ => .change fun _ hs => hs.apart rfl
  unfold markNotUsable
  cases m.kind with
  | method data => exact .change fun _ hs => hs.apart rfl
  | field => exact .change fun _ hs => hs.apart rfl
  | property data => exact fun _ hs => haccessors (hs.apart rfl)
  | event data => exact fun _ hs => haccessors (hs.apart rfl)

theorem resolveAlternate_succeeds (m main : MemberSymbol) :
    Succeeds ResolutionState.Steady (resolveAlternate m main) := by
  unfold resolveAlternate
  split
  · exact .change fun _ hs => hs.apart rfl
  · exact fun _ hs => hs.apart rfl

/-! ## Names -/

/-- A final name is found if one can be allocated in `names`, and one name is counted out at
most. -/
theorem finalName_endsIn (halloc : ∀ base, ∃ name, names.allocate base = .ok name) :
    EndsIn True (fun _ s' => ∃ counts, s' = { s with interfaceNames := counts } ∧
        ∀ a, counts.used a ≤ s.interfaceNames.used a + 1)
      (finalName ty preferred names s) := by
  have hsame : ∃ counts, s = { s with interfaceNames := counts } ∧
      ∀ a, counts.used a ≤ s.interfaceNames.used a + 1 :=
    ⟨s.interfaceNames, rfl, fun a => Nat.le_succ _⟩
  unfold finalName
  split
  · exact hsame
  · rename_i base _ _
    unfold uniqueName
    split
    · exact ⟨_, rfl, fun a => (s.interfaceNames.used_next_le ty.assembly a).2⟩
    · obtain ⟨name, hname⟩ := halloc base
      rw [run_bind_of_ok (run_liftM_eq_ok.2 ⟨hname, rfl⟩)]
      exact hsame

variable (hmembers : g.members.size < maxNameAllocationAttempts)

include hmembers

/-- A member without a name gets one. -/
theorem nameMember_endsIn (h : Ready g options t inherited names s) {m : MemberSymbol}
    (hm : s.origins.find? m.id = none) :
    EndsIn True (fun _ s' => s'.Steady) (nameMember ty m preferred names s) := by
  have halloc := h.naming.exists_allocate h.registers hmembers
  unfold nameMember
  refine (finalName_endsIn halloc).bind fun p s₁ h₁ => ?_
  obtain ⟨counts, rfl, hcounts⟩ := h₁
  exact h.steady.named hm hcounts p.2

theorem namedMethod_endsIn (h : Ready g options t inherited names s)
    (hm : s.origins.find? m.id = none) :
    EndsIn True (fun _ s' => s'.Steady) (namedMethod g ty m preferred names s) := by
  unfold namedMethod
  split
  · exact (h.report _).steady
  · exact (nameMember_endsIn hmembers h hm).bind fun _ _ hs₁ => hs₁

/-! ## Methods -/

variable {ensure : TypeId → Resolve Unit} (hensure : EnsuresMembers g options ensure)
  (hanswers : AnswersRequests g options ensure t) (linked : g.Linked)

omit hmembers in
include hanswers in
theorem methodSemanticsBy_succeeds (hm : g.Owns t m) {b : MemberId} (hb : b ∈ m.links) :
    Succeeds (fun s => Within g options t s₀ s ∧ s.Steady) (methodSemanticsBy g ensure b) := by
  intro s hs
  unfold methodSemanticsBy
  rw [run_get_bind]
  cases s.methods.find? b with
  | some semantics => exact hs
  | none =>
    cases hy : g.member? b with
    | none => exact hs
    | some y =>
      have hdepends : g.DependsOn t y.declaringType := .inr ⟨m.id, m, hm.1, hm.2, b, hb, y, hy, rfl⟩
      exact (hanswers _ hdepends s₀ hs).bind fun _ s₁ hs₁ => hs₁

include hensure hanswers linked

omit hmembers in
/-- Semantics that a method could take over are looked for without a fault. -/
theorem inheritedMethod?_endsIn (h : Ready g options t inherited names s) (hm : g.Owns t m)
    (isSpecified : Bool) :
    EndsIn True (fun _ s' => Framed g options t (fun _ => False) s s' ∧
        Ready g options t inherited names s')
      (inheritedMethod? g (methodSemanticsBy g ensure) m isSpecified s) := by
  have hreport (ds : List Diagnostic) :
      Succeeds (fun s' => Within g options t s s' ∧ s'.Steady) (report ds) :=
    .change fun s' hs' => ⟨hs'.1.changesAt (.report _ _ ds), hs'.2.apart rfl⟩
  have hsucceeds := inheritedMethod?_succeeds linked.toLayered hm.1 hreport
    (fun b hb => methodSemanticsBy_succeeds hanswers hm hb) isSpecified
  refine (hsucceeds ⟨h.within, h.steady⟩).withRun.mono fun found s₁ h₁ => ?_
  obtain ⟨hrun, -, hsteady⟩ := h₁
  have hs₁ := inheritedMethod?_framed hensure h.within hm hrun
  exact ⟨hs₁, h.of_framed hs₁ (h.naming.of_framed hs₁) hsteady⟩

theorem classifyMethod_endsIn (h : Ready g options t inherited names s) (hm : g.Owns t m)
    (hempty : s.recordOf m.id = .empty) :
    EndsIn True (fun _ s' => s'.Steady)
      (classifyMethod g (methodSemanticsBy g ensure) ty resolved m preferred names s) := by
  unfold classifyMethod
  split
  · exact h.steady
  split
  · exact h.steady
  cases g.markedMethod? ty m preferred.name with
  | some marked => exact (h.report marked.2).steady
  | none =>
    refine (inheritedMethod?_endsIn hensure hanswers linked h hm _).bind fun found s₁ h₁ => ?_
    obtain ⟨hs₁, hready⟩ := h₁
    cases found with
    | some semantics => exact hready.steady
    | none =>
      have hempty₁ : s₁.recordOf m.id = .empty := (hs₁.frame hm.declared not_false).trans hempty
      exact namedMethod_endsIn hmembers hready (congrArg MemberRecord.origin hempty₁)

/-- A method without a record is resolved. -/
theorem resolveMethod_endsIn (h : Ready g options t inherited names s) (hm : g.Owns t m)
    (hempty : s.recordOf m.id = .empty) :
    EndsIn True (fun _ s' => s'.Steady)
      (resolveMethod g (methodSemanticsBy g ensure) ty resolved m preferred names s) := by
  unfold resolveMethod
  refine (classifyMethod_endsIn hmembers hensure hanswers linked h hm hempty).bind fun p s₁ hs₁ => ?_
  exact hs₁.apart rfl

/-! ## Accessors -/

omit hensure hanswers linked in
theorem exists_accessorName (h : Ready g options t inherited names s) (slot : AccessorSlot) :
    ∃ name, (g.memberContext options ensure ty resolved).accessorName m slot preferred names =
      .ok name := by
  unfold MemberContext.accessorName
  dsimp only
  split
  · exact ⟨_, rfl⟩
  split
  · exact ⟨_, rfl⟩
  · obtain ⟨name, hname⟩ := h.naming.exists_allocate h.registers hmembers
      (some (slot.stem ++ preferred.name.getD ""))
    rw [hname]
    exact ⟨_, rfl⟩

theorem resolveAccessor_endsIn (h : Ready g options t inherited names s) (hm : g.Owns t m)
    {slot : AccessorSlot} {a : MemberId} (ha : m.accessor? slot = some a)
    (hempty : s.recordOf a = .empty) :
    EndsIn True (fun _ s' => s'.Steady)
      ((g.memberContext options ensure ty resolved).resolveAccessor m slot preferred a names s) := by
  obtain ⟨y, hy, -⟩ := linked.toWellFormed.accessor hm.1 ha
  obtain rfl := linked.toWellFormed.member_id hy
  have hown := (hm.accessor linked.toWellFormed ha).2 y hy
  have hlookup : (liftM (g.memberOrFault y.id) : Resolve MemberSymbol) s = .ok (y, s) :=
    run_liftM_eq_ok.2 ⟨TypeGraph.memberOrFault_eq_ok_iff.2 hy, rfl⟩
  unfold MemberContext.resolveAccessor
  rw [run_bind_of_ok hlookup]
  dsimp only
  rw [report, run_modify_bind]
  have hreported := h.report (g.preferredName options ty resolved y).2
  split
  · exact resolveMethod_endsIn hmembers hensure hanswers linked hreported hown hempty
  · obtain ⟨name, hname⟩ := exists_accessorName hmembers h slot
    rw [run_bind_of_ok (run_liftM_eq_ok.2 ⟨hname, rfl⟩)]
    exact resolveMethod_endsIn hmembers hensure hanswers linked hreported hown hempty

theorem resolveAccessor?_endsIn (h : Ready g options t inherited names s) (hm : g.Owns t m)
    {slot : AccessorSlot} (hempty : ∀ a, m.accessor? slot = some a → s.recordOf a = .empty) :
    EndsIn True (fun p s' => Framed g options t (m.accessor? slot = some ·) s s' ∧
        Ready g options t inherited p.2 s')
      ((g.memberContext options ensure ty resolved).resolveAccessor? m slot preferred names s) := by
  have hsteady : EndsIn True (fun _ s' => s'.Steady)
      ((g.memberContext options ensure ty resolved).resolveAccessor? m slot preferred names s) := by
    unfold MemberContext.resolveAccessor?
    cases ha : m.accessor? slot with
    | none => exact h.steady
    | some a =>
      refine (resolveAccessor_endsIn hmembers hensure hanswers linked h hm ha (hempty a ha)).bind ?_
      exact fun _ _ hs₁ => hs₁
  refine hsteady.withRun.mono fun p s₁ h₁ => ?_
  obtain ⟨hrun, hs₁⟩ := h₁
  obtain ⟨hframed, hnaming⟩ := resolveAccessor?_naming hensure linked.toWellFormed h.within h.naming
    hm hempty hrun
  exact ⟨hframed, h.of_framed hframed hnaming hs₁⟩

/-- The accessors of `m` in the places `slot` and `slot'` are resolved one after the other. -/
theorem resolveAccessors_endsIn (h : Ready g options t inherited names s) (hm : g.Owns t m)
    {slot slot' : AccessorSlot} (hslot : slot ≠ slot')
    (hempty : ∀ a ∈ m.accessors, s.recordOf a = .empty) :
    EndsIn True (fun p s₁ => EndsIn True (fun _ s' => s'.Steady)
        ((g.memberContext options ensure ty resolved).resolveAccessor? m slot' preferred p.2 s₁))
      ((g.memberContext options ensure ty resolved).resolveAccessor? m slot preferred names s) := by
  have hmem {slot : AccessorSlot} {a : MemberId} (ha : m.accessor? slot = some a) :
      a ∈ m.accessors := MemberSymbol.mem_accessors.2 ⟨slot, ha⟩
  refine (resolveAccessor?_endsIn hmembers hensure hanswers linked h hm
    fun a ha => hempty a (hmem ha)).mono fun p s₁ h₁ => ?_
  obtain ⟨hs₁, hready⟩ := h₁
  have hempty₁ (a : MemberId) (ha : m.accessor? slot' = some a) : s₁.recordOf a = .empty := by
    have hdeclared := (hm.accessor linked.toWellFormed ha).1
    refine (hs₁.frame hdeclared fun ha' => hslot ?_).trans (hempty a (hmem ha))
    exact linked.toWellFormed.slot_unique hm.1 ha' ha
  refine (resolveAccessor?_endsIn hmembers hensure hanswers linked hready hm hempty₁).mono ?_
  exact fun _ _ h₂ => h₂.2.steady

/-! ## Properties -/

theorem accessedProperty_endsIn (h : Ready g options t inherited names s) (hm : g.Owns t m)
    (hempty : ∀ a ∈ m.accessors, s.recordOf a = .empty) :
    EndsIn True (fun _ s' => s'.Steady)
      ((g.memberContext options ensure ty resolved).accessedProperty m preferred names s) := by
  have hslots : AccessorSlot.getter ≠ .setter := by decide
  unfold MemberContext.accessedProperty
  refine (resolveAccessors_endsIn hmembers hensure hanswers linked h hm hslots hempty).bind
    fun getter s₁ h₁ => ?_
  exact h₁.bind fun setter s₂ hs₂ => hs₂

theorem unaliasedProperty_endsIn (h : Ready g options t inherited names s) (hm : g.Owns t m)
    (hempty : ∀ a ∈ m.accessors, s.recordOf a = .empty) :
    EndsIn True (fun _ s' => s'.Steady)
      ((g.memberContext options ensure ty resolved).unaliasedProperty m preferred names s) := by
  unfold MemberContext.unaliasedProperty
  split
  · cases (g.memberContext options ensure ty resolved).intrinsicProperty m preferred.name with
    | ok intrinsic => exact h.steady
    | error d =>
      dsimp only
      rw [report, run_modify_bind]
      exact accessedProperty_endsIn hmembers hensure hanswers linked (h.report [d]) hm hempty
  · exact accessedProperty_endsIn hmembers hensure hanswers linked h hm hempty

theorem classifyProperty_endsIn (h : Ready g options t inherited names s) (hm : g.Owns t m)
    (hempty : ∀ a ∈ m.accessors, s.recordOf a = .empty) :
    EndsIn True (fun _ s' => s'.Steady)
      ((g.memberContext options ensure ty resolved).classifyProperty m preferred names s) := by
  unfold MemberContext.classifyProperty
  generalize ((m.markerText? .scriptAlias).map fun callee =>
    (g.memberContext options ensure ty resolved).aliasedProperty m (callee.getD "")) = aliased
  rcases aliased with _ | d | semantics
  · exact unaliasedProperty_endsIn hmembers hensure hanswers linked h hm hempty
  · dsimp only
    rw [report, run_modify_bind]
    exact unaliasedProperty_endsIn hmembers hensure hanswers linked (h.report [d]) hm hempty
  · exact h.steady

/-! ## Members of all kinds -/

theorem resolveDataMember_endsIn (h : Ready g options t inherited names s) (hm : g.Owns t m)
    (hempty : ∀ k, m.Covers k → s.recordOf k = .empty) :
    EndsIn True (fun _ s' => s'.Steady)
      ((g.memberContext options ensure ty resolved).resolveDataMember m preferred names s) := by
  have haccessors (a : MemberId) (ha : a ∈ m.accessors) : s.recordOf a = .empty :=
    hempty a (.inr ha)
  unfold MemberContext.resolveDataMember
  split
  · exact (markNotUsable_succeeds m h.steady).bind fun _ _ hs₁ => hs₁
  cases m.kind with
  | method data => exact h.steady
  | property data =>
    refine (classifyProperty_endsIn hmembers hensure hanswers linked h hm haccessors).bind
      fun p s₁ hs₁ => ?_
    exact hs₁.apart rfl
  | field =>
    have hown : s.recordOf m.id = .empty := hempty m.id (.inl rfl)
    refine (nameMember_endsIn hmembers h (congrArg MemberRecord.origin hown)).bind
      fun p s₁ hs₁ => ?_
    exact hs₁.apart rfl
  | event data =>
    have hslots : AccessorSlot.adder ≠ .remover := by decide
    refine (resolveAccessors_endsIn hmembers hensure hanswers linked h hm hslots haccessors).bind
      fun adder s₁ h₁ => ?_
    refine h₁.bind fun remover s₂ hs₂ => ?_
    exact hs₂.apart rfl

theorem resolveMember_endsIn (h : Ready g options t inherited names s) (hm : g.Owns t m)
    (hempty : ∀ k, m.Covers k → s.recordOf k = .empty) :
    EndsIn True (fun _ s' => s'.Steady)
      ((g.memberContext options ensure ty resolved).resolveMember m preferred names s) := by
  unfold MemberContext.resolveMember
  split
  · refine (resolveMethod_endsIn hmembers hensure hanswers linked h hm (hempty m.id (.inl rfl))).bind
      fun p s₁ hs₁ => hs₁
  · exact resolveDataMember_endsIn hmembers hensure hanswers linked h hm hempty

/-! ## All members of a type -/

omit hmembers hensure hanswers linked in
/-- A step that keeps the registry together with the records may succeed as well. -/
theorem SettlesNames.total {x : NameRegistry → Resolve NameRegistry}
    (hx : SettlesNames g options t inherited m x)
    (hsucceeds : ∀ names s, Ready g options t inherited names s →
      (∀ k, m.Covers k → s.recordOf k = .empty) → EndsIn True (fun _ s' => s'.Steady) (x names s)) :
    Settles True g options t (Ready g options t inherited) (fun _ _ => True) m x := by
  intro s₀ s names _ h hempty
  refine (hsucceeds names s h hempty).withRun.mono fun names' s' h' => ?_
  obtain ⟨hrun, hsteady⟩ := h'
  obtain ⟨hs', hn'⟩ := hx h.within h.naming hempty hrun
  exact ⟨hs', h.of_framed hs' hn' hsteady, trivial⟩

/-- The own members of a usable type. -/
theorem resolveMembers_endsIn (hty : g.type? t = some ty)
    (h : Ready g options t inherited inherited s)
    (hempty : ∀ k, g.Declared t k → s.recordOf k = .empty) :
    EndsIn True (fun _ s' => s'.Steady)
      ((g.memberContext options ensure ty resolved).resolveMembers inherited s) := by
  have wf := linked.toWellFormed
  have settles : SettlesMembers True (g.memberContext options ensure ty resolved) t
      (Ready g options t inherited) fun _ _ => True := {
    report := fun names s ds h => h.report ds
    member := fun m hm preferred _ => (resolveMember_settles hensure wf hm).total
      fun names s h hempty => resolveMember_endsIn hmembers hensure hanswers linked h hm.1 hempty
    alternate := fun p hp =>
      (resolveAlternate_settles (owns_of_mem_alternates wf hty hp).1 p.2).total
        fun names s h _ => (resolveAlternate_succeeds p.1 p.2 h.steady).bind fun _ _ hs₁ => hs₁ }
  exact (resolveMembers_settles wf (fun _ _ _ h _ => h) settles hty h.within h hempty).mono
    fun names' s' h' => h'.2.1.steady

/-- The members of a type that has just been begun are processed. -/
theorem processMembers_endsIn (hty : g.type? t = some ty) (hs : Within g options t s₀ s)
    (hsteady : s.Steady) (hempty : ∀ k, g.Declared t k → s.recordOf k = .empty) :
    EndsIn True (fun _ s' => s'.Steady) (processMembers g options ensure ty resolved s) := by
  obtain ⟨bases, hbases⟩ := linked.exists_allBaseTypes hty
  have hinherits := TypeGraph.inherits_of_mem_allBaseTypes hty hbases
  have hrequests : Succeeds (fun s' => Within g options t s s' ∧ s'.Steady) (bases.forM ensure) :=
    .forM fun b hb => hanswers b (.inl (hinherits b hb)) s
  unfold processMembers
  rw [run_bind_of_ok (run_liftM_eq_ok.2 ⟨hbases, rfl⟩)]
  refine (hrequests ⟨hs.restart, hsteady⟩).withRun.bind fun _ s₁ h₁ => ?_
  obtain ⟨hrun, hs₁, hsteady₁⟩ := h₁
  rw [run_get_bind]
  split
  · obtain ⟨-, hextends, -⟩ :=
      forM_request hensure (fun b hb => .inl (hinherits b hb)) hs hrun
    have hempty₁ (k : MemberId) (hk : g.Declared t k) : s₁.recordOf k = .empty :=
      (hs.recordOf_meanwhile hextends hk).trans (hempty k hk)
    refine resolveMembers_endsIn hmembers hensure hanswers linked hty ?_ hempty₁
    exact ⟨hs₁.restart, .start hempty₁, fun name => registers_of_merged linked hs₁.reached, hsteady₁⟩
  · have hmark : Succeeds ResolutionState.Steady ((g.canonicalMembers ty).forM markNotUsable) :=
      .forM fun m _ => markNotUsable_succeeds m
    exact (hmark hsteady₁).bind fun _ _ hs₂ => hs₂

end

end ScriptNaming
