import ScriptNaming.Proofs.MethodSteps
import ScriptNaming.Resolution.Members

/-!
# Resolving members in lockstep

The steps that resolve the own members of a type, in two resolutions whose states are in a relation
`R`, the second for a renumbered graph. `KeepsMembers` lists what `R` has to be kept by; then the
members of a type are resolved in lockstep (`resolveMembers_lockstep`).
-/

namespace ScriptNaming

/-! ## Preferred names -/

/-- Only with minimization does a member ask for a generated name. -/
theorem TypeGraph.minimizeNames_of_ownPreferredName {g : TypeGraph} {options : Options}
    {resolved : ResolvedType} {m : MemberSymbol}
    (h : (g.ownPreferredName options resolved m).1.name = none) : options.minimizeNames := by
  unfold ownPreferredName at h
  split at h
  · cases h
  · split_ifs at h
    assumption

theorem TypeGraph.minimizeNames_of_preferredName {g : TypeGraph} {options : Options}
    {ty : TypeSymbol} {resolved : ResolvedType} {m : MemberSymbol}
    (h : (g.preferredName options ty resolved m).1.name = none) : options.minimizeNames := by
  unfold preferredName at h
  split at h
  · exact minimizeNames_of_ownPreferredName h
  · exact minimizeNames_of_ownPreferredName h
  · cases h

/-! ## Members with and without a main method -/

theorem TypeGraph.mem_namedMembers {g : TypeGraph} {ty : TypeSymbol} {m : MemberSymbol} :
    m ∈ g.namedMembers ty ↔
      m ∈ g.canonicalMembers ty ∧ ∀ main, g.mainMethod ty m ≠ .unique main := by
  rw [namedMembers, List.mem_filter]
  refine and_congr_right fun _ => ?_
  cases g.mainMethod ty m <;> simp

theorem TypeGraph.mem_alternates {g : TypeGraph} {ty : TypeSymbol}
    {p : MemberSymbol × MemberSymbol} :
    p ∈ g.alternates ty ↔ p.1 ∈ g.canonicalMembers ty ∧ g.mainMethod ty p.1 = .unique p.2 := by
  rw [alternates, List.mem_filterMap]
  constructor
  · rintro ⟨m, hm, hsome⟩
    split at hsome
    · rename_i main hmain
      obtain rfl := Option.some.inj hsome
      exact ⟨hm, hmain⟩
    · cases hsome
  · rintro ⟨hm, hmain⟩
    exact ⟨p.1, hm, by rw [hmain]⟩

namespace MemberContext

/-! ## The plan -/

/-- What the preferred names of the members to be named by `c` have problems with. -/
def planProblems (c : MemberContext) : List Diagnostic :=
  (c.graph.namedMembers c.type).flatMap fun m =>
    (c.graph.preferredName c.options c.type c.resolved m).2

/-- The members to be named by `c` with their preferred names, in the order of naming. -/
def plan (c : MemberContext) : List (MemberSymbol × PreferredName) :=
  namingPlan <| (c.graph.namedMembers c.type).map fun m =>
    (m, (c.graph.preferredName c.options c.type c.resolved m).1)

theorem mem_plan {c : MemberContext} {p : MemberSymbol × PreferredName} :
    p ∈ c.plan ↔ p.1 ∈ c.graph.namedMembers c.type ∧
      p.2 = (c.graph.preferredName c.options c.type c.resolved p.1).1 := by
  rw [plan, mem_namingPlan, List.mem_map]
  constructor
  · rintro ⟨m, hm, rfl⟩
    exact ⟨hm, rfl⟩
  · rintro ⟨hm, hp⟩
    exact ⟨p.1, hm, Prod.ext rfl hp.symm⟩

theorem map_fst_plan_perm (c : MemberContext) :
    (c.plan.map Prod.fst).Perm (c.graph.namedMembers c.type) := by
  refine ((namingPlan_perm _).map Prod.fst).trans (.of_eq ?_)
  rw [List.map_map]
  exact List.map_id _

theorem resolveMembers_eq (c : MemberContext) (inherited : NameRegistry) :
    c.resolveMembers inherited = (do
      report c.planProblems
      let names ← c.plan.foldlM (fun names p => c.resolveMember p.1 p.2 names) inherited
      (c.graph.alternates c.type).forM fun p => resolveAlternate p.1 p.2
      return names) := by
  have hplan : c.plan = namingPlan ((c.graph.namedMembers c.type).zip
      (((c.graph.namedMembers c.type).map fun m =>
        c.graph.preferredName c.options c.type c.resolved m).map Prod.fst)) := by
    rw [plan, List.map_map, ← List.map_prod_left_eq_zip]
    rfl
  have hproblems : c.planProblems = ((c.graph.namedMembers c.type).map fun m =>
      c.graph.preferredName c.options c.type c.resolved m).flatMap Prod.snd := by
    rw [planProblems, List.flatMap_map]
  rw [resolveMembers, hplan, hproblems]

end MemberContext

/-- Two contexts are the same up to renumbering, apart from the way in which the semantics of
methods are looked up. -/
structure MemberContext.Renumbered (ρ : Renumbering) (c c' : MemberContext) : Prop where
  graph : TypeGraph.Renumbered ρ c.graph c'.graph
  options : c'.options = c.options
  type : TypeSymbol.Renumbered ρ c.type c'.type
  resolved : c'.resolved = c.resolved

namespace MemberContext

variable {ρ : Renumbering} {c c' : MemberContext}

theorem planProblems_renumber (e : c.Renumbered ρ c') (hnamed : c'.graph.namedMembers c'.type =
    (c.graph.namedMembers c.type).map (MemberSymbol.renumber ρ)) :
    c'.planProblems = c.planProblems := by
  simp only [planProblems, hnamed, List.flatMap_map, e.options, e.resolved,
    e.graph.preferredName c.options e.type]

theorem plan_renumber (e : c.Renumbered ρ c') (hnamed : c'.graph.namedMembers c'.type =
    (c.graph.namedMembers c.type).map (MemberSymbol.renumber ρ)) :
    c'.plan = c.plan.map (Prod.map (MemberSymbol.renumber ρ) id) := by
  simp only [plan, ← namingPlan_map, hnamed, List.map_map, Function.comp_def, e.options,
    e.resolved, e.graph.preferredName c.options e.type, Prod.map_apply, id]

end MemberContext

/-- A relation of states that is kept when members are resolved that satisfy `Own`, where `K` has
their numbers. -/
structure KeepsMembers (strict : Prop) (ρ : Renumbering) (c c' : MemberContext)
    (Own : MemberSymbol → Prop) (K : MemberId → Prop)
    (R : ResolutionState → ResolutionState → Prop) : Prop where
  contexts : c.Renumbered ρ c'
  records : KeepsRecords strict ρ c.options K R
  own : ∀ m, Own m → K m.id
  accessor : ∀ m, Own m → ∀ slot a, m.accessor? slot = some a →
    K a ∧ ∀ x, c.graph.member? a = some x → Own x
  notUsable : ∀ m, Own m → (m.has .nonScriptable ∨ ¬c.resolved.isUsable) →
    ∀ k, m.Covers k → Lockstep strict R Any (recordMethod k .notUsable)
      (recordMethod (ρ.member k) .notUsable)
  method : ∀ m preferred names names', Own m → (preferred.name = none → c.options.minimizeNames) →
    names.SameNames names' → Lockstep strict R SameNamed
      (resolveMethod c.graph c.semanticsOf c.type c.resolved m preferred names)
      (resolveMethod c'.graph c'.semanticsOf c'.type c'.resolved (m.renumber ρ) preferred names')

section

variable {strict : Prop} {ρ : Renumbering} {c c' : MemberContext} {Own : MemberSymbol → Prop}
  {K : MemberId → Prop} {R : ResolutionState → ResolutionState → Prop}
  (k : KeepsMembers strict ρ c c' Own K R) {m : MemberSymbol} {preferred : PreferredName}
  {names names' : NameRegistry}

include k

/-! ## Members without a place in script -/

theorem markNotUsable_lockstep (hm : Own m) (hmark : m.has .nonScriptable ∨ ¬c.resolved.isUsable) :
    Lockstep strict R Any (markNotUsable m) (markNotUsable (m.renumber ρ)) := by
  have haccessors : Lockstep strict R Any (m.accessors.forM (recordMethod · .notUsable))
      ((m.renumber ρ).accessors.forM (recordMethod · .notUsable)) := by
    have hall : List.Forall₂ (fun a a' => a' = ρ.member a ∧ a ∈ m.accessors) m.accessors
        (m.renumber ρ).accessors := by
      rw [MemberSymbol.accessors_renumber, List.forall₂_map_right_iff, List.forall₂_same]
      exact fun a ha => ⟨rfl, ha⟩
    refine Lockstep.forM (fun a a' ha => ?_) hall
    rw [ha.1]
    exact k.notUsable m hm hmark a (.inr ha.2)
  have hid := k.own m hm
  unfold markNotUsable
  rw [MemberSymbol.kind_renumber]
  cases m.kind with
  | method data => exact k.notUsable m hm hmark _ (.inl rfl)
  | field => exact k.records.field _ _ hid
  | property data => exact (k.records.property _ _ hid).bind fun _ _ _ => haccessors
  | event data => exact (k.records.event _ _ hid).bind fun _ _ _ => haccessors

theorem forM_markNotUsable_lockstep {l : List MemberSymbol} (hown : ∀ m ∈ l, Own m)
    (hunusable : ¬c.resolved.isUsable) :
    Lockstep strict R Any (l.forM markNotUsable)
      ((l.map (MemberSymbol.renumber ρ)).forM markNotUsable) := by
  have hall : List.Forall₂ (fun m m' => m' = m.renumber ρ ∧ m ∈ l) l
      (l.map (MemberSymbol.renumber ρ)) := by
    rw [List.forall₂_map_right_iff, List.forall₂_same]
    exact fun m hm => ⟨rfl, hm⟩
  refine Lockstep.forM ?_ hall
  rintro m _ ⟨rfl, hm⟩
  exact markNotUsable_lockstep k (hown m hm) (.inr hunusable)

namespace MemberContext

/-! ## Accessors -/

omit k in
theorem accessorName_lockstep (e : c.Renumbered ρ c') (slot : AccessorSlot)
    (hn : names.SameNames names') :
    c'.accessorName (m.renumber ρ) slot preferred names' =
      c.accessorName m slot preferred names := by
  simp only [accessorName, e.options, e.graph.isPublicMember, hn.allocate]

omit k in
theorem minimizeNames_of_accessorName {slot : AccessorSlot} {own : PreferredName}
    (h : c.accessorName m slot preferred names = .ok own) (hnone : own.name = none) :
    c.options.minimizeNames := by
  unfold accessorName at h
  dsimp only at h
  split_ifs at h with hspecified hhidden
  · obtain rfl := Except.ok.inj h
    cases hnone
  · exact (Bool.and_eq_true_iff.1 hhidden).1
  · cases hname : names.allocate (some (slot.stem ++ preferred.name.getD "")) with
    | error fault =>
      rw [hname] at h
      cases h
    | ok name =>
      rw [hname] at h
      obtain rfl := Except.ok.inj h
      cases hnone

theorem resolveAccessor_lockstep (slot : AccessorSlot) {a : MemberId}
    (ha : ∀ x, c.graph.member? a = some x → Own x) (hn : names.SameNames names') :
    Lockstep strict R SameNamed (c.resolveAccessor m slot preferred a names)
      (c'.resolveAccessor (m.renumber ρ) slot preferred (ρ.member a) names') := by
  have e := k.contexts
  unfold resolveAccessor
  dsimp only
  refine (Lockstep.lift (e.graph.memberOrFault a).of_strict).bind fun x x' hx => ?_
  obtain ⟨hx, rfl⟩ := hx
  rw [e.options, e.resolved, e.graph.preferredName c.options e.type]
  refine (k.records.report _).bind fun _ _ _ => ?_
  by_cases hspecified : (c.graph.preferredName c.options c.type c.resolved x).1.isSpecified
  · rw [if_pos hspecified, if_pos hspecified]
    have hmethod := k.method x (c.graph.preferredName c.options c.type c.resolved x).1 names names'
      (ha x hx) TypeGraph.minimizeNames_of_preferredName hn
    rw [e.resolved] at hmethod
    exact hmethod
  · rw [if_neg hspecified, if_neg hspecified, accessorName_lockstep e slot hn]
    have hname : SameOutcome strict
        (fun own own' => own = own' ∧ (own.name = none → c.options.minimizeNames))
        (c.accessorName m slot preferred names) (c.accessorName m slot preferred names) := by
      cases h : c.accessorName m slot preferred names with
      | error fault => trivial
      | ok own => exact ⟨rfl, minimizeNames_of_accessorName h⟩
    refine (Lockstep.lift hname).bind fun own own' hown => ?_
    obtain ⟨rfl, hnone⟩ := hown
    have hmethod := k.method x own names names' (ha x hx) hnone hn
    rw [e.resolved] at hmethod
    exact hmethod

theorem resolveAccessor?_lockstep (slot : AccessorSlot) (hm : Own m)
    (hn : names.SameNames names') :
    Lockstep strict R SameNamed (c.resolveAccessor? m slot preferred names)
      (c'.resolveAccessor? (m.renumber ρ) slot preferred names') := by
  unfold resolveAccessor?
  rw [MemberSymbol.accessor?_renumber]
  cases ha : m.accessor? slot with
  | none => exact .pure ⟨rfl, hn⟩
  | some a =>
    refine (resolveAccessor_lockstep k slot (k.accessor m hm slot a ha).2 hn).bind fun p q hpq => ?_
    exact .pure ⟨congrArg some hpq.1, hpq.2⟩

/-! ## Properties -/

section

omit k

variable (e : c.Renumbered ρ c')

include e

theorem propertyProblem_renumber (m : MemberSymbol) (category predicate : String) :
    c'.propertyProblem (m.renumber ρ) category predicate =
      c.propertyProblem m category predicate := by
  simp only [propertyProblem, propertySubject, e.graph.memberDiagnostic, e.graph.ownerName,
    e.graph.qualifiedName, MemberSymbol.isIndexer_renumber]

theorem aliasedProperty_renumber (m : MemberSymbol) (callee : String) :
    c'.aliasedProperty (m.renumber ρ) callee = c.aliasedProperty m callee := by
  simp only [aliasedProperty, propertyProblem_renumber e, MemberSymbol.isIndexer_renumber,
    MemberSymbol.isStatic_renumber, MemberSymbol.accessor?_renumber, Option.map_map,
    Function.comp_def]

theorem intrinsicProperty_renumber (m : MemberSymbol) (preferred : Option String) :
    c'.intrinsicProperty (m.renumber ρ) preferred = c.intrinsicProperty m preferred := by
  simp only [intrinsicProperty, hierarchyRole?_renumber e.type, propertyProblem_renumber e,
    MemberSymbol.isIndexer_renumber, MemberSymbol.name_renumber, MemberSymbol.parameters_renumber,
    MemberSymbol.accessor?_renumber, Option.isSome_map]

end

theorem accessedProperty_lockstep (hm : Own m) (hn : names.SameNames names') :
    Lockstep strict R SameNamed (c.accessedProperty m preferred names)
      (c'.accessedProperty (m.renumber ρ) preferred names') := by
  unfold accessedProperty
  refine (resolveAccessor?_lockstep k .getter hm hn).bind fun p q hpq => ?_
  refine (resolveAccessor?_lockstep k .setter hm hpq.2).bind fun p' q' hpq' => .pure ⟨?_, hpq'.2⟩
  exact congrArg₂ PropertySemantics.getAndSet hpq.1 hpq'.1

theorem unaliasedProperty_lockstep (hm : Own m) (hn : names.SameNames names') :
    Lockstep strict R SameNamed (c.unaliasedProperty m preferred names)
      (c'.unaliasedProperty (m.renumber ρ) preferred names') := by
  unfold unaliasedProperty
  rw [MemberSymbol.has_renumber, intrinsicProperty_renumber k.contexts]
  split
  · cases c.intrinsicProperty m preferred.name with
    | ok intrinsic =>
      obtain ⟨semantics, name⟩ := intrinsic
      cases name with
      | none => exact .pure ⟨rfl, hn⟩
      | some name => exact .pure ⟨rfl, hn.add name _ _⟩
    | error d =>
      exact (k.records.report _).bind fun _ _ _ => accessedProperty_lockstep k hm hn
  · exact accessedProperty_lockstep k hm hn

theorem classifyProperty_lockstep (hm : Own m) (hn : names.SameNames names') :
    Lockstep strict R SameNamed (c.classifyProperty m preferred names)
      (c'.classifyProperty (m.renumber ρ) preferred names') := by
  have haliased : ((m.renumber ρ).markerText? .scriptAlias).map
      (fun callee => c'.aliasedProperty (m.renumber ρ) (callee.getD "")) =
      (m.markerText? .scriptAlias).map fun callee => c.aliasedProperty m (callee.getD "") := by
    simp only [aliasedProperty_renumber k.contexts, MemberSymbol.markerText?_renumber]
  unfold classifyProperty
  rw [haliased]
  rcases (m.markerText? .scriptAlias).map _ with _ | d | semantics
  · exact unaliasedProperty_lockstep k hm hn
  · exact (k.records.report _).bind fun _ _ _ => unaliasedProperty_lockstep k hm hn
  · exact .pure ⟨rfl, hn⟩

/-! ## Members of all kinds -/

theorem resolveDataMember_lockstep (hm : Own m)
    (hp : preferred.name = none → c.options.minimizeNames) (hn : names.SameNames names') :
    Lockstep strict R NameRegistry.SameNames (c.resolveDataMember m preferred names)
      (c'.resolveDataMember (m.renumber ρ) preferred names') := by
  unfold resolveDataMember
  rw [MemberSymbol.has_renumber, MemberSymbol.kind_renumber]
  split
  · rename_i hmark
    exact (markNotUsable_lockstep k hm (.inl hmark)).bind fun _ _ _ => .pure hn
  cases m.kind with
  | method data => exact .pure hn
  | property data =>
    refine (classifyProperty_lockstep k hm hn).bind fun p q hpq => ?_
    obtain ⟨semantics, names⟩ := p
    obtain ⟨semantics', names'⟩ := q
    obtain ⟨rfl, hn⟩ := hpq
    exact (k.records.property m.id semantics (k.own m hm)).bind fun _ _ _ => .pure hn
  | field =>
    refine (nameMember_lockstep k.records k.contexts.type hn hp (k.own m hm)).bind
      fun p q hpq => ?_
    obtain ⟨name, names⟩ := p
    obtain ⟨name', names'⟩ := q
    obtain ⟨rfl, hn⟩ := hpq
    exact (k.records.field m.id (.field name) (k.own m hm)).bind fun _ _ _ => .pure hn
  | event data =>
    refine (resolveAccessor?_lockstep k .adder hm hn).bind fun p q hpq => ?_
    refine (resolveAccessor?_lockstep k .remover hm hpq.2).bind fun p' q' hpq' => ?_
    obtain ⟨adder, names⟩ := p
    obtain ⟨adder', names'⟩ := q
    obtain ⟨remover, names₂⟩ := p'
    obtain ⟨remover', names₂'⟩ := q'
    obtain ⟨rfl, -⟩ := hpq
    obtain ⟨rfl, hn⟩ := hpq'
    exact (k.records.event m.id (.addAndRemove adder remover) (k.own m hm)).bind
      fun _ _ _ => .pure hn

theorem resolveMember_lockstep (hm : Own m)
    (hp : preferred.name = none → c.options.minimizeNames) (hn : names.SameNames names') :
    Lockstep strict R NameRegistry.SameNames (c.resolveMember m preferred names)
      (c'.resolveMember (m.renumber ρ) preferred names') := by
  unfold resolveMember
  rw [MemberSymbol.isMethod_renumber]
  split
  · exact (k.method m preferred names names' hm hp hn).bind fun p q hpq => .pure hpq.2
  · exact resolveDataMember_lockstep k hm hp hn

/-! ## All members of a type -/

/-- All own members of the type of `c` are resolved in lockstep, if that of `c'` has the same
members to be named and the same alternate signatures. -/
theorem resolveMembers_lockstep
    (hnamed : c'.graph.namedMembers c'.type =
      (c.graph.namedMembers c.type).map (MemberSymbol.renumber ρ))
    (hown : ∀ m ∈ c.graph.namedMembers c.type, Own m)
    (halternates : c'.graph.alternates c'.type = (c.graph.alternates c.type).map
      (Prod.map (MemberSymbol.renumber ρ) (MemberSymbol.renumber ρ)))
    (halternate : ∀ p ∈ c.graph.alternates c.type, Lockstep strict R Any
      (resolveAlternate p.1 p.2) (resolveAlternate (p.1.renumber ρ) (p.2.renumber ρ)))
    (hn : names.SameNames names') :
    Lockstep strict R NameRegistry.SameNames (c.resolveMembers names)
      (c'.resolveMembers names') := by
  have hplan : List.Forall₂ (fun p p' => p' = Prod.map (MemberSymbol.renumber ρ) id p ∧
      Own p.1 ∧ (p.2.name = none → c.options.minimizeNames)) c.plan c'.plan := by
    rw [plan_renumber k.contexts hnamed, List.forall₂_map_right_iff, List.forall₂_same]
    intro p hp
    obtain ⟨hm, hpreferred⟩ := mem_plan.1 hp
    rw [hpreferred]
    exact ⟨rfl, hown p.1 hm, TypeGraph.minimizeNames_of_preferredName⟩
  have hall : List.Forall₂ (fun p p' => p' = Prod.map (MemberSymbol.renumber ρ)
      (MemberSymbol.renumber ρ) p ∧ p ∈ c.graph.alternates c.type) (c.graph.alternates c.type)
      (c'.graph.alternates c'.type) := by
    rw [halternates, List.forall₂_map_right_iff, List.forall₂_same]
    exact fun p hp => ⟨rfl, hp⟩
  rw [resolveMembers_eq, resolveMembers_eq, planProblems_renumber k.contexts hnamed]
  refine (k.records.report _).bind fun _ _ _ => ?_
  refine Lockstep.bind (Lockstep.foldlM ?_ hplan hn) fun p q hpq => ?_
  · rintro names names' ⟨m, preferred⟩ _ hn ⟨rfl, hm, hp⟩
    exact resolveMember_lockstep k hm hp hn
  · refine (Lockstep.forM ?_ hall).bind fun _ _ _ => .pure hpq
    rintro p _ ⟨rfl, hp⟩
    exact halternate p hp

end MemberContext

end

/-! ## All members of the same type -/

section

variable {strict : Prop} {g : TypeGraph} {options : Options} {ty : TypeSymbol}
  {resolved : ResolvedType} {lookup lookup' : MemberId → Resolve (Option MethodSemantics)}
  {Own : MemberSymbol → Prop} {K : MemberId → Prop}
  {R : ResolutionState → ResolutionState → Prop}
  (k : KeepsMembers strict .refl ⟨g, options, lookup, ty, resolved⟩
    ⟨g, options, lookup', ty, resolved⟩ Own K R)

include k

/-- Two resolutions of the members of one type, in one graph, are in lockstep. -/
theorem resolveSameMembers_lockstep {names names' : NameRegistry}
    (hown : ∀ m ∈ g.namedMembers ty, Own m)
    (halternate : ∀ p ∈ g.alternates ty, Lockstep strict R Any (resolveAlternate p.1 p.2)
      (resolveAlternate p.1 p.2)) (hn : names.SameNames names') :
    Lockstep strict R NameRegistry.SameNames
      (MemberContext.resolveMembers ⟨g, options, lookup, ty, resolved⟩ names)
      (MemberContext.resolveMembers ⟨g, options, lookup', ty, resolved⟩ names') := by
  refine MemberContext.resolveMembers_lockstep k ?_ hown ?_ (fun p hp => ?_) hn
  · rw [renumber_refl_eq_id, List.map_id]
  · rw [renumber_refl_eq_id, Prod.map_id, List.map_id]
  · rw [MemberSymbol.renumber_refl, MemberSymbol.renumber_refl]
    exact halternate p hp

theorem markSameNotUsable_lockstep {l : List MemberSymbol} (hown : ∀ m ∈ l, Own m)
    (hunusable : ¬resolved.isUsable) :
    Lockstep strict R Any (l.forM markNotUsable) (l.forM markNotUsable) := by
  have hmark := forM_markNotUsable_lockstep k hown hunusable
  rwa [renumber_refl_eq_id, List.map_id] at hmark

end

end ScriptNaming
