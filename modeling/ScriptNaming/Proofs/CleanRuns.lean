import ScriptNaming.Proofs.CleanSteps

/-!
# Runs without diagnostics

The steps that resolve properties, fields, events and types in a run without diagnostics, one lemma
for each function. At the end of such a run all names in the tables for members have a property that
the preferred names of members have and that is kept when names are told apart
(`names_of_clean_resolve`).
-/

namespace ScriptNaming

open ResolutionState

/-! ## Properties, fields and events -/

namespace MemberContext

variable {options : Options} {P : String → Prop} {H : Prop} {c : MemberContext}
  (hsem : ∀ b, Clean True (c.graph.NamesIn options P) (fun o => ∀ x ∈ o, ∀ name ∈ x.names, P name)
    (c.semanticsOf b))
  (admits : AdmitsNames P)

/-- Names of members have the property `P`, and members without a problem with their preferred names
have admissible ones. -/
structure Admits (c : MemberContext) (P : String → Prop) : Prop where
  /-- A type with global members has no other members than methods. -/
  global : c.resolved.hasGlobalMembers → ¬c.graph.declaresData c.type
  source : ∀ ⦃a m⦄, c.graph.member? a = some m → P m.name
  admissible : ∀ ⦃a m⦄, c.graph.member? a = some m →
    (c.resolved.hasGlobalMembers → m ∈ c.graph.membersOf c.type) →
    (c.graph.preferredName c.options c.type c.resolved m).2 = [] →
    (c.graph.preferredName c.options c.type c.resolved m).1.Admissible P c.resolved m
  intrinsic : ∀ m, ¬m.isMethod → m.has .intrinsicProperty →
    (c.graph.preferredName c.options c.type c.resolved m).1.name ≠ none

variable (hc : H → c.Admits P) {m : MemberSymbol} {preferred : PreferredName} {names : NameRegistry}

theorem accessorName_admitted {slot : AccessorSlot} {final : PreferredName} {name : String}
    (admits : AdmitsNames P) (hp : ∀ name, preferred.name = some name → name = "" ∨ P name)
    (h : c.accessorName m slot preferred names = .ok final) (hname : final.name = some name) :
    P name := by
  have hbase : P (slot.stem ++ preferred.name.getD "") := by
    refine admits.accessor slot _ ?_
    cases howner : preferred.name with
    | none => exact .inl rfl
    | some owner => exact hp owner howner
  unfold accessorName at h
  dsimp only at h
  split at h
  · obtain rfl := Except.ok.inj h
    exact Option.some.inj hname ▸ hbase
  split at h
  · obtain rfl := Except.ok.inj h
    cases hname
  · cases hallocate : names.allocate (some (slot.stem ++ preferred.name.getD "")) with
    | error e =>
      rw [hallocate] at h
      cases h
    | ok allocated =>
      rw [hallocate] at h
      obtain rfl := Except.ok.inj h
      obtain rfl := Option.some.inj hname
      exact admits.allocate (fun b hb => Option.some.inj hb ▸ hbase) hallocate

section

include hsem admits hc

/-- Accessors are resolved for types without global members only, from the names that `P` admits. -/
theorem resolveAccessor_clean (hglobal : H → ¬c.resolved.hasGlobalMembers) {slot : AccessorSlot}
    {accessor : MemberId}
    (hp : H → ∀ name, preferred.name = some name → name = "" ∨ P name) :
    Clean H (c.graph.NamesIn options P) (fun p => ∀ name ∈ p.1.names, P name)
      (c.resolveAccessor m slot preferred accessor names) := by
  unfold resolveAccessor
  refine .lift_bind fun y hy => ?_
  have hmember := TypeGraph.memberOrFault_eq_ok_iff.1 hy
  dsimp only
  refine Clean.report.bind fun _ => ?_
  split
  · refine Clean.bind (.pure fun h => ?_) fun name => resolveMethod_clean hsem admits fun h => h.2
    exact (hc h.1).admissible hmember (fun hmembers => absurd hmembers (hglobal h.1)) h.2
  · refine .lift_bind fun final hfinal => resolveMethod_clean hsem admits fun h => ?_
    have hname (name : String) (hname : final.name = some name) : P name :=
      accessorName_admitted admits (hp h.1) hfinal hname
    exact ⟨(hc h.1).source hmember, fun name h => .inr (hname name h), fun h _ => hname "" h⟩

theorem resolveAccessor?_clean (hglobal : H → ¬c.resolved.hasGlobalMembers) {slot : AccessorSlot}
    (hp : H → ∀ name, preferred.name = some name → name = "" ∨ P name) :
    Clean H (c.graph.NamesIn options P)
      (fun p => ∀ name ∈ p.1.elim [] MethodSemantics.names, P name)
      (c.resolveAccessor? m slot preferred names) := by
  unfold resolveAccessor?
  cases m.accessor? slot with
  | none => exact .pure fun _ name hname => nomatch hname
  | some accessor =>
    exact (resolveAccessor_clean hsem admits hc hglobal hp).bind fun _ => .pure fun h => h.2

theorem accessedProperty_clean (hglobal : H → ¬c.resolved.hasGlobalMembers)
    (hp : H → ∀ name, preferred.name = some name → name = "" ∨ P name) :
    Clean H (c.graph.NamesIn options P) (fun p => ∀ name ∈ p.1.names, P name)
      (c.accessedProperty m preferred names) := by
  unfold accessedProperty
  refine (resolveAccessor?_clean hsem admits hc hglobal hp).bind fun getter => ?_
  refine (resolveAccessor?_clean hsem admits (fun h => hc h.1) (fun h => hglobal h.1)
    fun h => hp h.1).bind fun setter => ?_
  refine .pure fun h name hname => ?_
  rcases List.mem_append.1 hname with hname | hname
  · exact h.1.2 name hname
  · exact h.2 name hname

end

/-- An alias leaves the accessors without names. -/
theorem aliasedProperty_names {callee : String} {x : PropertySemantics}
    (h : c.aliasedProperty m callee = .ok x) : x.names = [] := by
  unfold aliasedProperty at h
  split_ifs at h
  obtain rfl := Except.ok.inj h
  cases m.accessor? .getter <;> cases m.accessor? .setter <;> rfl

/-- A property of the script language that has a name has its preferred one. -/
theorem intrinsicProperty_names {name? : Option String} {x : PropertySemantics}
    (h : c.intrinsicProperty m preferred.name = .ok (x, name?)) :
    x.names = [] ∨ x.names = [preferred.name.getD (camelCase m.name)] := by
  unfold intrinsicProperty at h
  split at h
  · cases h
  split_ifs at h
  · obtain ⟨rfl, -⟩ := Prod.mk.inj (Except.ok.inj h)
    exact .inr rfl
  · obtain ⟨rfl, -⟩ := Prod.mk.inj (Except.ok.inj h)
    exact .inl rfl

section

include hsem admits hc

variable (hglobal : H → ¬c.resolved.hasGlobalMembers)
  (hp : H → preferred.Admissible P c.resolved m)
  (hintrinsic : H → m.has .intrinsicProperty → preferred.name ≠ none)

include hglobal hp hintrinsic

theorem unaliasedProperty_clean :
    Clean H (c.graph.NamesIn options P) (fun p => ∀ name ∈ p.1.names, P name)
      (c.unaliasedProperty m preferred names) := by
  unfold unaliasedProperty
  split
  · rename_i has
    cases hresult : c.intrinsicProperty m preferred.name with
    | ok p =>
      obtain ⟨x, name?⟩ := p
      refine .pure fun hH name hname => ?_
      obtain ⟨own, hown⟩ := Option.ne_none_iff_exists'.1 (hintrinsic hH has)
      rcases intrinsicProperty_names hresult with hnone | hnames
      · rw [hnone] at hname
        cases hname
      · rw [hnames, hown] at hname
        obtain rfl := List.mem_singleton.1 hname
        rcases (hp hH).named hown with rfl | hadmitted
        · exact (hp hH).blank hown (.inr (.inl has))
        · exact hadmitted
    | error d =>
      exact Clean.report.bind fun _ =>
        accessedProperty_clean hsem admits (fun h => hc h.1) (fun h => hglobal h.1)
          fun h => (hp h.1).named
  · exact accessedProperty_clean hsem admits hc hglobal fun hH => (hp hH).named

theorem classifyProperty_clean :
    Clean H (c.graph.NamesIn options P) (fun p => ∀ name ∈ p.1.names, P name)
      (c.classifyProperty m preferred names) := by
  unfold classifyProperty
  cases m.markerText? .scriptAlias with
  | none => exact unaliasedProperty_clean hsem admits hc hglobal hp hintrinsic
  | some callee =>
    rw [Option.map_some]
    cases haliased : c.aliasedProperty m (callee.getD "") with
    | ok x =>
      refine .pure fun _ name hname => ?_
      rw [aliasedProperty_names haliased] at hname
      cases hname
    | error d =>
      exact Clean.report.bind fun _ =>
        unaliasedProperty_clean hsem admits (fun h => hc h.1) (fun h => hglobal h.1)
          (fun h => hp h.1) fun h => hintrinsic h.1

theorem resolveDataMember_clean :
    Clean H (c.graph.NamesIn options P) (fun _ => True)
      (c.resolveDataMember m preferred names) := by
  unfold resolveDataMember
  split
  · exact markNotUsable_clean.bind fun _ => .pure fun _ => trivial
  split
  · exact .pure fun _ => trivial
  · refine (classifyProperty_clean hsem admits hc hglobal hp hintrinsic).bind fun p => ?_
    exact (recordProperty_clean fun h => h.2).bind fun _ => .pure fun _ => trivial
  · rename_i hkind
    refine (nameMember_clean admits fun hH name hname => ?_).bind fun p => ?_
    · rcases (hp hH).named hname with rfl | hadmitted
      · exact (hp hH).blank hname (.inl hkind)
      · exact hadmitted
    · refine (recordField_clean fun h name hname => ?_).bind fun _ => .pure fun _ => trivial
      obtain rfl := List.mem_singleton.1 hname
      exact h.2
  · refine (resolveAccessor?_clean hsem admits hc hglobal fun hH => (hp hH).named).bind
      fun adder => ?_
    refine (resolveAccessor?_clean hsem admits (fun h => hc h.1) (fun h => hglobal h.1)
      fun h => (hp h.1).named).bind fun remover => ?_
    refine (recordEvent_clean fun h name hname => ?_).bind fun _ => .pure fun _ => trivial
    rcases List.mem_append.1 hname with hname | hname
    · exact h.1.2 name hname
    · exact h.2 name hname

end

include hsem admits hc

theorem resolveMember_clean (hm : m ∈ c.graph.membersOf c.type)
    (hp : H → preferred.Admissible P c.resolved m)
    (hintrinsic : H → ¬m.isMethod → m.has .intrinsicProperty → preferred.name ≠ none) :
    Clean H (c.graph.NamesIn options P) (fun _ => True) (c.resolveMember m preferred names) := by
  unfold resolveMember
  split
  · exact (resolveMethod_clean hsem admits hp).bind fun _ => .pure fun _ => trivial
  · rename_i hmethod
    refine resolveDataMember_clean hsem admits hc (fun hH hglobal => ?_) hp
      fun hH => hintrinsic hH hmethod
    exact (hc hH).global hglobal (List.any_eq_true.2 ⟨m, hm, by simpa using hmethod⟩)

/-- The members of a type are named from their preferred names, none of which has a problem. -/
theorem resolveMembers_clean :
    Clean H (c.graph.NamesIn options P) (fun _ => True) (c.resolveMembers names) := by
  have hlisted {m : MemberSymbol} (hm : m ∈ c.graph.canonicalMembers c.type) :
      m ∈ c.graph.membersOf c.type ∧ ∃ a, c.graph.member? a = some m := by
    have hm := mem_sortBy.1 hm
    obtain ⟨a, -, ha⟩ := List.mem_filterMap.1 hm
    exact ⟨hm, a, ha⟩
  rw [resolveMembers_eq]
  refine Clean.report.bind fun _ => ?_
  refine (Clean.foldlM (fun names p hmem => ?_) names).bind fun names => ?_
  · obtain ⟨hnamed, hpreferred⟩ := mem_plan.1 hmem
    obtain ⟨hm, a, ha⟩ := hlisted (TypeGraph.mem_namedMembers.1 hnamed).1
    refine resolveMember_clean hsem admits (fun h => hc h.1) hm (fun h => ?_)
      fun h hmethod has => ?_
    · rw [hpreferred]
      exact (hc h.1).admissible ha (fun _ => hm) (List.flatMap_eq_nil_iff.1 h.2 p.1 hnamed)
    · rw [hpreferred]
      exact (hc h.1).intrinsic p.1 hmethod has
  · refine (Clean.forM fun p hmem => resolveAlternate_clean fun h => ?_).bind
      fun _ => .pure fun _ => trivial
    obtain ⟨-, a, ha⟩ := hlisted (TypeGraph.mem_alternates.1 hmem).1
    exact (hc h.1.1).source ha

end MemberContext

/-! ## Types -/

/-- The methods of a type are global functions where its markers say so. -/
theorem TypeGraph.FitsType.globalMethods {g : TypeGraph} {options : Options}
    {types : Table TypeId ResolvedType} {ty : TypeSymbol} {r : ResolvedType}
    (h : g.FitsType options types ty r) (hglobal : r.hasGlobalMembers) : (g.globalMethods ty).1 := by
  cases h with
  | marked has eq =>
    rw [eq] at hglobal
    cases hglobal
  | enclosed hasNot u outer declaringType found unusable eq =>
    rw [eq] at hglobal
    cases hglobal
  | usable hasNot outer found usable taken eq =>
    rw [eq] at hglobal
    exact hglobal

section

variable {g : TypeGraph} {options : Options} {P : String → Prop} {H : Prop}

theorem isEmpty_of_ensureTypeWithin (steps : Nat) : ∀ t s r s',
    ensureTypeWithin g options steps t s = .ok (r, s') → s'.diagnostics.isEmpty →
    s.diagnostics.isEmpty := by
  induction steps with
  | zero => exact fun t s r s' h => nomatch h
  | succ steps ih =>
    intro t s r s' h hclean
    unfold ensureTypeWithin at h
    rw [run_get_bind] at h
    cases hknown : s.types.find? t with
    | some known =>
      rw [hknown] at h
      obtain ⟨-, rfl⟩ := run_pure_eq_ok.1 h
      exact hclean
    | none =>
    rw [hknown] at h
    obtain ⟨_, s₁, hresolve, h⟩ := run_bind_eq_ok.1 h
    obtain ⟨ty, r', s₂, -, -, hcompute, rfl⟩ := resolveTypeBy_eq_ok hresolve
    rw [entryOrFault_run (Table.find?_insert_self _ _ _)] at h
    obtain ⟨-, rfl⟩ := Prod.mk.inj (Except.ok.inj h)
    obtain ⟨-, -, rfl⟩ | ⟨-, found, s₃, hfound, hrest⟩ := computeTypeBy_eq_ok hcompute
    · exact hclean
    have hclean₃ : s₃.diagnostics.isEmpty := by
      obtain ⟨-, -, rfl⟩ | ⟨-, ds, -, rfl⟩ := hrest
      · exact hclean
      · exact (DiagnosticBag.isEmpty_addAll_iff.1 hclean).1
    obtain ⟨-, -, rfl⟩ | ⟨u, around, -, -, haround⟩ := run_option_mapM_eq_ok.1 hfound
    · exact hclean₃
    · have hbefore := ih u _ around s₃ haround hclean₃
      exact hbefore

theorem ensureType_clean (t : TypeId) : Clean H (g.NamesIn options P)
    (fun r => ∀ ty, g.type? t = some ty → r.hasGlobalMembers → (g.globalMethods ty).1)
    (ensureType g options t) := by
  intro s r s' hrun hclean
  refine ⟨isEmpty_of_ensureTypeWithin _ t s r s' hrun hclean, fun _ hs => ?_⟩
  obtain ⟨hgrow, hfit, hfound, -⟩ := ensureType_spec hs.types hrun
  obtain ⟨ty, hty, hr⟩ := hfit hfound
  refine ⟨⟨hfit, ?_, ?_, ?_, ?_⟩, fun ty' hty' hglobal => ?_⟩
  · exact hgrow.methods ▸ hs.methods
  · exact hgrow.properties ▸ hs.properties
  · exact hgrow.fields ▸ hs.fields
  · exact hgrow.events ▸ hs.events
  · obtain rfl := Option.some.inj (hty.symm.trans hty')
    exact hr.globalMethods hglobal

/-- The members of all types have names with the property `P` and admissible preferred names. -/
def TypeGraph.Admits (g : TypeGraph) (options : Options) (P : String → Prop) : Prop :=
  ∀ (ensure : TypeId → Resolve Unit), ∀ ty ∈ g.types, ∀ resolved : ResolvedType,
    (resolved.hasGlobalMembers → (g.globalMethods ty).1) →
      (g.memberContext options ensure ty resolved).Admits P

variable (admits : AdmitsNames P) (hg : g.Admits options P)

section

variable {ensure : TypeId → Resolve Unit}
  (hensure : ∀ t, Clean True (g.NamesIn options P) (fun _ => True) (ensure t))

include hensure

theorem methodSemanticsBy_clean (b : MemberId) : Clean True (g.NamesIn options P)
    (fun o => ∀ x ∈ o, ∀ name ∈ x.names, P name) (methodSemanticsBy g ensure b) := by
  unfold methodSemanticsBy
  refine .get_bind fun s => ?_
  cases hfound : s.methods.find? b with
  | some x =>
    refine .pure fun h y hy => ?_
    obtain rfl := Option.some.inj hy
    exact h.2.methods hfound
  | none =>
    cases g.member? b with
    | none => exact .pure fun _ x hx => nomatch hx
    | some y =>
      refine ((hensure _).mono (fun _ => trivial) fun _ _ h => h).bind fun _ => ?_
      exact .get_bind fun s => .pure fun h x hx => h.2.methods hx

include admits hg

theorem processMembers_clean {ty : TypeSymbol} (hty : ty ∈ g.types) {resolved : ResolvedType}
    (hresolved : H → resolved.hasGlobalMembers → (g.globalMethods ty).1) :
    Clean H (g.NamesIn options P) (fun _ => True)
      (processMembers g options ensure ty resolved) := by
  unfold processMembers
  refine .lift_bind fun bases _ => ?_
  refine (Clean.forM fun u _ => (hensure u).mono (fun _ => trivial) fun _ _ h => h).bind fun _ => ?_
  refine .get_bind fun s => ?_
  dsimp only
  split
  · exact (g.memberContext options ensure ty resolved).resolveMembers_clean
      (methodSemanticsBy_clean hensure) admits fun h => hg ensure ty hty resolved (hresolved h.1.1)
  · exact (Clean.forM fun m _ => markNotUsable_clean).bind fun _ => .pure fun _ => trivial

theorem ensureMembersBy_clean (t : TypeId) :
    Clean H (g.NamesIn options P) (fun _ => True) (ensureMembersBy g options ensure t) := by
  unfold ensureMembersBy
  refine .get_bind fun s => ?_
  split
  · exact .pure fun _ => trivial
  refine (ensureType_clean t).bind fun resolved => .lift_bind fun ty hty => .get_bind fun s => ?_
  split
  · exact .pure fun _ => trivial
  · exact .throw
  refine Clean.bind (.modify (fun _ => rfl) fun _ _ hs => ?_) fun _ => ?_
  · exact ⟨hs.types, hs.methods, hs.properties, hs.fields, hs.events⟩
  have hresolved := TypeGraph.typeOrFault_eq_ok_iff.1 hty
  refine (processMembers_clean admits hg hensure (Array.mem_of_getElem? hresolved)
    fun h => h.1.1.2 ty hresolved).bind fun names => ?_
  refine .get_bind fun s => .lift_bind fun guard _ => ?_
  exact .modify (fun _ => rfl) fun _ _ hs =>
    ⟨hs.types, hs.methods, hs.properties, hs.fields, hs.events⟩

end

include admits hg

theorem ensureMembersWithin_clean (steps : Nat) (t : TypeId) : Clean True (g.NamesIn options P)
    (fun _ => True) (ensureMembersWithin g options steps t) := by
  induction steps generalizing t with
  | zero => exact .throw
  | succ steps ih => exact ensureMembersBy_clean admits hg ih t

/-- **Names in resolutions without diagnostics**: if names of members have `P`, and what resolving
members makes of names keeps `P`, then all names in the tables have `P`. -/
theorem names_of_clean_resolve {roots : List TypeId} {main : AssemblyId} {r : Resolution}
    (h : g.resolve options roots main = .ok r) (hclean : r.diagnostics.isEmpty) :
    ∃ s, r = s.toResolution ∧ g.NamesIn options P s := by
  obtain ⟨sorted, s, -, hrun, rfl⟩ := resolve_eq_ok h
  have hroot (t : TypeId) :
      Clean True (g.NamesIn options P) (fun _ => True) (resolveRoot g options t) :=
    (ensureType_clean t).bind fun _ =>
      (ensureMembersWithin_clean admits hg _ t).mono (fun _ => trivial) fun _ _ h => h
  obtain ⟨-, hkeeps⟩ := Clean.forM (fun t _ => hroot t) hrun hclean
  exact ⟨s, rfl, (hkeeps trivial (.initial g options P)).1⟩

end

end ScriptNaming
