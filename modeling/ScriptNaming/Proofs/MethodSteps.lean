import ScriptNaming.Proofs.Registry
import ScriptNaming.Proofs.RenumberedRules
import ScriptNaming.Proofs.WellFormed
import ScriptNaming.Resolution.DataMember

/-!
# Resolving methods in lockstep

The steps that classify and name a method, in two resolutions whose states are in a relation `R`,
the second for a renumbered graph. They stay in step as long as the steps that they are put
together from do: those that record something (`KeepsRecords`), and the requests for the semantics
of the methods that a method is linked to (`MemberSymbol.links`).
-/

namespace ScriptNaming

/-- A relation of states that is kept by reports and by records about the members that satisfy
`K`, except for those of the semantics of methods. -/
structure KeepsRecords (strict : Prop) (ρ : Renumbering) (options : Options)
    (K : MemberId → Prop) (R : ResolutionState → ResolutionState → Prop) : Prop where
  report : ∀ ds, Lockstep strict R Any (report ds) (report ds)
  property : ∀ m x, K m → Lockstep strict R Any (recordProperty m x)
    (recordProperty (ρ.member m) x)
  field : ∀ m x, K m → Lockstep strict R Any (recordField m x) (recordField (ρ.member m) x)
  event : ∀ m x, K m → Lockstep strict R Any (recordEvent m x) (recordEvent (ρ.member m) x)
  origin : ∀ m x, K m → Lockstep strict R Any (recordOrigin m x) (recordOrigin (ρ.member m) x)
  /-- Names are counted out only with minimization. -/
  counted : options.minimizeNames → ∀ s t, R s t → ∀ a,
    (s.interfaceNames.next a).1 = (t.interfaceNames.next a).1 ∧
      R { s with interfaceNames := (s.interfaceNames.next a).2 }
        { t with interfaceNames := (t.interfaceNames.next a).2 }

/-- Results `p` and `q` that come with a registry, the same up to the holders of names. -/
abbrev SameNamed {α : Type} (p q : α × NameRegistry) : Prop := p.1 = q.1 ∧ p.2.SameNames q.2

section

variable {strict : Prop} {ρ : Renumbering} {g h : TypeGraph} {options : Options}
  {K : MemberId → Prop} {R : ResolutionState → ResolutionState → Prop} {ty ty' : TypeSymbol}
  {names names' : NameRegistry}

/-! ## Names -/

theorem uniqueName_lockstep (k : KeepsRecords strict ρ options K R)
    (hty : TypeSymbol.Renumbered ρ ty ty') (hn : names.SameNames names') {preferred : Option String}
    (hp : preferred = none → options.minimizeNames) :
    Lockstep strict R Eq (uniqueName ty preferred names)
      (uniqueName ty' preferred names') := by
  simp only [uniqueName, hty.isInterface, hty.assembly]
  split
  · rename_i hcounted
    have hnone : preferred = none := by simp_all
    intro s t hst
    obtain ⟨hname, hR⟩ := k.counted (hp hnone) s t hst ty.assembly
    exact ⟨congrArg (·, NameOrigin.counted) hname, hR⟩
  · rw [hn.allocate]
    refine (Lockstep.lift ?_).bind fun name name' h => .pure (congrArg (·, NameOrigin.allocated) h)
    cases names.allocate preferred with
    | error e => trivial
    | ok name => rfl

theorem finalName_lockstep (k : KeepsRecords strict ρ options K R)
    (hty : TypeSymbol.Renumbered ρ ty ty') (hn : names.SameNames names')
    {preferred : PreferredName} (hp : preferred.name = none → options.minimizeNames) :
    Lockstep strict R Eq (finalName ty preferred names)
      (finalName ty' preferred names') := by
  unfold finalName
  split
  · exact .pure rfl
  · exact uniqueName_lockstep k hty hn hp

theorem nameMember_lockstep (k : KeepsRecords strict ρ options K R)
    (hty : TypeSymbol.Renumbered ρ ty ty') (hn : names.SameNames names')
    {preferred : PreferredName} (hp : preferred.name = none → options.minimizeNames)
    {m : MemberSymbol} (hm : K m.id) :
    Lockstep strict R SameNamed (nameMember ty m preferred names)
      (nameMember ty' (m.renumber ρ) preferred names') := by
  refine (finalName_lockstep k hty hn hp).bind fun p q hpq => ?_
  subst hpq
  obtain ⟨name, origin⟩ := p
  refine (k.origin m.id origin hm).bind fun _ _ _ => .pure ⟨rfl, ?_⟩
  exact hn.add name _ _

/-! ## Overrides and implementations -/

variable {semanticsOf semanticsOf' : MemberId → Resolve (Option MethodSemantics)}

theorem firstDisagreement_lockstep (name : Option String) {ms : List MemberId}
    (hsem : ∀ b ∈ ms, Lockstep strict R Eq (semanticsOf b)
      (semanticsOf' (ρ.member b))) :
    Lockstep strict R (fun p q => q = p.map ρ.member) (firstDisagreement semanticsOf name ms)
      (firstDisagreement semanticsOf' name (ms.map ρ.member)) := by
  induction ms with
  | nil => exact .pure rfl
  | cons m ms ih =>
    rw [List.map_cons, firstDisagreement, firstDisagreement]
    refine (hsem m (.head _)).bind fun p q hpq => ?_
    subst hpq
    split
    · exact .pure rfl
    · exact ih fun b hb => hsem b (.tail _ hb)

theorem reportDisagreement_lockstep (e : TypeGraph.Renumbered ρ g h)
    (k : KeepsRecords strict ρ options K R) {m : MemberSymbol} (semantics : MethodSemantics)
    (hsem : ∀ b ∈ m.links, Lockstep strict R Eq (semanticsOf b)
      (semanticsOf' (ρ.member b))) :
    Lockstep strict R Any (reportDisagreement g semanticsOf m semantics)
      (reportDisagreement h semanticsOf' (m.renumber ρ) semantics) := by
  unfold reportDisagreement
  split
  · refine (firstDisagreement_lockstep _ fun b hb =>
      hsem b (MemberSymbol.mem_links.2 (.inr hb))).bind fun p q hpq => ?_
    subst hpq
    cases p with
    | none => exact .pure trivial
    | some other =>
      refine (Lockstep.lift (e.memberOrFault other).of_strict).bind fun x x' hx => ?_
      rw [hx.2, e.memberDiagnostic, e.qualifiedName]
      exact k.report _
  · exact .pure trivial

theorem overridingMethod_lockstep (e : TypeGraph.Renumbered ρ g h)
    (k : KeepsRecords strict ρ options K R) {m : MemberSymbol} (isSpecified : Bool)
    (hsem : ∀ b ∈ m.links, Lockstep strict R Eq (semanticsOf b) (semanticsOf' (ρ.member b))) :
    Lockstep strict R Eq (overridingMethod g semanticsOf m isSpecified)
      (overridingMethod h semanticsOf' (m.renumber ρ) isSpecified) := by
  unfold overridingMethod
  rw [e.overrideMarkerProblems, MemberSymbol.overridden_renumber]
  refine (k.report _).bind fun _ _ _ => ?_
  cases hb : m.overridden with
  | none => exact .pure rfl
  | some b =>
    refine (hsem b (MemberSymbol.mem_links.2 (.inl hb))).bind fun p q hpq => ?_
    subst hpq
    cases p with
    | none => exact .pure rfl
    | some semantics =>
      exact (reportDisagreement_lockstep e k semantics hsem).bind fun _ _ _ => .pure rfl

theorem implementingMethod_lockstep (e : TypeGraph.Renumbered ρ g h)
    (k : KeepsRecords strict ρ options K R) {m : MemberSymbol} (isSpecified : Bool)
    (hsem : ∀ b ∈ m.links, Lockstep strict R Eq (semanticsOf b) (semanticsOf' (ρ.member b))) :
    Lockstep strict R Eq (implementingMethod g semanticsOf m isSpecified)
      (implementingMethod h semanticsOf' (m.renumber ρ) isSpecified) := by
  have hall : List.Forall₂ (fun b b' => b' = ρ.member b) m.implements
      (m.renumber ρ).implements := by
    rw [MemberSymbol.implements_renumber, List.forall₂_map_right_iff]
    exact List.forall₂_same.2 fun _ _ => rfl
  have hsemantics : Lockstep strict R Eq (m.implements.mapM semanticsOf)
      ((m.renumber ρ).implements.mapM semanticsOf') := by
    rw [← List.forall₂_eq_eq_eq]
    refine Lockstep.mapM hall fun b hb b' hb' => ?_
    rw [hb']
    exact hsem b (MemberSymbol.mem_links.2 (.inr hb))
  unfold implementingMethod
  rw [e.implementationMarkerProblems]
  refine (k.report _).bind fun _ _ _ => hsemantics.bind fun p q hpq => ?_
  subst hpq
  rw [e.implementationProblems]
  exact (k.report _).bind fun _ _ _ => .pure rfl

theorem inheritedMethod?_lockstep (e : TypeGraph.Renumbered ρ g h)
    (k : KeepsRecords strict ρ options K R) {m : MemberSymbol} (isSpecified : Bool)
    (hsem : ∀ b ∈ m.links, Lockstep strict R Eq (semanticsOf b) (semanticsOf' (ρ.member b))) :
    Lockstep strict R Eq (inheritedMethod? g semanticsOf m isSpecified)
      (inheritedMethod? h semanticsOf' (m.renumber ρ) isSpecified) := by
  have himplementing : Lockstep strict R Eq
      (if m.implements.isEmpty then return none
        else implementingMethod g semanticsOf m isSpecified)
      (if (m.renumber ρ).implements.isEmpty then return none
        else implementingMethod h semanticsOf' (m.renumber ρ) isSpecified) := by
    rw [MemberSymbol.implements_renumber, List.isEmpty_map]
    split
    · exact .pure rfl
    · exact implementingMethod_lockstep e k isSpecified hsem
  unfold inheritedMethod?
  dsimp only
  rw [MemberSymbol.isOverride_renumber]
  by_cases ho : m.isOverride
  · rw [if_pos ho, if_pos ho]
    refine (overridingMethod_lockstep e k isSpecified hsem).bind fun p q hpq => ?_
    subst hpq
    cases p with
    | some semantics => exact .pure rfl
    | none => exact himplementing
  · rw [if_neg ho, if_neg ho]
    exact himplementing

/-! ## Classification -/

theorem namedMethod_lockstep (e : TypeGraph.Renumbered ρ g h)
    (k : KeepsRecords strict ρ options K R) (hty : TypeSymbol.Renumbered ρ ty ty')
    (hn : names.SameNames names') {preferred : PreferredName}
    (hp : preferred.name = none → options.minimizeNames) {m : MemberSymbol} (hm : K m.id) :
    Lockstep strict R SameNamed (namedMethod g ty m preferred names)
      (namedMethod h ty' (m.renumber ρ) preferred names') := by
  unfold namedMethod
  rw [e.blankNamedMethod hty]
  split
  · exact (k.report _).bind fun _ _ _ => .pure ⟨rfl, hn⟩
  · refine (nameMember_lockstep k hty hn hp hm).bind fun p q hpq => ?_
    exact .pure ⟨by rw [hpq.1]; rfl, hpq.2⟩

theorem classifyMethod_lockstep (e : TypeGraph.Renumbered ρ g h)
    (k : KeepsRecords strict ρ options K R) (hty : TypeSymbol.Renumbered ρ ty ty')
    (hn : names.SameNames names') (resolved : ResolvedType) {preferred : PreferredName}
    (hp : preferred.name = none → options.minimizeNames) {m : MemberSymbol} (hm : K m.id)
    (hsem : ∀ b ∈ m.links, Lockstep strict R Eq (semanticsOf b) (semanticsOf' (ρ.member b))) :
    Lockstep strict R SameNamed (classifyMethod g semanticsOf ty resolved m preferred names)
      (classifyMethod h semanticsOf' ty' resolved (m.renumber ρ) preferred names') := by
  unfold classifyMethod
  rw [MemberSymbol.has_renumber, e.markedMethod? hty, MemberSymbol.name_renumber]
  split
  · exact .pure ⟨rfl, hn⟩
  split
  · exact .pure ⟨rfl, hn⟩
  cases g.markedMethod? ty m preferred.name with
  | some marked => exact (k.report _).bind fun _ _ _ => .pure ⟨rfl, hn⟩
  | none =>
    refine (inheritedMethod?_lockstep e k preferred.isSpecified hsem).bind fun p q hpq => ?_
    subst hpq
    cases p with
    | some semantics => exact .pure ⟨rfl, hn⟩
    | none => exact namedMethod_lockstep e k hty hn hp hm

/-- Where the semantics of methods may be recorded as well, methods are resolved in lockstep. -/
theorem resolveMethod_lockstep (e : TypeGraph.Renumbered ρ g h)
    (k : KeepsRecords strict ρ options K R)
    (kmethod : ∀ m x, K m → Lockstep strict R Any (recordMethod m x)
      (recordMethod (ρ.member m) x))
    (hty : TypeSymbol.Renumbered ρ ty ty') (hn : names.SameNames names')
    (resolved : ResolvedType) {preferred : PreferredName}
    (hp : preferred.name = none → options.minimizeNames) {m : MemberSymbol} (hm : K m.id)
    (hsem : ∀ b ∈ m.links, Lockstep strict R Eq (semanticsOf b) (semanticsOf' (ρ.member b))) :
    Lockstep strict R SameNamed (resolveMethod g semanticsOf ty resolved m preferred names)
      (resolveMethod h semanticsOf' ty' resolved (m.renumber ρ) preferred names') := by
  refine (classifyMethod_lockstep e k hty hn resolved hp hm hsem).bind fun p q hpq => ?_
  obtain ⟨semantics, names⟩ := p
  obtain ⟨semantics', names'⟩ := q
  obtain ⟨rfl, hn⟩ := hpq
  exact (kmethod m.id semantics hm).bind fun _ _ _ => .pure ⟨rfl, hn⟩

end

end ScriptNaming
