import ScriptNaming.Proofs.Outcome
import ScriptNaming.Proofs.Registry
import ScriptNaming.Resolution.Method

/-!
# What resolving a method comes to

Inversion lemmas for the steps that name and classify a method: from a result they lead back to the
rule that applied, and say what it did to the state and to the registry.
-/

namespace ScriptNaming

section

variable {g : TypeGraph} {semanticsOf : MemberId → Resolve (Option MethodSemantics)}
  {ty : TypeSymbol} {resolved : ResolvedType} {m : MemberSymbol} {preferred : PreferredName}
  {names names' : NameRegistry} {s s' : ResolutionState}

theorem report_eq_ok {ds : List Diagnostic} {u : Unit} (h : report ds s = .ok (u, s')) :
    s' = { s with diagnostics := s.diagnostics.addAll ds } :=
  (Prod.ext_iff.1 (Except.ok.inj h)).2.symm

theorem recordMethod_eq_ok {k : MemberId} {x : MethodSemantics} {u : Unit}
    (h : recordMethod k x s = .ok (u, s')) : s' = { s with methods := s.methods.insert k x } :=
  (Prod.ext_iff.1 (Except.ok.inj h)).2.symm

/-! ## Naming -/

/-- How a preferred name leads to the name `name`, starting from the names that are taken. -/
inductive PreferredName.LeadsTo (preferred : PreferredName) (names : NameRegistry)
    (name : String) : NameOrigin → Prop
  | chosen (hpreferred : preferred = ⟨some name, true⟩) : LeadsTo preferred names name .chosen
  | counted (hnone : preferred.name = none) : LeadsTo preferred names name .counted
  /-- A name that is chosen is not allocated. -/
  | allocated (hnot : preferred.isSpecified → preferred.name = none)
    (hallocate : names.allocate preferred.name = .ok name) : LeadsTo preferred names name .allocated

/-- An allocated `name` is free. -/
theorem PreferredName.LeadsTo.fresh {name : String} {origin : NameOrigin}
    (h : preferred.LeadsTo names name origin) (horigin : origin = .allocated) :
    ¬names.contains name := by
  cases h with
  | chosen _ => cases horigin
  | counted _ => cases horigin
  | allocated _ hallocate => exact NameRegistry.not_contains_of_allocate hallocate

/-- A final name leaves the tables alone. -/
theorem finalName_eq_ok {p : String × NameOrigin}
    (h : finalName ty preferred names s = .ok (p, s')) :
    (∃ counts, s' = { s with interfaceNames := counts }) ∧ preferred.LeadsTo names p.1 p.2 := by
  unfold finalName at h
  split at h
  · obtain ⟨rfl, rfl⟩ := run_pure_eq_ok.1 h
    exact ⟨⟨_, rfl⟩, .chosen rfl⟩
  · rename_i preferred name isSpecified hnot
    unfold uniqueName at h
    split at h
    · rename_i hcounted
      obtain ⟨rfl, rfl⟩ := Prod.ext_iff.1 (Except.ok.inj h)
      exact ⟨⟨_, rfl⟩, .counted (Option.isNone_iff_eq_none.1 (Bool.and_eq_true_iff.1 hcounted).1)⟩
    · rw [run_bind_eq_ok] at h
      obtain ⟨final, s₁, hlift, h⟩ := h
      obtain ⟨hallocate, rfl⟩ := run_liftM_eq_ok.1 hlift
      obtain ⟨rfl, rfl⟩ := run_pure_eq_ok.1 h
      refine ⟨⟨_, rfl⟩, .allocated (fun hspecified => ?_) hallocate⟩
      exact Option.eq_none_iff_forall_ne_some.2 fun chosen hname => hnot chosen hname hspecified

/-- A member `m` that is named enters its `name`, and where it comes from is recorded. -/
theorem nameMember_eq_ok {name : String} (h : nameMember ty m preferred names s =
      .ok ((name, names'), s')) : names' = names.add name m.id ∧ ∃ counts origin,
      s' = { s with interfaceNames := counts, origins := s.origins.insert m.id origin } ∧
        preferred.LeadsTo names name origin := by
  unfold nameMember at h
  rw [run_bind_eq_ok] at h
  obtain ⟨⟨final, origin⟩, s₁, hfinal, h⟩ := h
  obtain ⟨⟨counts, rfl⟩, hleads⟩ := finalName_eq_ok hfinal
  obtain ⟨hp, rfl⟩ := Prod.ext_iff.1 (Except.ok.inj h)
  obtain ⟨rfl, rfl⟩ := Prod.mk.inj hp
  exact ⟨rfl, counts, origin, rfl, hleads⟩

/-- A method that is named by its preferred name is called by it, unless it is blank. -/
theorem namedMethod_eq_ok {x : MethodSemantics} (h : namedMethod g ty m preferred names s =
      .ok ((x, names'), s')) :
    (names' = names ∧ ∃ ds, s' = { s with diagnostics := s.diagnostics.addAll ds }) ∨
      ∃ name, x.name? = some name ∧ nameMember ty m preferred names s =
        .ok ((name, names'), s') := by
  unfold namedMethod at h
  split at h
  · obtain ⟨hp, rfl⟩ := Prod.ext_iff.1 (Except.ok.inj h)
    exact .inl ⟨(Prod.ext_iff.1 hp).2.symm, _, rfl⟩
  · rw [run_bind_eq_ok] at h
    obtain ⟨⟨name, names₁⟩, s₁, hname, h⟩ := h
    obtain ⟨hp, rfl⟩ := run_pure_eq_ok.1 h
    obtain ⟨rfl, rfl⟩ := Prod.mk.inj hp
    exact .inr ⟨name, rfl, hname⟩

/-! ## Classification -/

/-- A method takes over the semantics of what it overrides; if there are none, it takes over those
of what it implements. -/
theorem inheritedMethod?_eq_ok {isSpecified : Bool} {r : Option MethodSemantics}
    (h : inheritedMethod? g semanticsOf m isSpecified s = .ok (r, s')) :
    (∃ y, overridingMethod g semanticsOf m isSpecified s = .ok (some y, s') ∧ r = some y) ∨
    ∃ s₁, (overridingMethod g semanticsOf m isSpecified s = .ok (none, s₁) ∨
        ¬m.isOverride ∧ s₁ = s) ∧
      (m.implements.isEmpty ∧ r = none ∧ s' = s₁ ∨
        ¬m.implements.isEmpty ∧
          implementingMethod g semanticsOf m isSpecified s₁ = .ok (r, s')) := by
  have himplementing {s₁ : ResolutionState} (h : (if m.implements.isEmpty then pure none
      else implementingMethod g semanticsOf m isSpecified) s₁ = .ok (r, s')) :
      m.implements.isEmpty ∧ r = none ∧ s' = s₁ ∨ ¬m.implements.isEmpty ∧
        implementingMethod g semanticsOf m isSpecified s₁ = .ok (r, s') := by
    split at h
    · rename_i hempty
      exact .inl ⟨hempty, run_pure_eq_ok.1 h⟩
    · rename_i hnonempty
      exact .inr ⟨hnonempty, h⟩
  unfold inheritedMethod? at h
  split at h
  · rw [run_bind_eq_ok] at h
    obtain ⟨overriding, s₁, hoverriding, h⟩ := h
    cases overriding with
    | some y =>
      obtain ⟨rfl, rfl⟩ := run_pure_eq_ok.1 h
      exact .inl ⟨y, hoverriding, rfl⟩
    | none => exact .inr ⟨s₁, .inl hoverriding, himplementing h⟩
  · rename_i hoverride
    exact .inr ⟨s, .inr ⟨hoverride, rfl⟩, himplementing h⟩

/-- The rules by which a method is classified, in their order. -/
theorem classifyMethod_eq_ok {x : MethodSemantics}
    (h : classifyMethod g semanticsOf ty resolved m preferred names s =
      .ok ((x, names'), s')) :
    ((m.has .nonScriptable ∨ resolved.hasGlobalMembers) ∧ names' = names ∧ s' = s) ∨
    (∃ ds, g.markedMethod? ty m preferred.name = some (x, ds) ∧ names' = names ∧
      s' = { s with diagnostics := s.diagnostics.addAll ds }) ∨
    ∃ found s₁, inheritedMethod? g semanticsOf m preferred.isSpecified s = .ok (found, s₁) ∧
      ((found = some x ∧ names' = names ∧ s' = s₁) ∨
        found = none ∧ namedMethod g ty m preferred names s₁ = .ok ((x, names'), s')) := by
  unfold classifyMethod at h
  split at h
  · rename_i has
    obtain ⟨hp, rfl⟩ := run_pure_eq_ok.1 h
    exact .inl ⟨.inl has, (Prod.ext_iff.1 hp).2, rfl⟩
  split at h
  · rename_i hglobal
    obtain ⟨hp, rfl⟩ := run_pure_eq_ok.1 h
    exact .inl ⟨.inr hglobal, (Prod.ext_iff.1 hp).2, rfl⟩
  cases hmarked : g.markedMethod? ty m preferred.name with
  | some marked =>
    rw [hmarked] at h
    obtain ⟨hp, rfl⟩ := Prod.ext_iff.1 (Except.ok.inj h)
    obtain ⟨rfl, rfl⟩ := Prod.mk.inj hp
    exact .inr (.inl ⟨marked.2, rfl, rfl, rfl⟩)
  | none =>
    rw [hmarked] at h
    dsimp only at h
    rw [run_bind_eq_ok] at h
    obtain ⟨found, s₁, hinherited, h⟩ := h
    refine .inr (.inr ⟨found, s₁, hinherited, ?_⟩)
    cases found with
    | some semantics =>
      obtain ⟨hp, rfl⟩ := run_pure_eq_ok.1 h
      obtain ⟨rfl, rfl⟩ := Prod.mk.inj hp
      exact .inl ⟨rfl, rfl, rfl⟩
    | none => exact .inr ⟨rfl, h⟩

theorem resolveMethod_eq_ok {x : MethodSemantics}
    (h : resolveMethod g semanticsOf ty resolved m preferred names s = .ok ((x, names'), s')) :
    ∃ s₁, classifyMethod g semanticsOf ty resolved m preferred names s = .ok ((x, names'), s₁) ∧
      s' = { s₁ with methods := s₁.methods.insert m.id x } := by
  unfold resolveMethod at h
  rw [run_bind_eq_ok] at h
  obtain ⟨⟨y, names₁⟩, s₁, hclassify, h⟩ := h
  obtain ⟨hp, rfl⟩ := Prod.ext_iff.1 (Except.ok.inj h)
  obtain ⟨rfl, rfl⟩ := Prod.mk.inj hp
  exact ⟨s₁, hclassify, rfl⟩

/-- An alternate signature gets a record as a method. -/
theorem resolveAlternate_eq_ok {main : MemberSymbol} {u : Unit}
    (h : resolveAlternate m main s = .ok (u, s')) :
    ∃ x, s' = { s with methods := s.methods.insert m.id x } := by
  unfold resolveAlternate at h
  split at h
  · exact ⟨_, recordMethod_eq_ok h⟩
  · rw [run_get_bind] at h
    exact ⟨_, recordMethod_eq_ok h⟩

end

end ScriptNaming
