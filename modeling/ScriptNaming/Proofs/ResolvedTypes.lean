import Mathlib.Logic.Relation
import ScriptNaming.Proofs.DiagnosticLogs
import ScriptNaming.Proofs.Outcome
import ScriptNaming.Resolution.TypeNaming

/-!
# What states know of types

The entries for types fit the declarations: each of them follows from the entry for the type around
it (`TypeGraph.FitsType`). Resolving a type keeps this, changes nothing but the entries for
types, the names that are taken by types and the diagnostics, and leaves earlier entries alone
(`ensureType_spec`).
-/

namespace ScriptNaming

/-! ## Entries for types -/

/-- How the entry `r` for a type follows from its declaration and from the entry for the type around
it. The names that were taken at the time matter only for generated names. -/
inductive TypeGraph.FitsType (g : TypeGraph) (options : Options)
    (types : Table TypeId ResolvedType) (ty : TypeSymbol) (r : ResolvedType) : Prop
  /-- A marker takes the type its place in script. -/
  | marked (has : ty.has .nonScriptable) (eq : r = .notUsable)
  /-- The type around it has no place in script. -/
  | enclosed (hasNot : ¬ty.has .nonScriptable) (u : TypeId) (outer : ResolvedType)
    (declaringType : ty.declaringType = some u) (found : types.find? u = some outer)
    (unusable : outer.isUsable = false) (eq : r = .notUsable)
  | usable (hasNot : ¬ty.has .nonScriptable) (outer : Option ResolvedType)
    (found : ty.declaringType.map types.find? = outer.map some)
    (usable : ∀ r, outer = some r → r.isUsable) (taken : String → NameSet)
    (eq : r = (g.resolvedType options taken ty outer).1)

/-- Every entry in `types` fits the declaration of its type. -/
def TypeGraph.TypesFit (g : TypeGraph) (options : Options) (types : Table TypeId ResolvedType) :
    Prop :=
  ∀ ⦃t r⦄, types.find? t = some r → ∃ ty, g.type? t = some ty ∧ g.FitsType options types ty r

theorem TypeGraph.FitsType.mono {g : TypeGraph} {options : Options}
    {types types' : Table TypeId ResolvedType} {ty : TypeSymbol} {r : ResolvedType}
    (h : g.FitsType options types ty r)
    (grow : ∀ ⦃t r⦄, types.find? t = some r → types'.find? t = some r) :
    g.FitsType options types' ty r := by
  cases h with
  | marked has eq => exact .marked has eq
  | enclosed hasNot u outer declaringType found unusable eq =>
    exact .enclosed hasNot u outer declaringType (grow found) unusable eq
  | usable hasNot outer found usable taken eq =>
    refine .usable hasNot outer ?_ usable taken eq
    cases hu : ty.declaringType with
    | none => rwa [hu] at found
    | some u =>
      rw [hu] at found
      cases outer with
      | none => cases found
      | some outer => exact congrArg some (grow (Option.some.inj found))

/-- A new entry `r` that fits the declaration of its type `t` may come in. -/
theorem TypeGraph.TypesFit.insert {g : TypeGraph} {options : Options}
    {types : Table TypeId ResolvedType} (h : g.TypesFit options types) {t : TypeId} {ty : TypeSymbol}
    {r : ResolvedType} (hty : g.type? t = some ty) (hr : g.FitsType options types ty r)
    (hnone : types.find? t = none) : g.TypesFit options (types.insert t r) := by
  have hkept ⦃u : TypeId⦄ ⦃r' : ResolvedType⦄ (hu : types.find? u = some r') :
      (types.insert t r).find? u = some r' := Table.find?_insert_of_find? types r hnone hu
  intro u r' hu
  rw [Table.find?_insert] at hu
  split at hu
  · rename_i htu
    obtain rfl := Option.some.inj hu
    exact ⟨ty, htu ▸ hty, hr.mono hkept⟩
  · obtain ⟨ty', hty', hr'⟩ := h hu
    exact ⟨ty', hty', hr'.mono hkept⟩

/-- What the resolution of types leaves alone. -/
structure ResolutionState.TypesGrow (s s' : ResolutionState) : Prop where
  types : ∀ ⦃t r⦄, s.types.find? t = some r → s'.types.find? t = some r
  /-- Types in progress get no entry from anyone else. -/
  inProgress : ∀ t ∈ s.typeGuard.visiting, s'.types.find? t = s.types.find? t
  problems : ∀ ⦃entity category⦄, s.diagnostics.contains entity category →
    s'.diagnostics.contains entity category
  typeGuard : s'.typeGuard = s.typeGuard
  memberGuard : s'.memberGuard = s.memberGuard
  memberNames : s'.memberNames = s.memberNames
  methods : s'.methods = s.methods
  properties : s'.properties = s.properties
  fields : s'.fields = s.fields
  events : s'.events = s.events
  origins : s'.origins = s.origins
  interfaceNames : s'.interfaceNames = s.interfaceNames

namespace ResolutionState

variable {s s' s'' : ResolutionState}

theorem TypesGrow.refl (s : ResolutionState) : s.TypesGrow s where
  types _ _ h := h
  inProgress _ _ := rfl
  problems _ _ h := h
  typeGuard := rfl
  memberGuard := rfl
  memberNames := rfl
  methods := rfl
  properties := rfl
  fields := rfl
  events := rfl
  origins := rfl
  interfaceNames := rfl

theorem TypesGrow.trans (h : s.TypesGrow s') (h' : s'.TypesGrow s'') : s.TypesGrow s'' where
  types _ _ ht := h'.types (h.types ht)
  inProgress t ht := by
    rw [h'.inProgress t (by rwa [h.typeGuard]), h.inProgress t ht]
  problems _ _ hp := h'.problems (h.problems hp)
  typeGuard := h'.typeGuard.trans h.typeGuard
  memberGuard := h'.memberGuard.trans h.memberGuard
  memberNames := h'.memberNames.trans h.memberNames
  methods := h'.methods.trans h.methods
  properties := h'.properties.trans h.properties
  fields := h'.fields.trans h.fields
  events := h'.events.trans h.events
  origins := h'.origins.trans h.origins
  interfaceNames := h'.interfaceNames.trans h.interfaceNames

theorem TypesGrow.report (s : ResolutionState) (ds : List Diagnostic) :
    s.TypesGrow { s with diagnostics := s.diagnostics.addAll ds } :=
  { TypesGrow.refl s with problems := fun _ _ h => DiagnosticBag.contains_addAll.2 (.inr h) }

/-- A type that was not in progress before gets its entry, and is not in progress any more. -/
theorem TypesGrow.finish {t : TypeId}
    (h : TypesGrow { s with typeGuard := s.typeGuard.push t } s')
    (ht : t ∉ s.typeGuard.visiting) (hnone : s'.types.find? t = none) (r : ResolvedType)
    (typeNames : Table String NameSet) : s.TypesGrow { s' with
      typeGuard := s'.typeGuard.leave t
      typeNames := typeNames
      types := s'.types.insert t r } where
  types u r' hu := Table.find?_insert_of_find? _ _ hnone (h.types hu)
  inProgress u hu := by
    have htu : t ≠ u := fun h => ht (h ▸ hu)
    exact (Table.find?_insert_of_ne _ _ htu).trans (h.inProgress u (.tail _ hu))
  problems := h.problems
  typeGuard := by rw [h.typeGuard, Guard.leave_push]
  memberGuard := h.memberGuard
  memberNames := h.memberNames
  methods := h.methods
  properties := h.properties
  fields := h.fields
  events := h.events
  origins := h.origins
  interfaceNames := h.interfaceNames

end ResolutionState

/-! ## Resolving types -/

/-- To resolve the type `t` takes resolving the type around it, `u`. It does not where a marker
takes `t` its place in script, whatever is around it. -/
def TypeGraph.ResolvesAfter (g : TypeGraph) (t u : TypeId) : Prop :=
  ∃ ty, g.type? t = some ty ∧ ¬ty.has .nonScriptable ∧ ty.declaringType = some u

section

variable {g : TypeGraph} {options : Options}

/-- What is known after a type is resolved. -/
structure ResolvesTo (g : TypeGraph) (options : Options) (t : TypeId) (s : ResolutionState)
    (r : ResolvedType) (s' : ResolutionState) : Prop where
  grow : s.TypesGrow s'
  fit : g.TypesFit options s'.types
  found : s'.types.find? t = some r
  /-- Only what it takes is resolved. -/
  added : ∀ ⦃u⦄, s'.types.contains u →
    s.types.contains u ∨ Relation.ReflTransGen g.ResolvesAfter t u

variable {outer : TypeId → Resolve ResolvedType}
  (houter : ∀ t s r s', g.TypesFit options s.types → outer t s = .ok (r, s') →
    ResolvesTo g options t s r s')

include houter

/-- The type around `ty` is resolved first. -/
theorem resolveAround_spec {t : TypeId} {ty : TypeSymbol} {s s' : ResolutionState}
    {found : Option ResolvedType} (hty : g.type? t = some ty) (hasNot : ¬ty.has .nonScriptable)
    (hs : g.TypesFit options s.types) (h : ty.declaringType.mapM outer s = .ok (found, s')) :
    s.TypesGrow s' ∧ g.TypesFit options s'.types ∧
      ty.declaringType.map s'.types.find? = found.map some ∧ ∀ u, s'.types.contains u →
        s.types.contains u ∨ Relation.ReflTransGen g.ResolvesAfter t u := by
  obtain ⟨hu, rfl, rfl⟩ | ⟨u, r, hu, rfl, hr⟩ := run_option_mapM_eq_ok.1 h
  · rw [hu]
    exact ⟨.refl _, hs, rfl, fun u hu => .inl hu⟩
  · have hto := houter u s r s' hs hr
    rw [hu]
    refine ⟨hto.grow, hto.fit, congrArg some hto.found, fun v hv => ?_⟩
    exact (hto.added hv).imp_right fun hpath => .head ⟨ty, hty, hasNot, hu⟩ hpath

omit houter in
/-- What it comes to that a type is worked out as `r`: a marker takes the type its place in script,
or the type around it is resolved first and decides what is made of the type. -/
theorem computeTypeBy_eq_ok {ty : TypeSymbol} {s s' : ResolutionState} {r : ResolvedType}
    (h : computeTypeBy g options outer ty s = .ok (r, s')) :
    (ty.has .nonScriptable ∧ r = .notUsable ∧ s' = s) ∨
    ¬ty.has .nonScriptable ∧ ∃ found s₁, ty.declaringType.mapM outer s = .ok (found, s₁) ∧
      ((found.any (!·.isUsable) ∧ r = .notUsable ∧ s' = s₁) ∨
        ¬found.any (!·.isUsable) ∧ ∃ ds,
          g.resolvedType options s₁.takenTypeNames ty found = (r, ds) ∧
          s' = { s₁ with diagnostics := s₁.diagnostics.addAll ds }) := by
  unfold computeTypeBy at h
  split at h
  · rename_i has
    obtain ⟨rfl, rfl⟩ := run_pure_eq_ok.1 h
    exact .inl ⟨has, rfl, rfl⟩
  rename_i hasNot
  rw [run_bind_eq_ok] at h
  obtain ⟨found, s₁, hfound, h⟩ := h
  refine .inr ⟨hasNot, found, s₁, hfound, ?_⟩
  split at h
  · rename_i hunusable
    obtain ⟨rfl, rfl⟩ := run_pure_eq_ok.1 h
    exact .inl ⟨hunusable, rfl, rfl⟩
  · rename_i husable
    rw [run_get_bind] at h
    change (report (g.resolvedType options s₁.takenTypeNames ty found).2 >>= fun _ =>
      pure (g.resolvedType options s₁.takenTypeNames ty found).1) s₁ = _ at h
    rw [report, run_modify_bind] at h
    obtain ⟨rfl, rfl⟩ := run_pure_eq_ok.1 h
    exact .inr ⟨husable, _, rfl, rfl⟩

theorem computeTypeBy_spec {t : TypeId} {ty : TypeSymbol} {s s' : ResolutionState}
    {r : ResolvedType} (hty : g.type? t = some ty) (hs : g.TypesFit options s.types)
    (h : computeTypeBy g options outer ty s = .ok (r, s')) :
    s.TypesGrow s' ∧ g.TypesFit options s'.types ∧ g.FitsType options s'.types ty r ∧
      ∀ u, s'.types.contains u → s.types.contains u ∨ Relation.ReflTransGen g.ResolvesAfter t u := by
  obtain ⟨has, rfl, rfl⟩ | ⟨hasNot, found, s₁, hfound, h⟩ := computeTypeBy_eq_ok h
  · exact ⟨.refl _, hs, .marked has rfl, fun u hu => .inl hu⟩
  obtain ⟨hgrow, hfit, hentry, hadded⟩ := resolveAround_spec houter hty hasNot hs hfound
  obtain ⟨hunusable, rfl, rfl⟩ | ⟨husable, ds, hresolved, rfl⟩ := h
  · refine ⟨hgrow, hfit, ?_, hadded⟩
    cases found with
    | none => cases hunusable
    | some r' =>
      obtain ⟨u, hu, hr'⟩ := Option.map_eq_some_iff.1 hentry
      exact .enclosed hasNot u r' hu hr' (by simpa using hunusable) rfl
  · refine ⟨hgrow.trans (.report _ _), hfit,
      .usable hasNot found hentry (fun r' hr' => ?_) s₁.takenTypeNames (by rw [hresolved]), hadded⟩
    subst hr'
    simpa using husable

omit houter in
/-- A type is in progress while its entry is computed. -/
theorem resolveTypeBy_eq_ok {t : TypeId} {s s' : ResolutionState}
    (h : resolveTypeBy g options outer t s = .ok ((), s')) :
    ∃ ty r s₁, g.type? t = some ty ∧ t ∉ s.typeGuard.visiting ∧
      computeTypeBy g options outer ty { s with typeGuard := s.typeGuard.push t } = .ok (r, s₁) ∧
      s' = { s₁ with
        typeGuard := s₁.typeGuard.leave t
        typeNames := enterTypeName s₁.typeNames r
        types := s₁.types.insert t r } := by
  unfold resolveTypeBy at h
  rw [run_bind_eq_ok] at h
  obtain ⟨ty, s₀, hlift, h⟩ := h
  obtain ⟨hty, rfl⟩ := run_liftM_eq_ok.1 hlift
  rw [TypeGraph.typeOrFault_eq_ok_iff] at hty
  rw [run_get_bind] at h
  cases hguard : s₀.typeGuard.enter t with
  | cycle =>
    rw [hguard] at h
    cases h
  | tooDeep =>
    rw [hguard] at h
    cases h
  | entered guard =>
    rw [hguard] at h
    obtain ⟨-, hmem, rfl⟩ := Guard.enter_eq_entered_iff.1 hguard
    dsimp only at h
    rw [run_modify_bind, run_bind_eq_ok] at h
    obtain ⟨r, s₁, hcompute, h⟩ := h
    rw [run_get_bind, run_bind_eq_ok] at h
    obtain ⟨guard, s₂, hleave, h⟩ := h
    obtain ⟨hguard, rfl⟩ := run_liftM_eq_ok.1 hleave
    obtain ⟨-, rfl⟩ := Guard.leaveOrFault_eq_ok_iff.1 hguard
    obtain ⟨-, rfl⟩ := Prod.ext_iff.1 (Except.ok.inj h)
    exact ⟨ty, r, s₂, hty, hmem, hcompute, rfl⟩

theorem resolveTypeBy_spec {t : TypeId} {s s' : ResolutionState}
    (hs : g.TypesFit options s.types) (hnone : s.types.find? t = none)
    (h : resolveTypeBy g options outer t s = .ok ((), s')) :
    ∃ r, ResolvesTo g options t s r s' := by
  obtain ⟨ty, r, s₁, hty, hmem, hcompute, rfl⟩ := resolveTypeBy_eq_ok h
  obtain ⟨hgrow, hfit, hr, hadded⟩ := computeTypeBy_spec houter hty (by exact hs) hcompute
  -- Nobody else has entered the type in the meantime.
  have hnone₁ : s₁.types.find? t = none := (hgrow.inProgress t (.head _)).trans hnone
  refine ⟨r, hgrow.finish hmem hnone₁ r _, hfit.insert hty hr hnone₁,
    Table.find?_insert_self _ _ _, fun u hu => ?_⟩
  rw [Table.contains_insert, Bool.or_eq_true, decide_eq_true_eq] at hu
  rcases hu with rfl | hu
  · exact .inr .refl
  · exact hadded u hu

omit houter

/-- A type with an entry is looked up. -/
theorem entryOrFault_run {t : TypeId} {s : ResolutionState} {r : ResolvedType}
    (hr : s.types.find? t = some r) : entryOrFault t s = .ok (r, s) := by
  rw [entryOrFault, run_get_bind, hr]
  rfl

theorem ensureTypeWithin_spec (steps : Nat) : ∀ t s r s', g.TypesFit options s.types →
    ensureTypeWithin g options steps t s = .ok (r, s') → ResolvesTo g options t s r s' := by
  induction steps with
  | zero => exact fun t s r s' _ h => nomatch h
  | succ steps ih =>
    intro t s r s' hs h
    unfold ensureTypeWithin at h
    rw [run_get_bind] at h
    cases hfound : s.types.find? t with
    | some found =>
      rw [hfound] at h
      obtain ⟨rfl, rfl⟩ := run_pure_eq_ok.1 h
      exact ⟨.refl _, hs, hfound, fun u hu => .inl hu⟩
    | none =>
      rw [hfound] at h
      dsimp only at h
      rw [run_bind_eq_ok] at h
      obtain ⟨_, s₁, hresolve, h⟩ := h
      obtain ⟨r', hto⟩ := resolveTypeBy_spec ih hs hfound hresolve
      rw [entryOrFault_run hto.found] at h
      obtain ⟨rfl, rfl⟩ := Prod.mk.inj (Except.ok.inj h)
      exact hto

/-- After a type `t` is resolved, it has the entry `r`, and everything that was known before is
still known. -/
theorem ensureType_spec {t : TypeId} {s s' : ResolutionState} {r : ResolvedType}
    (hs : g.TypesFit options s.types) (h : ensureType g options t s = .ok (r, s')) :
    ResolvesTo g options t s r s' :=
  ensureTypeWithin_spec _ t s r s' hs h

end

end ScriptNaming
