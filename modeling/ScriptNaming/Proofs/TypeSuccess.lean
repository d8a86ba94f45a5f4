import ScriptNaming.Proofs.ResolvedTypes
import ScriptNaming.Proofs.Shallow

/-!
# Types are resolved

In a shallow graph, a type is resolved without a fault while the types that are being resolved make
a stack with it (`ensureType_endsIn`): each of them is declared in the next. The names that types
take up are no more than the types that are resolved (`ResolutionState.FewTypeNames`), so that
numbers for generated names of types stay small.
-/

namespace ScriptNaming

open ResolutionState

theorem Table.size_insert {κ α : Type} [DecidableEq κ] (t : Table κ α) {k : κ} (v : α)
    (hk : t.find? k = none) : (t.insert k v).size = t.size + 1 := by
  have hmem : k ∉ t.keys := by
    rw [← t.contains_iff_mem_keys, Table.contains, hk]
    exact Bool.false_ne_true
  rw [← Table.length_keys, Table.keys_insert, if_neg hmem, List.length_append, Table.length_keys]
  rfl

namespace ResolutionState

/-- In each script namespace, no more names of types are taken in `s` than types are resolved. -/
def FewTypeNames (s : ResolutionState) : Prop :=
  ∀ space, (s.takenTypeNames space).size ≤ s.types.size

/-- A type that is entered as `resolved` takes up one name at most. -/
theorem size_takenTypeNames_enter {s : ResolutionState} {resolved : ResolvedType}
    {typeGuard : Guard} {types : Table TypeId ResolvedType} (space : String) :
    (takenTypeNames
      { s with
        typeGuard := typeGuard
        typeNames := enterTypeName s.typeNames resolved
        types := types } space).size ≤ (s.takenTypeNames space).size + 1 := by
  unfold takenTypeNames enterTypeName
  cases hname : resolved.semantics.name? with
  | none => exact Nat.le_succ _
  | some text =>
    dsimp only
    rw [Table.find?_insert]
    split
    · rename_i hspace
      rw [hspace, Option.getD_some]
      exact Std.ExtTreeSet.size_insert_le
    · exact Nat.le_succ _

end ResolutionState

section

variable {g : TypeGraph} {options : Options} {s : ResolutionState}

theorem computeTypeBy_endsIn {outer : TypeId → Resolve ResolvedType} {ty : TypeSymbol}
    (houter : ∀ u, ty.declaringType = some u →
      EndsIn True (fun _ s' => s'.FewTypeNames) (outer u s))
    (hs : s.FewTypeNames) :
    EndsIn True (fun _ s' => s'.FewTypeNames) (computeTypeBy g options outer ty s) := by
  unfold computeTypeBy
  split
  · exact hs
  have hstep : EndsIn True (fun _ s' => s'.FewTypeNames) (ty.declaringType.mapM outer s) := by
    cases hu : ty.declaringType with
    | none => exact hs
    | some u =>
      change EndsIn True _ ((outer u >>= fun r => pure (some r)) s)
      exact (houter u hu).bind fun r s₁ hs₁ => hs₁
  refine hstep.bind fun found s₁ hs₁ => ?_
  split
  · exact hs₁
  · exact hs₁

/-- A type is resolved if it goes on the stack of the types that are being resolved, and the type
around it is resolved next. -/
theorem resolveTypeBy_endsIn (shallow : g.Shallow) {outer : TypeId → Resolve ResolvedType}
    (hspec : ∀ t s r s', g.TypesFit options s.types → outer t s = .ok (r, s') →
      ResolvesTo g options t s r s') {t : TypeId} {ty : TypeSymbol} (hty : g.type? t = some ty)
    (hfit : g.TypesFit options s.types) (hnone : s.types.find? t = none)
    (hcounted : s.typeGuard.IsCounted) (hstack : g.Stack (t :: s.typeGuard.visiting))
    (hs : s.FewTypeNames)
    (houter : ∀ u, g.NestedIn t u → EndsIn True (fun _ s' => s'.FewTypeNames)
      (outer u { s with typeGuard := s.typeGuard.push t })) :
    EndsIn True (fun _ s' => s'.FewTypeNames) (resolveTypeBy g options outer t s) := by
  -- There is room for the type on the guard, and it is not there yet.
  have hroom := shallow.length_lt hstack
  rw [List.length_cons, ← hcounted] at hroom
  have hfresh : t ∉ s.typeGuard.visiting := fun ht =>
    Nat.lt_irrefl _ ((List.pairwise_cons.1 hstack.ascending).1 t ht)
  have henter : s.typeGuard.enter t = .entered (s.typeGuard.push t) :=
    Guard.enter_eq_entered_iff.2 ⟨Nat.lt_of_succ_lt hroom, hfresh, rfl⟩
  have hlift : (liftM (g.typeOrFault t) : Resolve TypeSymbol) s = .ok (ty, s) :=
    run_liftM_eq_ok.2 ⟨TypeGraph.typeOrFault_eq_ok_iff.2 hty, rfl⟩
  unfold resolveTypeBy
  rw [run_bind_of_ok hlift, run_get_bind, henter]
  dsimp only
  rw [run_modify_bind]
  have hcompute : EndsIn True (fun _ s' => s'.FewTypeNames) (computeTypeBy g options outer ty
      { s with typeGuard := s.typeGuard.push t }) :=
    computeTypeBy_endsIn (fun u hu => houter u ⟨ty, hty, hu⟩) hs
  refine hcompute.withRun.bind fun resolved s₁ h => ?_
  obtain ⟨hrun, hs₁⟩ := h
  obtain ⟨hgrow, -⟩ := computeTypeBy_spec hspec hty (by exact hfit) hrun
  have hguard : s₁.typeGuard.visiting = t :: s.typeGuard.visiting :=
    congrArg Guard.visiting hgrow.typeGuard
  have hnone₁ : s₁.types.find? t = none := (hgrow.inProgress t (.head _)).trans hnone
  have hleave : (liftM (s₁.typeGuard.leaveOrFault t) : Resolve Guard) s₁ =
      .ok (s₁.typeGuard.leave t, s₁) :=
    run_liftM_eq_ok.2 ⟨Guard.leaveOrFault_eq_ok_iff.2 ⟨hguard ▸ .head _, rfl⟩, rfl⟩
  rw [run_get_bind, run_bind_of_ok hleave]
  intro space
  refine (size_takenTypeNames_enter space).trans ?_
  rw [Table.size_insert _ _ hnone₁]
  exact Nat.succ_le_succ (hs₁ space)

theorem ensureTypeWithin_endsIn (wf : g.WellFormed) (shallow : g.Shallow) (steps : Nat)
    {t : TypeId} {ty : TypeSymbol} (hty : g.type? t = some ty) (hsteps : t.index < steps)
    (hfit : g.TypesFit options s.types) (hcounted : s.typeGuard.IsCounted)
    (hstack : g.Stack (t :: s.typeGuard.visiting)) (hs : s.FewTypeNames) :
    EndsIn True (fun _ s' => s'.FewTypeNames) (ensureTypeWithin g options steps t s) := by
  induction steps generalizing t ty s with
  | zero => omega
  | succ steps ih =>
    rw [ensureTypeWithin, run_get_bind]
    cases hfound : s.types.find? t with
    | some r => exact hs
    | none =>
      have hspec : ∀ t s r s', g.TypesFit options s.types →
          ensureTypeWithin g options steps t s = .ok (r, s') → ResolvesTo g options t s r s' :=
        ensureTypeWithin_spec steps
      have hresolve : EndsIn True (fun _ s' => s'.FewTypeNames)
          (resolveTypeBy g options (ensureTypeWithin g options steps) t s) := by
        refine resolveTypeBy_endsIn shallow hspec hty hfit hfound hcounted hstack hs fun u hu => ?_
        obtain ⟨ty', hty', hdeclared⟩ := hu
        have hlt := wf.outer_lt hty' hdeclared
        obtain ⟨outer, houter⟩ := TypeGraph.exists_type?_of_index_lt hty (Nat.le_of_lt hlt)
        exact ih houter (by omega) hfit (hcounted.push t)
          (hstack.push (.inl ⟨ty', hty', hdeclared⟩) hlt) hs
      refine hresolve.withRun.bind fun _ s₁ h => ?_
      obtain ⟨hrun, hs₁⟩ := h
      obtain ⟨r, hto⟩ := resolveTypeBy_spec hspec hfit hfound hrun
      rw [entryOrFault_run hto.found]
      exact hs₁

/-- While no other type is being resolved, any type can be. -/
theorem ensureType_endsIn (wf : g.WellFormed) (shallow : g.Shallow) {t : TypeId} {ty : TypeSymbol}
    (hty : g.type? t = some ty) (hfit : g.TypesFit options s.types)
    (hguard : s.typeGuard = ∅) (hs : s.FewTypeNames) :
    EndsIn True (fun _ s' => s'.FewTypeNames) (ensureType g options t s) := by
  have hlt := TypeGraph.index_lt_of_type? hty
  refine ensureTypeWithin_endsIn wf shallow _ hty (by omega) hfit ?_ ?_ hs
  · rw [hguard]
    exact Guard.isCounted_empty
  · rw [hguard]
    exact .singleton t

end

end ScriptNaming
