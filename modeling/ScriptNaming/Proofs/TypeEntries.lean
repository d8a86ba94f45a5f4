import ScriptNaming.Proofs.ReachedStates
import ScriptNaming.Proofs.SameRequests

/-!
# Types entered one after the other

A type is entered together with its name, when the entry for the type around it is there
(`TypeGraph.EntersType`). What every new entry keeps of the entries for types and of the names that
are taken holds at the end of every resolution (`resolve_keepsTypes`).
-/

namespace ScriptNaming

open ResolutionState

/-- How the entry `r` for a type follows from its declaration and from the entries for types and the
names that are there when it comes in. -/
structure TypeGraph.EntersType (g : TypeGraph) (options : Options)
    (types : Table TypeId ResolvedType) (typeNames : Table String NameSet) (ty : TypeSymbol)
    (r : ResolvedType) : Prop where
  fits : g.FitsType options types ty r
  /-- A name that is generated is free among the names that are taken. -/
  computed : r = .notUsable ∨ ∃ outer, ty.declaringType.map types.find? = outer.map some ∧
    r = (g.resolvedType options (fun space => (typeNames.find? space).getD ∅) ty outer).1

/-- A property `J` of the entries for types and of the names that are taken, which every new entry
keeps. -/
def KeptByEntries (g : TypeGraph) (options : Options)
    (J : Table TypeId ResolvedType → Table String NameSet → Prop) : Prop :=
  ∀ ⦃types typeNames t ty r⦄, J types typeNames → g.type? t = some ty → types.find? t = none →
    g.EntersType options types typeNames ty r →
    J (types.insert t r) (enterTypeName typeNames r)

section

variable {g : TypeGraph} {options : Options}
  {J : Table TypeId ResolvedType → Table String NameSet → Prop}

/-! ## Resolving types -/

variable {outer : TypeId → Resolve ResolvedType}

/-- The type around a type is resolved first by `outer`, and between that and the new entry nothing
is entered. -/
theorem computeTypeBy_keepsTypes
    (hspec : ∀ t s r s', g.TypesFit options s.types → outer t s = .ok (r, s') →
      ResolvesTo g options t s r s')
    (hkeeps : ∀ t s r s', g.TypesFit options s.types → J s.types s.typeNames →
      outer t s = .ok (r, s') → J s'.types s'.typeNames)
    {t : TypeId} {ty : TypeSymbol} {s s' : ResolutionState} {r : ResolvedType}
    (hty : g.type? t = some ty) (hfit : g.TypesFit options s.types) (hs : J s.types s.typeNames)
    (h : computeTypeBy g options outer ty s = .ok (r, s')) :
    J s'.types s'.typeNames ∧ g.EntersType options s'.types s'.typeNames ty r := by
  obtain ⟨-, -, hr, -⟩ := computeTypeBy_spec hspec hty hfit h
  obtain ⟨-, rfl, rfl⟩ | ⟨hasNot, found, s₁, hfound, h⟩ := computeTypeBy_eq_ok h
  · exact ⟨hs, hr, .inl rfl⟩
  obtain ⟨-, -, hentry, -⟩ := resolveAround_spec hspec hty hasNot hfit hfound
  have hs₁ : J s₁.types s₁.typeNames := by
    obtain ⟨-, -, rfl⟩ | ⟨u, around, -, -, haround⟩ := run_option_mapM_eq_ok.1 hfound
    · exact hs
    · exact hkeeps u s around s₁ hfit hs haround
  obtain ⟨-, rfl, rfl⟩ | ⟨-, ds, hresolved, rfl⟩ := h
  · exact ⟨hs₁, hr, .inl rfl⟩
  · exact ⟨hs₁, hr, .inr ⟨found, hentry, (congrArg Prod.fst hresolved).symm⟩⟩

variable (hJ : KeptByEntries g options J)

include hJ

theorem ensureTypeWithin_keepsTypes (steps : Nat) : ∀ t s r s', g.TypesFit options s.types →
    J s.types s.typeNames → ensureTypeWithin g options steps t s = .ok (r, s') →
    J s'.types s'.typeNames := by
  induction steps with
  | zero => exact fun t s r s' _ _ h => nomatch h
  | succ steps ih =>
    intro t s r s' hfit hs h
    unfold ensureTypeWithin at h
    rw [run_get_bind] at h
    cases hfound : s.types.find? t with
    | some found =>
      rw [hfound] at h
      obtain ⟨-, rfl⟩ := run_pure_eq_ok.1 h
      exact hs
    | none =>
      rw [hfound] at h
      obtain ⟨_, s₁, hresolve, h⟩ := run_bind_eq_ok.1 h
      obtain ⟨ty, r', s₂, hty, -, hcompute, rfl⟩ := resolveTypeBy_eq_ok hresolve
      obtain ⟨hs₂, henters⟩ := computeTypeBy_keepsTypes (ensureTypeWithin_spec steps) ih hty
        (by exact hfit) (by exact hs) hcompute
      obtain ⟨hgrow, -⟩ :=
        computeTypeBy_spec (ensureTypeWithin_spec steps) hty (by exact hfit) hcompute
      -- Nobody else has entered the type in the meantime.
      have hnone : s₂.types.find? t = none := (hgrow.inProgress t (.head _)).trans hfound
      rw [entryOrFault_run (Table.find?_insert_self _ _ _)] at h
      obtain ⟨-, rfl⟩ := Prod.mk.inj (Except.ok.inj h)
      exact hJ hs₂ hty hnone henters

/-- Resolving a type keeps that the entries fit, and with it what new entries keep. -/
theorem KeptByEntries.alike (steps : Nat) (t : TypeId) :
    Alike False (fun s => g.TypesFit options s.types ∧ J s.types s.typeNames)
      (ensureTypeWithin g options steps t) (ensureTypeWithin g options steps t) := by
  refine .of_ok (fun _ _ => rfl) fun s r s' hs h => ⟨?_, ?_⟩
  · exact (ensureTypeWithin_spec steps t s r s' hs.1 h).fit
  · exact ensureTypeWithin_keepsTypes hJ steps t s r s' hs.1 hs.2 h

omit hJ

/-! ## Resolutions -/

/-- The condition `J` on the entries for types and their names, which the resolution of types keeps,
is kept by the resolution of members. -/
theorem ensureMembersWithin_keepsTypes
    (htype : ∀ t, Alike False (fun s => J s.types s.typeNames) (ensureType g options t)
      (ensureType g options t)) (steps : Nat) (t : TypeId) :
    Alike False (fun s => J s.types s.typeNames) (ensureMembersWithin g options steps t)
      (ensureMembersWithin g options steps t) := by
  have keeps : IgnoresRecords fun s => J s.types s.typeNames := by
    intro s s' hs change
    rw [change.types, change.typeNames]
    exact hs
  induction steps generalizing t with
  | zero => exact .of_keeps fun _ _ h => h.elim
  | succ steps ih =>
    rw [ensureMembersWithin]
    unfold ensureMembersBy
    refine .get_bind fun s _ => ?_
    split
    · exact .pure _
    refine (htype t).bind fun resolved => (Alike.lift fun h => h.elim).bind fun ty => ?_
    refine .get_bind fun s _ => ?_
    split
    · exact .pure _
    · exact .throw fun h => by cases h
    · refine Alike.bind (.of_keeps fun _ hs => hs) fun _ => ?_
      refine (processMembers_alike ih keeps (fun h => h.elim) resolved).bind fun names => ?_
      refine .get_bind fun s _ => (Alike.lift fun h => h.elim).bind fun guard => ?_
      exact .of_keeps fun _ hs => hs

include hJ

/-- **What new entries keep holds in the end**: at the end of every resolution `r`, all entries for
types fit the declarations, and a property `J` of the entries and of the taken names holds that
holds of none and is kept by every new entry. -/
theorem resolve_keepsTypes {roots : List TypeId} {main : AssemblyId} {r : Resolution}
    (hinitial : J ∅ ∅) (h : g.resolve options roots main = .ok r) :
    g.TypesFit options r.types ∧ ∃ typeNames, J r.types typeNames := by
  let I (types : Table TypeId ResolvedType) (typeNames : Table String NameSet) : Prop :=
    g.TypesFit options types ∧ J types typeNames
  obtain ⟨sorted, s, -, hrun, rfl⟩ := resolve_eq_ok h
  have htype (t : TypeId) : Alike False (fun s => I s.types s.typeNames)
      (ensureType g options t) (ensureType g options t) := hJ.alike _ t
  have hroot (t : TypeId) : Alike False (fun s => I s.types s.typeNames)
      (resolveRoot g options t) (resolveRoot g options t) :=
    (htype t).bind fun _ => ensureMembersWithin_keepsTypes htype _ t
  have hkeeps : Keeps False (fun s => I s.types s.typeNames) (.ok ((), s)) := by
    rw [← hrun]
    exact (Alike.forM hroot _ ⟨(Tidy.initial g options).types, hinitial⟩).2
  obtain ⟨hfit, hs⟩ := hkeeps
  exact ⟨hfit, s.typeNames, hs⟩

end

end ScriptNaming
