import ScriptNaming.Proofs.MinimizedTypeNames

/-!
# The names that types have taken

Beside the entries for types, a resolution keeps the simple names that types have taken in each
namespace. In every state that it comes to (`TypeRun`), these are the names of the types that are
resolved and have a place in script, cut at their last dots, and no others. So the first free name
that is found by means of them has the least number with which no type has a name in the namespace,
and it is found after no more attempts than types are resolved, and one
(`taken_type_names_exact`).

Types and members are asked for in such states only, whatever becomes of the resolution in the end
(`computeTypeBy_asks`, `ensureMembersBy_asks`).
-/

namespace ScriptNaming

open ResolutionState

/-! ## The names of types -/

/-- A type in `types`, which is resolved and has a place in script, has the `name`. -/
def Table.HasTypeName (types : Table TypeId ResolvedType) (name : QualifiedName) : Prop :=
  ∃ t text, types.typeName? t = some text ∧ QualifiedName.ofText text = name

/-- No type has the generated name with the number `n` in a namespace, but all the generated names
with a smaller one are the names of types. -/
structure Table.FirstFreeNumber (types : Table TypeId ResolvedType) (space : String) (n : Nat) :
    Prop where
  free : ¬types.HasTypeName ⟨space, minimizedName n⟩
  lower : ∀ j < n, types.HasTypeName ⟨space, minimizedName j⟩

/-- The taken names `typeNames` are the names of the types in `types`. -/
def TakesNames (types : Table TypeId ResolvedType) (typeNames : Table String NameSet) : Prop :=
  ∀ name : QualifiedName,
    name.simple ∈ (typeNames.find? name.space).getD ∅ ↔ types.HasTypeName name

section

variable {types : Table TypeId ResolvedType} {typeNames : Table String NameSet}
  {name : QualifiedName} {t : TypeId} {r : ResolvedType}

theorem hasTypeName_insert_iff (hnone : types.find? t = none) :
    (types.insert t r).HasTypeName name ↔
      types.HasTypeName name ∨ r.semantics.name?.map QualifiedName.ofText = some name := by
  have hold : types.typeName? t = none := by
    rw [Table.typeName?, hnone]
    rfl
  rw [Option.map_eq_some_iff]
  constructor
  · rintro ⟨u, text, hu, hname⟩
    rw [Table.typeName?_insert] at hu
    split at hu
    · exact .inr ⟨text, hu, hname⟩
    · exact .inl ⟨u, text, hu, hname⟩
  · rintro (⟨u, text, hu, hname⟩ | ⟨text, htext, hname⟩)
    · have htu : t ≠ u := by
        rintro rfl
        cases hold.symm.trans hu
      exact ⟨u, text, by rwa [Table.typeName?_insert, if_neg htu], hname⟩
    · exact ⟨t, text, by rwa [Table.typeName?_insert, if_pos rfl], hname⟩

/-- A number that is free while all smaller ones are taken is not greater than the number of types:
each of the smaller ones takes a type. -/
theorem Table.FirstFreeNumber.le_size {space : String} {n : Nat}
    (h : types.FirstFreeNumber space n) : n ≤ types.size := by
  let simple? (t : TypeId) : Option String :=
    (types.typeName? t).map fun text => (QualifiedName.ofText text).simple
  have hsubset : (List.range n).map minimizedName ⊆ types.keys.filterMap simple? := by
    intro s hs
    obtain ⟨j, hj, rfl⟩ := List.mem_map.1 hs
    obtain ⟨t, text, htext, hname⟩ := h.lower j (List.mem_range.1 hj)
    have hkey : t ∈ types.keys := by
      rw [← Table.contains_iff_mem_keys, Table.contains]
      cases hfound : types.find? t with
      | some r => rfl
      | none =>
        rw [Table.typeName?, hfound] at htext
        cases htext
    refine List.mem_filterMap.2 ⟨t, hkey, ?_⟩
    rw [show simple? t = (types.typeName? t).map fun text => (QualifiedName.ofText text).simple
      from rfl, htext, Option.map_some, hname]
  have hnodup : ((List.range n).map minimizedName).Nodup :=
    List.nodup_range.map minimizedName_injective
  have hle := (List.subperm_of_subset hnodup hsubset).length_le
  rw [List.length_map, List.length_range] at hle
  exact hle.trans ((List.length_filterMap_le _ _).trans_eq types.length_keys)

/-- What is found by means of the taken names in `space` is the first generated name that no type
has. -/
theorem TakesNames.firstMinimizedName (h : TakesNames types typeNames) (space : String) :
    ∃ n, types.FirstFreeNumber space n ∧
      ScriptNaming.firstMinimizedName ((typeNames.find? space).getD ∅) = minimizedName n := by
  obtain ⟨n, hname, hfree, hlower⟩ :=
    firstMinimizedName_spec ((typeNames.find? space).getD ∅)
  exact ⟨n, ⟨mt (h ⟨space, _⟩).2 hfree, fun j hj => (h ⟨space, _⟩).1 (hlower j hj)⟩, hname⟩

/-- A new entry for a type of `g` takes its own name. -/
theorem takesNames_keptByEntries (g : TypeGraph) (options : Options) :
    KeptByEntries g options TakesNames := by
  intro types typeNames t ty r h _ hnone _ name
  rw [mem_enterTypeName_iff, hasTypeName_insert_iff hnone, h name]

end

/-! ## The states of a resolution -/

/-- The states that a resolution comes to, as far as types go: types and the members of types are
asked for, at the top level and in the midst of other requests, and what happens in between leaves
the entries for types and the taken names alone. -/
inductive TypeRun (g : TypeGraph) (options : Options) : ResolutionState → Prop
  | initial : TypeRun g options .initial
  | type {steps : Nat} {t : TypeId} {resolved : ResolvedType} {s s' : ResolutionState}
    (before : TypeRun g options s)
    (run : ensureTypeWithin g options steps t s = .ok (resolved, s')) : TypeRun g options s'
  | members {steps : Nat} {t : TypeId} {s s' : ResolutionState} (before : TypeRun g options s)
    (run : ensureMembersWithin g options steps t s = .ok ((), s')) : TypeRun g options s'
  /-- A type is begun or done, or something is recorded about members, or a problem reported. -/
  | aside {s s' : ResolutionState} (before : TypeRun g options s) (types : s'.types = s.types)
    (typeNames : s'.typeNames = s.typeNames) : TypeRun g options s'

section

variable {g : TypeGraph} {options : Options} {s s' : ResolutionState}

theorem TypeRun.takesNames (hs : TypeRun g options s) :
    g.TypesFit options s.types ∧ TakesNames s.types s.typeNames := by
  have hkept := (takesNames_keptByEntries g options).alike
  induction hs with
  | initial =>
    refine ⟨(Tidy.initial g options).types, fun name => ⟨fun h => ?_, fun h => ?_⟩⟩
    · exact absurd h Std.ExtTreeSet.not_mem_empty
    · obtain ⟨_, _, h, -⟩ := h
      cases h
  | @type steps t resolved s s' before run ih =>
    have hkeeps := (hkept steps t ih).2
    rwa [run] at hkeeps
  | @members steps t s s' before run ih =>
    let J (types : Table TypeId ResolvedType) (typeNames : Table String NameSet) : Prop :=
      g.TypesFit options types ∧ TakesNames types typeNames
    have hkeeps := (ensureMembersWithin_keepsTypes (J := J) (hkept _) steps t ih).2
    rwa [run] at hkeeps
  | aside before types typeNames ih =>
    rw [types, typeNames]
    exact ih

/-! ## Requests -/

theorem typeRun_ignoresRecords : IgnoresRecords (TypeRun g options) :=
  fun _ _ hs change => hs.aside change.types change.typeNames

/-- A request for a type goes on from a state of the resolution to another one, and it makes no
difference how it is answered in any other state. -/
theorem ensureTypeWithin_asks {steps : Nat} {ensure : TypeId → Resolve ResolvedType}
    (hensure : ∀ s, TypeRun g options s → ∀ u,
      ensure u s = ensureTypeWithin g options steps u s) (u : TypeId) :
    Alike False (TypeRun g options) (ensure u) (ensureTypeWithin g options steps u) :=
  .of_ok (fun s hs => hensure s hs u) fun _ _ _ hs hrun => hs.type hrun

/-- The same of a request for the members of a type. -/
theorem ensureMembersWithin_asks {steps : Nat} {ensure : TypeId → Resolve Unit}
    (hensure : ∀ s, TypeRun g options s → ∀ u,
      ensure u s = ensureMembersWithin g options steps u s) (u : TypeId) :
    Alike False (TypeRun g options) (ensure u) (ensureMembersWithin g options steps u) :=
  .of_ok (fun s hs => hensure s hs u) fun _ _ _ hs hrun => hs.members hrun

/-- To work out `ty`, the type around it is asked for in such states only. -/
theorem computeTypeBy_asks {steps : Nat} {outer : TypeId → Resolve ResolvedType}
    (houter : ∀ s, TypeRun g options s → ∀ u,
      outer u s = ensureTypeWithin g options steps u s) (ty : TypeSymbol) :
    Alike False (TypeRun g options) (computeTypeBy g options outer ty)
      (computeTypeBy g options (ensureTypeWithin g options steps) ty) := by
  have haround : Alike False (TypeRun g options) (ty.declaringType.mapM outer)
      (ty.declaringType.mapM (ensureTypeWithin g options steps)) := by
    cases ty.declaringType with
    | none => exact .pure _
    | some u =>
      rw [Option.mapM_some, Option.mapM_some, map_eq_pure_bind, map_eq_pure_bind]
      exact (ensureTypeWithin_asks houter u).bind fun _ => .pure _
  unfold computeTypeBy
  split
  · exact .pure _
  refine haround.bind fun found => ?_
  split
  · exact .pure _
  · exact .get_bind fun s _ => (typeRun_ignoresRecords.report_alike _).bind fun _ => .pure _

/-- To resolve the members of `t`, that type and the members of others are asked for in such states
only. -/
theorem ensureMembersBy_asks {steps : Nat} {ensure : TypeId → Resolve Unit}
    (hensure : ∀ s, TypeRun g options s → ∀ u,
      ensure u s = ensureMembersWithin g options steps u s) (t : TypeId) :
    Alike False (TypeRun g options) (ensureMembersBy g options ensure t)
      (ensureMembersWithin g options (steps + 1) t) := by
  rw [ensureMembersWithin]
  unfold ensureMembersBy
  refine .get_bind fun s _ => ?_
  split
  · exact .pure _
  refine (ensureTypeWithin_asks (fun _ _ _ => rfl) t).bind fun resolved => ?_
  refine (Alike.lift fun h => h.elim).bind fun ty => .get_bind fun s _ => ?_
  split
  · exact .pure _
  · exact .throw fun h => by cases h
  · refine Alike.bind (.of_keeps fun _ hs => hs.aside rfl rfl) fun _ => ?_
    refine (processMembers_alike (ensureMembersWithin_asks hensure) typeRun_ignoresRecords
      (fun h => h.elim) resolved).bind fun names => ?_
    refine .get_bind fun s _ => (Alike.lift fun h => h.elim).bind fun guard => ?_
    exact .of_keeps fun _ hs => hs.aside rfl rfl

/-- A resolution ends in such a state. -/
theorem typeRun_of_resolve {roots : List TypeId} {main : AssemblyId} {r : Resolution}
    (h : g.resolve options roots main = .ok r) :
    ∃ s, TypeRun g options s ∧ r = s.toResolution := by
  obtain ⟨sorted, s, -, hrun, rfl⟩ := resolve_eq_ok h
  have hroot (t : TypeId) : Alike False (TypeRun g options) (resolveRoot g options t)
      (resolveRoot g options t) :=
    (ensureTypeWithin_asks (fun _ _ _ => rfl) t).bind fun _ =>
      ensureMembersWithin_asks (fun _ _ _ => rfl) t
  have hkeeps : Keeps False (TypeRun g options) (.ok ((), s)) := by
    rw [← hrun]
    exact (Alike.forM hroot _ .initial).2
  exact ⟨s, hkeeps, rfl⟩

/-! ## Generated names -/

/-- A type with a generated name gets the first one that no type has when it comes in. -/
theorem TypeRun.name?_of_generatesName (hs : TypeRun g options s) {steps : Nat} {ty : TypeSymbol}
    {r : ResolvedType} (h : computeTypeBy g options (ensureTypeWithin g options steps) ty s =
      .ok (r, s')) (hgenerates : g.generatesName options ty) (husable : r.isUsable) :
    ∃ n, s'.types.FirstFreeNumber (g.scriptSpace ty).1 n ∧
      r.semantics.name? = some (QualifiedName.text
        ⟨if (g.globalMethods ty).1 then "" else (g.scriptSpace ty).1, minimizedName n⟩) := by
  have hnot : ¬(ResolvedType.notUsable).isUsable := Bool.false_ne_true
  obtain ⟨-, rfl, -⟩ | ⟨-, found, s₁, hfound, ⟨-, rfl, -⟩ | ⟨-, ds, hresolved, rfl⟩⟩ :=
    computeTypeBy_eq_ok h
  · exact absurd husable hnot
  · exact absurd husable hnot
  -- The type around it may be resolved first, and the taken names are those of the state after it.
  have hs₁ : TypeRun g options s₁ := by
    obtain ⟨-, -, rfl⟩ | ⟨u, around, -, -, haround⟩ := run_option_mapM_eq_ok.1 hfound
    · exact hs
    · exact hs.type haround
  obtain ⟨n, hfree, hname⟩ := hs₁.takesNames.2.firstMinimizedName (g.scriptSpace ty).1
  refine ⟨n, hfree, ?_⟩
  have hscript : (g.scriptTypeName options s₁.takenTypeNames ty found).1 =
      ⟨(g.scriptSpace ty).1, firstMinimizedName (s₁.takenTypeNames (g.scriptSpace ty).1)⟩ :=
    TypeGraph.scriptTypeName_of_generatesName hgenerates
  rw [takenTypeNames, hname] at hscript
  obtain rfl : r = _ := (congrArg Prod.fst hresolved).symm
  simp only [TypeGraph.resolvedType, hscript, TypeSemantics.name?]
  split <;> rfl

end

/-- **The taken names of types are exact**: in every state `s` that a resolution comes to, a simple
name is taken in a namespace exactly if a type that is resolved and has a place in script has the
name that is cut into the two. So, whenever a generated name is looked for in a namespace, the one
with the least number is found with which no type that is resolved by then has a name there, and no
more numbers are tried than types are resolved, and one. This goes for the namespaces and the states
in which types get their generated names. -/
theorem taken_type_names_exact {g : TypeGraph} {options : Options} {s : ResolutionState}
    (hs : TypeRun g options s) :
    (∀ space simple, simple ∈ s.takenTypeNames space ↔ s.types.HasTypeName ⟨space, simple⟩) ∧
    (∀ space, ∃ n ≤ s.types.size, s.types.FirstFreeNumber space n ∧
      firstMinimizedName (s.takenTypeNames space) = minimizedName n) ∧
    ∀ steps ty r s', computeTypeBy g options (ensureTypeWithin g options steps) ty s =
      .ok (r, s') → g.generatesName options ty → r.isUsable →
        ∃ n, s'.types.FirstFreeNumber (g.scriptSpace ty).1 n ∧
          r.semantics.name? = some (QualifiedName.text
            ⟨if (g.globalMethods ty).1 then "" else (g.scriptSpace ty).1, minimizedName n⟩) := by
  obtain ⟨-, htaken⟩ := hs.takesNames
  refine ⟨fun space simple => htaken ⟨space, simple⟩, fun space => ?_,
    fun steps ty r s' h hgenerates husable => hs.name?_of_generatesName h hgenerates husable⟩
  obtain ⟨n, hfree, hname⟩ := htaken.firstMinimizedName space
  exact ⟨n, hfree.le_size, hfree, hname⟩

/-- A class of global methods is moved to the top level and takes the name `$0` there, and not in
its own namespace. So the class that is in no namespace is the second one with a generated name. -/
theorem workshop_name_first_free :
    ∃ s ty r s', TypeRun toolGraph { minimizeNames := true } s ∧
      s.types.HasTypeName ⟨"", "$0"⟩ ∧ ¬s.types.HasTypeName ⟨"A", "$0"⟩ ∧
      (∃ n ≤ s.types.size, s.types.FirstFreeNumber "A" n ∧
        firstMinimizedName (s.takenTypeNames "A") = minimizedName n) ∧
      toolGraph.type? ⟨2⟩ = some ty ∧
      computeTypeBy toolGraph { minimizeNames := true }
        (ensureTypeWithin toolGraph { minimizeNames := true } 3) ty s = .ok (r, s') ∧
      toolGraph.generatesName { minimizeNames := true } ty ∧ r.isUsable ∧
      r.semantics.name? = some "$1" ∧
      ∃ n, s'.types.FirstFreeNumber (toolGraph.scriptSpace ty).1 n ∧
        r.semantics.name? = some (QualifiedName.text
          ⟨if (toolGraph.globalMethods ty).1 then "" else (toolGraph.scriptSpace ty).1,
            minimizedName n⟩) := by
  have hrun : (ensureTypeWithin toolGraph { minimizeNames := true } 4 ⟨0⟩
      .initial).toOption.any fun p =>
        (p.2.takenTypeNames "").contains "$0" ∧ ¬(p.2.takenTypeNames "A").contains "$0" ∧
        (toolGraph.type? ⟨2⟩).any fun ty =>
          toolGraph.generatesName { minimizeNames := true } ty ∧
          (computeTypeBy toolGraph { minimizeNames := true }
            (ensureTypeWithin toolGraph { minimizeNames := true } 3) ty p.2).toOption.any fun q =>
              q.1.isUsable ∧ q.1.semantics.name? = some "$1" := by
    decide +kernel
  obtain ⟨⟨resolved, s⟩, htype, hrest⟩ := exists_of_any_toOption hrun
  obtain ⟨htop, hown, hrest⟩ := of_decide_eq_true hrest
  obtain ⟨ty, hty, hrest⟩ := (Option.any_eq_true _ _).1 hrest
  obtain ⟨hgenerates, hrest⟩ := of_decide_eq_true hrest
  obtain ⟨⟨r, s'⟩, hcompute, hrest⟩ := exists_of_any_toOption hrest
  obtain ⟨husable, hname⟩ := of_decide_eq_true hrest
  have hs : TypeRun toolGraph { minimizeNames := true } s := TypeRun.initial.type htype
  obtain ⟨htaken, hfree, hgenerated⟩ := taken_type_names_exact hs
  exact ⟨s, ty, r, s', hs, (htaken "" "$0").1 htop, mt (htaken "A" "$0").2 hown, hfree "A", hty,
    hcompute, hgenerates, husable, hname, hgenerated 3 ty r s' hcompute hgenerates husable⟩

end ScriptNaming
