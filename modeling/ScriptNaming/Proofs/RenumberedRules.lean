import ScriptNaming.Proofs.CanonicalOrder
import ScriptNaming.Proofs.Renumbering

/-!
# Rules under renumbering

The rules that a resolution follows look at types and members only through what renumbering leaves
alone. So they come to the same names, semantics and diagnostics in a graph and in its renumbered
form: for types (`resolvedType`), for preferred names (`preferredName`) and for methods
(`markedMethod?`). The own members of a type come in the same canonical order
(`canonicalMembers`), provided that this order tells them apart.
-/

namespace ScriptNaming

variable {ρ : Renumbering} {g h : TypeGraph}

/-! ## Types -/

theorem TypeSymbol.Renumbered.typeDiagnostic {ty ty' : TypeSymbol}
    (hty : TypeSymbol.Renumbered ρ ty ty') (category : String) (kind : DiagnosticKind)
    (message : String → String) :
    typeDiagnostic ty' category kind message = typeDiagnostic ty category kind message := by
  simp only [ScriptNaming.typeDiagnostic, hty.fullName]

theorem TypeSymbol.Renumbered.nestedMarkerProblems {ty ty' : TypeSymbol}
    (hty : TypeSymbol.Renumbered ρ ty ty') :
    ty'.nestedMarkerProblems = ty.nestedMarkerProblems := by
  simp only [TypeSymbol.nestedMarkerProblems, hty.declaringType, hty.has, hty.typeDiagnostic,
    Option.isSome_map]

theorem TypeSymbol.Renumbered.preservesName {ty ty' : TypeSymbol}
    (hty : TypeSymbol.Renumbered ρ ty ty') : ty'.preservesName = ty.preservesName := by
  simp only [TypeSymbol.preservesName, hty.has]

namespace TypeGraph.Renumbered

variable (e : Renumbered ρ g h)

include e

section Types

variable {ty ty' : TypeSymbol} (hty : TypeSymbol.Renumbered ρ ty ty')

include hty

theorem scriptSpace : h.scriptSpace ty' = g.scriptSpace ty := by
  have houter := e.outermost hty
  simp only [TypeGraph.scriptSpace, houter.markerText?, houter.has, houter.space,
    houter.typeDiagnostic]

theorem arityName : h.arityName ty' = g.arityName ty := by
  have houter := e.outer hty
  simp only [TypeGraph.arityName, TypeSymbol.ownArity, hty.name, hty.typeParameters]
  generalize ty.declaringType.bind g.type? = x at houter ⊢
  generalize ty'.declaringType.bind h.type? = y at houter ⊢
  cases houter with
  | none => rfl
  | some h =>
    simp only [Option.elim_some, h.typeParameters]
    rfl

theorem defaultTypeName (outer : Option ResolvedType) :
    h.defaultTypeName ty' outer = g.defaultTypeName ty outer := by
  cases outer <;> simp only [TypeGraph.defaultTypeName, e.arityName hty, e.scriptSpace hty]

theorem derivedTypeName (options : Options) (taken : String → NameSet)
    (outer : Option ResolvedType) :
    h.derivedTypeName options taken ty' outer = g.derivedTypeName options taken ty outer := by
  simp only [TypeGraph.derivedTypeName, e.isPublicType hty, hty.preservesName, e.scriptSpace hty,
    e.defaultTypeName hty]

theorem scriptTypeName (options : Options) (taken : String → NameSet)
    (outer : Option ResolvedType) :
    h.scriptTypeName options taken ty' outer = g.scriptTypeName options taken ty outer := by
  simp only [TypeGraph.scriptTypeName, hty.markerText?, e.derivedTypeName hty, e.scriptSpace hty,
    hty.typeDiagnostic]

theorem globalMethods : h.globalMethods ty' = g.globalMethods ty := by
  simp only [TypeGraph.globalMethods, hty.has, hty.isStatic, e.declaresData hty, hty.declaringType,
    hty.typeDiagnostic, Option.isSome_map]

theorem resolvedType (options : Options) (taken : String → NameSet)
    (outer : Option ResolvedType) :
    h.resolvedType options taken ty' outer = g.resolvedType options taken ty outer := by
  simp only [TypeGraph.resolvedType, e.scriptTypeName hty, e.globalMethods hty, hty.has,
    hty.nestedMarkerProblems]

end Types

/-! ## Preferred names -/

theorem mainCandidates {ty ty' : TypeSymbol} (hty : TypeSymbol.Renumbered ρ ty ty')
    (m : MemberSymbol) :
    (h.mainCandidates ty' (m.renumber ρ)).Perm
      ((g.mainCandidates ty m).map (MemberSymbol.renumber ρ)) := by
  have hperm := (e.methodsNamed hty m.name).filter fun other =>
    other.id != ρ.member m.id && !other.has .alternateSignature
  have hne (other : MemberSymbol) : (ρ.member other.id != ρ.member m.id) = (other.id != m.id) := by
    simp [bne, ρ.member.injective.eq_iff, Bool.beq_eq_decide_eq]
  rw [List.filter_map] at hperm
  simpa only [TypeGraph.mainCandidates, MemberSymbol.name_renumber, MemberSymbol.id_renumber,
    Function.comp_def, MemberSymbol.has_renumber, hne] using hperm

end TypeGraph.Renumbered

/-- The main method of an alternate signature, renumbered by `ρ`. -/
def MainMethod.renumber (ρ : Renumbering) : MainMethod → MainMethod
  | .none => .none
  | .unique main => .unique (main.renumber ρ)
  | .missing => .missing

namespace TypeGraph.Renumbered

variable (e : Renumbered ρ g h)

include e

theorem mainMethod {ty ty' : TypeSymbol} (hty : TypeSymbol.Renumbered ρ ty ty')
    (m : MemberSymbol) :
    h.mainMethod ty' (m.renumber ρ) = (g.mainMethod ty m).renumber ρ := by
  have hperm := e.mainCandidates hty m
  simp only [TypeGraph.mainMethod, MemberSymbol.isMethod_renumber, MemberSymbol.has_renumber]
  split
  · generalize g.mainCandidates ty m = l at hperm ⊢
    generalize h.mainCandidates ty' (m.renumber ρ) = l' at hperm ⊢
    -- Only whether there is exactly one candidate matters, not the order of several.
    match l with
    | [] => rw [List.map_nil, List.perm_nil] at hperm; subst hperm; rfl
    | [main] => rw [List.map_singleton, List.perm_singleton] at hperm; subst hperm; rfl
    | a :: b :: l =>
      match l', hperm.length_eq with
      | _ :: _ :: _, _ => rfl
  · rfl

theorem ownPreferredName (options : Options) (resolved : ResolvedType) (m : MemberSymbol) :
    h.ownPreferredName options resolved (m.renumber ρ) =
      g.ownPreferredName options resolved m := by
  simp only [TypeGraph.ownPreferredName, MemberSymbol.markerText?_renumber,
    MemberSymbol.name_renumber, MemberSymbol.has_renumber, e.isPublicMember, e.memberDiagnostic]

theorem preferredName (options : Options) {ty ty' : TypeSymbol}
    (hty : TypeSymbol.Renumbered ρ ty ty') (resolved : ResolvedType) (m : MemberSymbol) :
    h.preferredName options ty' resolved (m.renumber ρ) =
      g.preferredName options ty resolved m := by
  rw [TypeGraph.preferredName, TypeGraph.preferredName, e.mainMethod hty]
  cases g.mainMethod ty m <;>
    simp only [MainMethod.renumber, e.ownPreferredName, e.memberDiagnostic,
      MemberSymbol.name_renumber]

end TypeGraph.Renumbered

/-! ## Methods -/

theorem hierarchyRole?_renumber {ty ty' : TypeSymbol} (hty : TypeSymbol.Renumbered ρ ty ty')
    (m : MemberSymbol) : hierarchyRole? ty' (m.renumber ρ) = hierarchyRole? ty m := by
  simp only [hierarchyRole?, hty.isInterface, MemberSymbol.isOverride_renumber,
    MemberSymbol.isOverridable_renumber, MemberSymbol.implements_renumber, List.isEmpty_map]

theorem blankNameProblem?_renumber {ty ty' : TypeSymbol} (hty : TypeSymbol.Renumbered ρ ty ty')
    (m : MemberSymbol) : blankNameProblem? ty' (m.renumber ρ) = blankNameProblem? ty m := by
  simp only [blankNameProblem?, hty.isInterface, MemberSymbol.isOverridable_renumber,
    MemberSymbol.isStatic_renumber]
  rfl

theorem isBoundPlaceholder_renumber {ty ty' : TypeSymbol} (hty : TypeSymbol.Renumbered ρ ty ty')
    (m : MemberSymbol) (placeholder : String) :
    isBoundPlaceholder ty' (m.renumber ρ) placeholder = isBoundPlaceholder ty m placeholder := by
  simp only [isBoundPlaceholder, isParameterName, MemberSymbol.isStatic_renumber,
    MemberSymbol.parameters_renumber, MemberSymbol.typeParameters_renumber, hty.typeParameters]

namespace TypeGraph.Renumbered

variable (e : Renumbered ρ g h) {ty ty' : TypeSymbol} (hty : TypeSymbol.Renumbered ρ ty ty')

include e

theorem roleProblem (m : MemberSymbol) (article : String) (marker : Marker)
    (role : HierarchyRole) :
    h.roleProblem (m.renumber ρ) article marker role = g.roleProblem m article marker role := by
  simp only [TypeGraph.roleProblem, e.memberDiagnostic]

theorem placeholderProblem (m : MemberSymbol) (placeholder : String) :
    h.placeholderProblem (m.renumber ρ) placeholder = g.placeholderProblem m placeholder := by
  simp only [TypeGraph.placeholderProblem, e.memberDiagnostic]

include hty

theorem skippedMethod (m : MemberSymbol) :
    h.skippedMethod ty' (m.renumber ρ) = g.skippedMethod ty m := by
  simp only [TypeGraph.skippedMethod, hierarchyRole?_renumber hty, e.roleProblem,
    MemberSymbol.name_renumber, MemberSymbol.isStatic_renumber, MemberSymbol.parameters_renumber,
    e.memberDiagnostic]

theorem inlinedMethod (m : MemberSymbol) (code : String) :
    h.inlinedMethod ty' (m.renumber ρ) code = g.inlinedMethod ty m code := by
  have hproblem : h.placeholderProblem (m.renumber ρ) = g.placeholderProblem m :=
    funext (e.placeholderProblem m)
  simp only [TypeGraph.inlinedMethod, hierarchyRole?_renumber hty, e.roleProblem, hproblem,
    MemberSymbol.name_renumber, isBoundPlaceholder_renumber hty]

theorem markedMethod? (m : MemberSymbol) (preferred : Option String) :
    h.markedMethod? ty' (m.renumber ρ) preferred = g.markedMethod? ty m preferred := by
  simp only [TypeGraph.markedMethod?, MemberSymbol.has_renumber, MemberSymbol.markerText?_renumber,
    e.skippedMethod hty, e.inlinedMethod hty, TypeGraph.aliasedMethod,
    TypeGraph.firstArgumentMethod, MemberSymbol.isStatic_renumber,
    MemberSymbol.parameters_renumber, MemberSymbol.name_renumber, e.memberDiagnostic]

theorem blankNamedMethod (m : MemberSymbol) :
    h.blankNamedMethod ty' (m.renumber ρ) = g.blankNamedMethod ty m := by
  simp only [TypeGraph.blankNamedMethod, blankNameProblem?_renumber hty,
    MemberSymbol.name_renumber, MemberSymbol.parameters_renumber, e.memberDiagnostic]

omit hty

theorem overrideMarkerProblems (m : MemberSymbol) (isSpecified : Bool) :
    h.overrideMarkerProblems (m.renumber ρ) isSpecified =
      g.overrideMarkerProblems m isSpecified := by
  simp only [TypeGraph.overrideMarkerProblems, MemberSymbol.has_renumber, e.memberDiagnostic]

theorem implementationMarkerProblems (m : MemberSymbol) (isSpecified : Bool) :
    h.implementationMarkerProblems (m.renumber ρ) isSpecified =
      g.implementationMarkerProblems m isSpecified := by
  simp only [TypeGraph.implementationMarkerProblems, e.memberDiagnostic]

theorem implementationProblems (m : MemberSymbol)
    (implemented : List (Option MethodSemantics)) :
    h.implementationProblems (m.renumber ρ) implemented =
      g.implementationProblems m implemented := by
  simp only [TypeGraph.implementationProblems, e.memberDiagnostic]

end TypeGraph.Renumbered

/-! ## The order of naming -/

theorem canonicalOrder_renumber (ρ : Renumbering) (a b : MemberSymbol) :
    canonicalOrder (a.renumber ρ) (b.renumber ρ) = canonicalOrder a b := by
  simp only [canonicalOrder, MemberSymbol.kindRank_renumber, MemberSymbol.name_renumber,
    MemberSymbol.parameters_renumber, MemberSymbol.parameterTypeList_renumber]

namespace TypeGraph.Renumbered

variable (e : Renumbered ρ g h) {ty ty' : TypeSymbol}

include e

/-- The own members of a type come in the same canonical order, in whatever order they are
declared. -/
theorem canonicalMembers (apart : g.TellsMembersApart) {t : TypeId} (ht : g.type? t = some ty)
    (hty : TypeSymbol.Renumbered ρ ty ty') :
    h.canonicalMembers ty' = (g.canonicalMembers ty).map (MemberSymbol.renumber ρ) := by
  have hle (a b : MemberSymbol) : (canonicalOrder (a.renumber ρ) (b.renumber ρ)).isLE =
      (canonicalOrder a b).isLE := by rw [canonicalOrder_renumber]
  have hapart : ∀ a ∈ (g.membersOf ty).map (MemberSymbol.renumber ρ),
      ∀ b ∈ (g.membersOf ty).map (MemberSymbol.renumber ρ),
      (canonicalOrder a b).isLE → (canonicalOrder b a).isLE → a = b := by
    intro x hx y hy hab hba
    obtain ⟨a, ha, rfl⟩ := List.mem_map.1 hx
    obtain ⟨b, hb, rfl⟩ := List.mem_map.1 hy
    rw [hle] at hab hba
    rw [apart ht a ha b hb (canonicalOrder_antisymm hab hba)]
  calc h.canonicalMembers ty'
      = sortBy (fun a b => (canonicalOrder a b).isLE)
          ((g.membersOf ty).map (MemberSymbol.renumber ρ)) :=
        (sortBy_eq_of_perm canonicalOrder_total canonicalOrder_trans (e.membersOf hty).symm
          hapart).symm
    _ = (g.canonicalMembers ty).map (MemberSymbol.renumber ρ) := sortBy_map hle _

theorem alternates (apart : g.TellsMembersApart) {t : TypeId} (ht : g.type? t = some ty)
    (hty : TypeSymbol.Renumbered ρ ty ty') :
    h.alternates ty' =
      (g.alternates ty).map (Prod.map (MemberSymbol.renumber ρ) (MemberSymbol.renumber ρ)) := by
  rw [TypeGraph.alternates, TypeGraph.alternates, e.canonicalMembers apart ht hty,
    List.filterMap_map, List.map_filterMap]
  congr 1
  funext m
  simp only [Function.comp_apply, e.mainMethod hty]
  cases g.mainMethod ty m <;> rfl

theorem namedMembers (apart : g.TellsMembersApart) {t : TypeId} (ht : g.type? t = some ty)
    (hty : TypeSymbol.Renumbered ρ ty ty') :
    h.namedMembers ty' = (g.namedMembers ty).map (MemberSymbol.renumber ρ) := by
  rw [TypeGraph.namedMembers, TypeGraph.namedMembers, e.canonicalMembers apart ht hty,
    List.filter_map]
  congr 2
  funext m
  simp only [Function.comp_apply, e.mainMethod hty]
  cases g.mainMethod ty m <;> rfl

end TypeGraph.Renumbered

/-- The order of naming goes by preferred names only. -/
theorem namingPlan_map (f : MemberSymbol → MemberSymbol)
    (members : List (MemberSymbol × PreferredName)) :
    namingPlan (members.map (Prod.map f id)) = (namingPlan members).map (Prod.map f id) := by
  simp only [namingPlan, List.map_map, List.map_flatMap, List.map_append, List.filter_map,
    List.filter_filter]
  rfl

end ScriptNaming
