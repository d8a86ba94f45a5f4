import ScriptNaming.Proofs.Allocation
import ScriptNaming.Proofs.DefaultTypeNames
import ScriptNaming.Proofs.TypeEntries

/-!
# Generated names of types

With minimization, a hidden type gets the first of the names `$0`, `$1`, … that no type has in its
namespace (`firstMinimizedName_spec`). All names of types are entered under the namespace that they
are in at last, so that a generated name differs from the names of all types that were resolved
before (`generated_type_names_distinct`).

The exception are types that `GlobalMethods` moves to the top level: their names are looked for in
the namespace that they are moved out of, where a name may be free that is taken at the top level
(`moved_types_share_name`).
-/

namespace ScriptNaming

open ResolutionState

/-! ## Free names -/

theorem minimizedName_injective : Function.Injective minimizedName := by
  intro i j h
  have hlist := congrArg String.toList h
  simp only [minimizedName, String.toList_append] at hlist
  exact Nat.repr_inj.1 (String.toList_injective (List.append_cancel_left hlist))

theorem not_mem_dot_minimizedName (i : Nat) : '.' ∉ (minimizedName i).toList := by
  rw [minimizedName, String.toList_append, List.mem_append, not_or]
  exact ⟨by decide, fun hdot => absurd (isDigit_of_mem_toString hdot) (by decide)⟩

/-- The first generated name that is not in `taken`. -/
theorem firstMinimizedName_spec (taken : NameSet) :
    ∃ i, firstMinimizedName taken = minimizedName i ∧ minimizedName i ∉ taken ∧
      ∀ j < i, minimizedName j ∈ taken := by
  have hlist (s : String) (hs : taken.contains s) : s ∈ taken.toList :=
    Std.ExtTreeSet.mem_toList.2 hs
  have hlength : taken.toList.length < taken.size + 1 := by
    rw [Std.ExtTreeSet.length_toList]
    exact Nat.lt_succ_self _
  obtain ⟨name, hname⟩ := exists_firstFree? minimizedName_injective hlist hlength
  obtain ⟨i, -, rfl, hfree, hlower⟩ := firstFree?_eq_some_iff.1 hname
  rw [Nat.zero_add] at hname hfree
  refine ⟨i, by rw [firstMinimizedName, hname]; rfl, ?_, fun j hj => ?_⟩
  · exact fun hmem => Bool.false_ne_true (hfree.symm.trans hmem)
  · have := hlower j hj
    rwa [Nat.zero_add] at this

/-! ## Generated names -/

namespace TypeGraph

/-- Whether a type has a generated name: with minimization, a type that other assemblies cannot see
and whose name is neither preserved nor chosen by a valid `ScriptName`. -/
def generatesName (g : TypeGraph) (options : Options) (ty : TypeSymbol) : Bool :=
  options.minimizeNames && !g.isPublicType ty && !ty.preservesName &&
    ((ty.markerText? .scriptName).join.filter isIdentifier).isNone

/-- Whether `GlobalMethods` moves a type out of a namespace to the top level. -/
def leavesNamespace (g : TypeGraph) (ty : TypeSymbol) : Bool :=
  (g.globalMethods ty).1 && (g.scriptSpace ty).1 != ""

variable {g : TypeGraph} {options : Options}

theorem scriptTypeName_of_generatesName {taken : String → NameSet} {ty : TypeSymbol}
    {outer : Option ResolvedType} (h : g.generatesName options ty) :
    (g.scriptTypeName options taken ty outer).1 =
      ⟨(g.scriptSpace ty).1, firstMinimizedName (taken (g.scriptSpace ty).1)⟩ := by
  simp only [generatesName, Bool.and_eq_true, Bool.not_eq_true', Option.isNone_iff_eq_none] at h
  obtain ⟨⟨⟨hmin, hhidden⟩, hpreserved⟩, hmarker⟩ := h
  have hderived : (g.derivedTypeName options taken ty outer).1 =
      ⟨(g.scriptSpace ty).1, firstMinimizedName (taken (g.scriptSpace ty).1)⟩ := by
    simp [derivedTypeName, hmin, hhidden, hpreserved]
  unfold scriptTypeName
  cases hargument : ty.markerText? .scriptName with
  | none => exact hderived
  | some argument =>
    rw [hargument, Option.join_some] at hmarker
    simp only [hmarker]
    exact hderived

theorem not_generatesName_of_keepsNames {ty : TypeSymbol} (hmin : options.minimizeNames = false) :
    ¬g.generatesName options ty := by
  simp [generatesName, hmin]

theorem not_generatesName_of_isPublicType {ty : TypeSymbol} (hpublic : g.isPublicType ty) :
    ¬g.generatesName options ty := by
  simp [generatesName, hpublic]

/-- Neither options nor names that are taken matter for a type without a generated name. -/
theorem resolvedType_of_not_generatesName {options' : Options} {ty : TypeSymbol}
    (h : ¬g.generatesName options ty) (h' : ¬g.generatesName options' ty)
    (taken taken' : String → NameSet) (outer : Option ResolvedType) :
    g.resolvedType options taken ty outer = g.resolvedType options' taken' ty outer := by
  have hderived (hmarker : ((ty.markerText? .scriptName).join.filter isIdentifier).isNone) :
      g.derivedTypeName options taken ty outer = g.derivedTypeName options' taken' ty outer := by
    simp only [generatesName, hmarker, Bool.and_true, Bool.and_assoc] at h h'
    simp only [derivedTypeName, h, h', Bool.false_eq_true, if_false]
  have hscript : g.scriptTypeName options taken ty outer =
      g.scriptTypeName options' taken' ty outer := by
    unfold scriptTypeName
    cases hargument : ty.markerText? .scriptName with
    | none => exact hderived (by rw [hargument]; rfl)
    | some argument =>
      cases hname : argument.filter isIdentifier with
      | some name => simp only [hname]
      | none =>
        simp only [hname]
        rw [hderived (by rw [hargument, Option.join_some, hname]; rfl)]
  simp only [resolvedType, hscript]

/-- A generated name of a type that stays in its namespace is the first one that is free there. -/
theorem name?_of_generatesName {taken : String → NameSet} {ty : TypeSymbol}
    {outer : Option ResolvedType} (h : g.generatesName options ty) (hstays : ¬g.leavesNamespace ty) :
    (g.resolvedType options taken ty outer).1.semantics.name? =
      some (QualifiedName.text
        ⟨(g.scriptSpace ty).1, firstMinimizedName (taken (g.scriptSpace ty).1)⟩) := by
  have hname : (g.scriptTypeName options taken ty outer).1 =
      ⟨(g.scriptSpace ty).1, firstMinimizedName (taken (g.scriptSpace ty).1)⟩ :=
    scriptTypeName_of_generatesName h
  simp only [leavesNamespace, Bool.and_eq_true, bne_iff_ne, not_and, not_not] at hstays
  simp only [resolvedType, hname, TypeSemantics.name?, Option.some.injEq]
  split
  · rename_i hglobal
    rw [hstays hglobal]
  · rfl

end TypeGraph

/-! ## Entered names -/

/-- The script name of the type `t` in `types`, if it is resolved and has a place in script. -/
def Table.typeName? (types : Table TypeId ResolvedType) (t : TypeId) : Option String :=
  (types.find? t).bind fun r => r.semantics.name?

theorem Table.typeName?_insert (types : Table TypeId ResolvedType) (t u : TypeId)
    (r : ResolvedType) : (types.insert t r).typeName? u =
      if t = u then r.semantics.name? else types.typeName? u := by
  rw [typeName?, typeName?, find?_insert]
  split <;> rfl

/-- Whether the script name `text` of a type is entered as taken. -/
def IsEntered (typeNames : Table String NameSet) (text : String) : Prop :=
  (QualifiedName.ofText text).simple ∈
    (typeNames.find? (QualifiedName.ofText text).space).getD ∅

section

variable {typeNames : Table String NameSet} {r : ResolvedType} {text : String}

/-- The names that are taken after a type is entered as `r` are those that were taken before and the
parts of the name of the type, if it has one. -/
theorem mem_enterTypeName_iff {name : QualifiedName} :
    name.simple ∈ ((enterTypeName typeNames r).find? name.space).getD ∅ ↔
      name.simple ∈ (typeNames.find? name.space).getD ∅ ∨
        r.semantics.name?.map QualifiedName.ofText = some name := by
  unfold enterTypeName
  cases hname : r.semantics.name? with
  | none => simp
  | some text =>
    obtain ⟨space, simple⟩ := name
    simp only [Table.find?_insert, Option.map_some, Option.some.injEq]
    generalize QualifiedName.ofText text = entered
    obtain ⟨space', simple'⟩ := entered
    by_cases hspace : space' = space
    · subst hspace
      simp [or_comm]
    · simp [hspace]

theorem isEntered_enterTypeName (h : r.semantics.name? = some text) :
    IsEntered (enterTypeName typeNames r) text :=
  mem_enterTypeName_iff.2 (.inr (congrArg (Option.map QualifiedName.ofText) h))

theorem IsEntered.enter (h : IsEntered typeNames text) (r : ResolvedType) :
    IsEntered (enterTypeName typeNames r) text :=
  mem_enterTypeName_iff.2 (.inl h)

/-- The generated name of a type that stays in its namespace is not entered before. -/
theorem not_isEntered_of_generatesName {g : TypeGraph} {options : Options} {ty : TypeSymbol}
    {outer : Option ResolvedType} (h : g.generatesName options ty) (hstays : ¬g.leavesNamespace ty)
    (htext : (g.resolvedType options (fun space => (typeNames.find? space).getD ∅)
      ty outer).1.semantics.name? = some text) : ¬IsEntered typeNames text := by
  rw [TypeGraph.name?_of_generatesName h hstays] at htext
  obtain rfl := Option.some.inj htext
  obtain ⟨i, hname, hfree, -⟩ :=
    firstMinimizedName_spec ((typeNames.find? (g.scriptSpace ty).1).getD ∅)
  rw [hname, IsEntered, QualifiedName.ofText_text (not_mem_dot_minimizedName i)]
  exact hfree

end

/-! ## Types that are resolved one after the other -/

/-- If the name of the type `u` is generated and `u` stays in its namespace, the type `t` has
another name. -/
def TypeGraph.AvoidsName (g : TypeGraph) (options : Options) (types : Table TypeId ResolvedType)
    (t u : TypeId) : Prop :=
  ∀ ty, g.type? u = some ty → g.generatesName options ty → ¬g.leavesNamespace ty →
    ∀ text, types.typeName? u = some text → types.typeName? t ≠ some text

/-- All names of types are entered, and generated ones differ from the names of the types that were
resolved before. -/
structure NamesApart (g : TypeGraph) (options : Options) (types : Table TypeId ResolvedType)
    (typeNames : Table String NameSet) : Prop where
  fit : g.TypesFit options types
  entered : ∀ ⦃t text⦄, types.typeName? t = some text → IsEntered typeNames text
  apart : types.keys.Pairwise (g.AvoidsName options types)

section

variable {g : TypeGraph} {options : Options}

theorem NamesApart.initial (g : TypeGraph) (options : Options) :
    NamesApart g options ResolutionState.initial.types ResolutionState.initial.typeNames where
  fit := (Tidy.initial g options).types
  entered _ _ h := nomatch h
  apart := .nil

/-- A type comes in with a name that is not entered yet if it is generated. -/
theorem NamesApart.insert {types : Table TypeId ResolvedType} {typeNames : Table String NameSet}
    (h : NamesApart g options types typeNames) {t : TypeId} {ty : TypeSymbol} {r : ResolvedType}
    (hty : g.type? t = some ty) (hfit : g.FitsType options types ty r)
    (hnone : types.find? t = none)
    (hfresh : g.generatesName options ty → ¬g.leavesNamespace ty → ∀ text,
      r.semantics.name? = some text → ¬IsEntered typeNames text) :
    NamesApart g options (types.insert t r) (enterTypeName typeNames r) := by
  have hself : (types.insert t r).typeName? t = r.semantics.name? := by
    rw [Table.typeName?_insert, if_pos rfl]
  have hother {u : TypeId} (hu : u ≠ t) : (types.insert t r).typeName? u = types.typeName? u := by
    rw [Table.typeName?_insert, if_neg hu.symm]
  have hkeys {u : TypeId} (hu : u ∈ types.keys) : u ≠ t := by
    rintro rfl
    rw [← Table.contains_iff_mem_keys, Table.contains, hnone] at hu
    cases hu
  refine ⟨h.fit.insert hty hfit hnone, fun u text hu => ?_, ?_⟩
  · by_cases hut : u = t
    · subst hut
      exact isEntered_enterTypeName (hself.symm.trans hu)
    · exact (h.entered ((hother hut).symm.trans hu)).enter r
  · rw [Table.keys_insert, if_neg fun hmem => hkeys hmem rfl, List.pairwise_append]
    refine ⟨h.apart.imp_of_mem fun ha hb hab => ?_, List.pairwise_singleton _ _, ?_⟩
    · intro uy huy hgen hstays text htext
      rw [hother (hkeys hb)] at htext
      rw [hother (hkeys ha)]
      exact hab uy huy hgen hstays text htext
    · intro a ha b hb uy huy hgen hstays text htext hclash
      obtain rfl := List.mem_singleton.1 hb
      obtain rfl := Option.some.inj (hty.symm.trans huy)
      rw [hself] at htext
      rw [hother (hkeys ha)] at hclash
      exact hfresh hgen hstays text htext (h.entered hclash)

theorem namesApart_keptByEntries : KeptByEntries g options (NamesApart g options) := by
  intro types typeNames t ty r h hty hnone henters
  refine h.insert hty henters.fits hnone fun hgen hstays text htext => ?_
  rcases henters.computed with rfl | ⟨outer, -, rfl⟩
  · cases htext
  · exact not_isEntered_of_generatesName hgen hstays htext

end

/-- **Generated names of types are free**: whatever markers the types carry, a type whose name is
generated and which stays in its namespace has another script name than every type that was resolved
before it. Of two types with generated names that share one, the later one is moved out of its
namespace by `GlobalMethods`. -/
theorem generated_type_names_distinct {g : TypeGraph} {options : Options} {roots : List TypeId}
    {main : AssemblyId} {r : Resolution} (h : g.resolve options roots main = .ok r) :
    r.types.keys.Pairwise fun t u => ∀ ty, g.type? u = some ty → g.generatesName options ty →
      ¬g.leavesNamespace ty → ∀ text, r.types.typeName? u = some text →
        r.types.typeName? t ≠ some text := by
  obtain ⟨-, typeNames, hapart⟩ :=
    resolve_keepsTypes namesApart_keptByEntries (NamesApart.initial g options) h
  exact hapart.apart

/-- Two hidden classes of global methods in different namespaces, and a hidden class that is in no
namespace. -/
def toolTypes : Except Fault TypeGraph := do
  let global : List Attribute := [⟨"GlobalMethods", []⟩]
  let (g, core) := TypeGraph.declareAssembly ∅ "Core"
  let (g, _) ← g.declareType core
    { name := "Tools", space := "A", accessibility := .internal, isStatic := true,
      attributes := global }
  let (g, _) ← g.declareType core
    { name := "Tools", space := "B", accessibility := .internal, isStatic := true,
      attributes := global }
  let (g, _) ← g.declareType core { name := "Workshop", accessibility := .internal }
  return g

/-- The graph of the tools. -/
def toolGraph : TypeGraph := toolTypes.toOption.getD ∅

/-- The class that is in no namespace has another name than those that are moved there. -/
theorem workshop_name_distinct :
    ∃ r ty, toolGraph.resolve { minimizeNames := true } [⟨0⟩, ⟨1⟩, ⟨2⟩] ⟨0⟩ = .ok r ∧
      r.types.keys = [⟨0⟩, ⟨1⟩, ⟨2⟩] ∧ toolGraph.type? ⟨2⟩ = some ty ∧
      toolGraph.generatesName { minimizeNames := true } ty ∧ ¬toolGraph.leavesNamespace ty ∧
      r.types.typeName? ⟨2⟩ = some "$1" ∧ r.types.typeName? ⟨0⟩ ≠ some "$1" ∧
      r.types.typeName? ⟨1⟩ ≠ some "$1" := by
  have hrun : (toolGraph.resolve { minimizeNames := true } [⟨0⟩, ⟨1⟩, ⟨2⟩] ⟨0⟩).toOption.any fun r =>
      (toolGraph.type? ⟨2⟩).any fun ty => r.types.keys = [⟨0⟩, ⟨1⟩, ⟨2⟩] ∧
        toolGraph.generatesName { minimizeNames := true } ty ∧ ¬toolGraph.leavesNamespace ty ∧
        r.types.typeName? ⟨2⟩ = some "$1" := by
    decide +kernel
  obtain ⟨r, hr, hrest⟩ := exists_of_any_toOption hrun
  obtain ⟨ty, hty, hrest⟩ := (Option.any_eq_true _ _).1 hrest
  obtain ⟨hkeys, hgenerated, hstays, hname⟩ := of_decide_eq_true hrest
  have hpairs := generated_type_names_distinct hr
  rw [hkeys] at hpairs
  obtain ⟨hfirst, hpairs⟩ := List.pairwise_cons.1 hpairs
  obtain ⟨hsecond, -⟩ := List.pairwise_cons.1 hpairs
  exact ⟨r, ty, hr, hkeys, hty, hgenerated, hstays, hname,
    hfirst ⟨2⟩ (.tail _ (.head _)) ty hty hgenerated hstays "$1" hname,
    hsecond ⟨2⟩ (.head _) ty hty hgenerated hstays "$1" hname⟩

/-- The two classes of global methods get the same name: each is the first in its namespace to have
one, and both are moved to the top level. -/
theorem moved_types_share_name :
    ∃ r, toolGraph.resolve { minimizeNames := true } [⟨0⟩, ⟨1⟩, ⟨2⟩] ⟨0⟩ = .ok r ∧
      (∀ ty ∈ toolGraph.types, toolGraph.generatesName { minimizeNames := true } ty) ∧
      r.types.typeName? ⟨0⟩ = some "$0" ∧ r.types.typeName? ⟨1⟩ = some "$0" := by
  have hrun : (toolGraph.resolve { minimizeNames := true } [⟨0⟩, ⟨1⟩, ⟨2⟩] ⟨0⟩).toOption.any fun r =>
      r.types.typeName? ⟨0⟩ = some "$0" ∧ r.types.typeName? ⟨1⟩ = some "$0" := by
    decide +kernel
  have hgenerated :
      ∀ ty ∈ toolGraph.types, toolGraph.generatesName { minimizeNames := true } ty := by
    decide +kernel
  obtain ⟨r, hr, hnames⟩ := exists_of_any_toOption hrun
  obtain ⟨hfirst, hsecond⟩ := of_decide_eq_true hnames
  exact ⟨r, hr, hgenerated, hfirst, hsecond⟩

end ScriptNaming
