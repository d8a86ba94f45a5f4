import ScriptNaming.Proofs.DiagnosticLogs
import ScriptNaming.Proofs.MethodOutcomes

/-!
# Inline code

A method with inline code is replaced by it only where every hole of the code stands for something
(`BindsHole`). One hole that stands for nothing is enough to spoil the code, whatever comes after
it, and is reported. Methods that other types have a say in cannot have inline code at all
(`HasHierarchyRole`). In no case a name is entered.
-/

namespace ScriptNaming

/-! ## Holes and roles -/

/-- A `hole` in the inline code of the method `m` stands for the receiver, for a parameter, for a
type parameter of `m` or for one of its type `ty`. -/
def BindsHole (ty : TypeSymbol) (m : MemberSymbol) (hole : String) : Prop :=
  hole = "this" ∧ ¬m.isStatic ∨ hole ≠ "this" ∧
    ((∃ p ∈ m.parameters, p.name = hole) ∨ hole ∈ m.typeParameters ∨ hole ∈ ty.typeParameters)

/-- Whether other types have a say in the method `m` of `ty`: it is an interface member, it
overrides, it may be overridden, or it implements something. -/
def HasHierarchyRole (ty : TypeSymbol) (m : MemberSymbol) : Prop :=
  ty.isInterface ∨ m.isOverride ∨ m.isOverridable ∨ m.implements ≠ []

/-- The categories of reports that a method cannot have inline code because of its role. -/
def misplacedInlineCode : List String :=
  ["InlineCodeOnInterfaceMember", "InlineCodeOnOverridable", "InlineCodeOnInterfaceImplementation"]

/-- What becomes of a method with inline code, starting from a bag of diagnostics: its semantics and
the bag afterwards. -/
inductive TypeGraph.InlinesCode (g : TypeGraph) (ty : TypeSymbol) (m : MemberSymbol) (code : String)
    (bag : DiagnosticBag) : MethodSemantics → DiagnosticBag → Prop
  /-- The method cannot have inline code. The code is not looked at. -/
  | misplaced (role : HasHierarchyRole ty m) (d : Diagnostic)
      (entity : d.entity = g.qualifiedName m) (kind : d.kind = .illegalPlacement)
      (category : d.category ∈ misplacedInlineCode)
      (kept : (bag.add d).find? (g.qualifiedName m) "InlineCodeInvalidPlaceholder" =
        bag.find? (g.qualifiedName m) "InlineCodeInvalidPlaceholder") :
      InlinesCode g ty m code bag (.normal m.name) (bag.add d)
  /-- All holes stand for something. -/
  | bound (free : ¬HasHierarchyRole ty m)
      (binds : ∀ hole ∈ Template.placeholders code, BindsHole ty m hole) :
      InlinesCode g ty m code bag (.inlineCode code) bag
  /-- The last hole that stands for nothing has an entry afterwards, and the others are as
  before. -/
  | unbound (free : ¬HasHierarchyRole ty m) (before after : List String) (hole : String)
      (holes : Template.placeholders code = before ++ hole :: after)
      (stray : ¬BindsHole ty m hole) (binds : ∀ p ∈ after, BindsHole ty m p) (bag' : DiagnosticBag)
      (entry : bag'.find? (g.qualifiedName m) "InlineCodeInvalidPlaceholder" =
        some (g.placeholderProblem m hole))
      (others : ∀ entity category, diagnosticKey entity category ≠
          diagnosticKey (g.qualifiedName m) "InlineCodeInvalidPlaceholder" →
        bag'.find? entity category = bag.find? entity category) :
      InlinesCode g ty m code bag (.inlineCode Template.invalid) bag'

section

variable {g : TypeGraph} {ty : TypeSymbol} {m : MemberSymbol} {code : String}

theorem isBoundPlaceholder_iff {hole : String} :
    isBoundPlaceholder ty m hole ↔ BindsHole ty m hole := by
  by_cases hthis : hole = "this"
  · simp [isBoundPlaceholder, BindsHole, hthis]
  · simp [isBoundPlaceholder, isParameterName, BindsHole, hthis, or_assoc]

theorem hierarchyRole?_eq_none_iff : hierarchyRole? ty m = none ↔ ¬HasHierarchyRole ty m := by
  simp only [hierarchyRole?, HasHierarchyRole]
  split_ifs <;> simp_all

theorem key_placeholderProblem (g : TypeGraph) (m : MemberSymbol) (hole : String) :
    (g.placeholderProblem m hole).key =
      diagnosticKey (g.qualifiedName m) "InlineCodeInvalidPlaceholder" := by
  unfold TypeGraph.placeholderProblem
  split <;> rfl

/-- If some of `holes` stand for nothing in `m`, one of these is the last. -/
theorem exists_last_unbound {holes : List String} (h : ¬∀ hole ∈ holes, BindsHole ty m hole) :
    ∃ before hole after, holes = before ++ hole :: after ∧ ¬BindsHole ty m hole ∧
      ∀ p ∈ after, BindsHole ty m p := by
  induction holes with
  | nil => exact absurd (List.forall_mem_nil _) h
  | cons first rest ih =>
    by_cases hrest : ∀ hole ∈ rest, BindsHole ty m hole
    · have hfirst : ¬BindsHole ty m first :=
        fun hfirst => h (List.forall_mem_cons.2 ⟨hfirst, hrest⟩)
      exact ⟨[], first, rest, rfl, hfirst, hrest⟩
    · obtain ⟨before, hole, after, rfl, hhole, hafter⟩ := ih hrest
      exact ⟨first :: before, hole, after, rfl, hhole, hafter⟩

/-! ## The code and the reports -/

/-- The `code` of `m` is kept if all its holes stand for something. -/
theorem TypeGraph.inlinedMethod_of_bound (g : TypeGraph) (hrole : ¬HasHierarchyRole ty m)
    (h : ∀ hole ∈ Template.placeholders code, BindsHole ty m hole) :
    g.inlinedMethod ty m code = (.inlineCode code, []) := by
  have hunbound : (Template.placeholders code).filter (!isBoundPlaceholder ty m ·) = [] := by
    refine List.filter_eq_nil_iff.2 fun hole hmem => ?_
    simpa using isBoundPlaceholder_iff.2 (h hole hmem)
  simp [inlinedMethod, hierarchyRole?_eq_none_iff.2 hrole, hunbound]

/-- The `code` of `m` is given up at a `hole` that stands for nothing. If it is the last such one,
its report comes last. -/
theorem TypeGraph.inlinedMethod_of_unbound (g : TypeGraph) (hrole : ¬HasHierarchyRole ty m)
    {before after : List String} {hole : String}
    (hholes : Template.placeholders code = before ++ hole :: after) (h : ¬BindsHole ty m hole)
    (hafter : ∀ p ∈ after, BindsHole ty m p) :
    ∃ strays : List String, g.inlinedMethod ty m code =
      (.inlineCode Template.invalid, (strays ++ [hole]).map (g.placeholderProblem m)) := by
  have hunbound : (!isBoundPlaceholder ty m hole) = true := by
    simpa using mt isBoundPlaceholder_iff.1 h
  have hrest : after.filter (!isBoundPlaceholder ty m ·) = [] := by
    refine List.filter_eq_nil_iff.2 fun p hp => ?_
    simpa using isBoundPlaceholder_iff.2 (hafter p hp)
  have hstrays : (Template.placeholders code).filter (!isBoundPlaceholder ty m ·) =
      before.filter (!isBoundPlaceholder ty m ·) ++ [hole] := by
    rw [hholes, List.filter_append, List.filter_cons, if_pos hunbound, hrest]
  refine ⟨before.filter (!isBoundPlaceholder ty m ·), ?_⟩
  rw [inlinedMethod, hierarchyRole?_eq_none_iff.2 hrole]
  dsimp only
  rw [hstrays, if_neg (by simp)]

/-- The `code` is not even looked at if other types have a say in `m`. -/
theorem TypeGraph.inlinedMethod_of_role (g : TypeGraph) (hrole : HasHierarchyRole ty m) :
    ∃ d : Diagnostic, g.inlinedMethod ty m code = (.normal m.name, [d]) ∧
      d.entity = g.qualifiedName m ∧ d.kind = .illegalPlacement ∧
      d.category ∈ misplacedInlineCode := by
  obtain ⟨role, hrole⟩ : ∃ role, hierarchyRole? ty m = some role :=
    Option.ne_none_iff_exists'.1 fun hnone => hierarchyRole?_eq_none_iff.1 hnone hrole
  refine ⟨g.roleProblem m "an" .inlineCode role, ?_, rfl, rfl, ?_⟩
  · simp [inlinedMethod, hrole]
  · change Marker.inlineCode.shortName ++ role.methodCategory ∈ misplacedInlineCode
    cases role <;> decide

end

/-! ## Classification -/

section

variable {g : TypeGraph} {semanticsOf : MemberId → Resolve (Option MethodSemantics)}
  {ty : TypeSymbol} {resolved : ResolvedType} {m : MemberSymbol} {preferred : PreferredName}
  {names : NameRegistry}

/-- Inline code decides over a method, if no marker comes first. -/
theorem classifyMethod_of_inlineCode {argument : Option String}
    (hcode : m.markerText? .inlineCode = some argument) (hscriptable : ¬m.has .nonScriptable)
    (hskip : ¬m.has .scriptSkip) (halias : ¬m.has .scriptAlias)
    (hglobal : ¬resolved.hasGlobalMembers) (s : ResolutionState) :
    classifyMethod g semanticsOf ty resolved m preferred names s =
      .ok (((g.inlinedMethod ty m (argument.getD "")).1, names),
        { s with diagnostics :=
            s.diagnostics.addAll (g.inlinedMethod ty m (argument.getD "")).2 }) := by
  have hnone : m.markerText? .scriptAlias = none := by
    rw [← Option.not_isSome_iff_eq_none, MemberSymbol.markerText?, Attribute.isSome_text?_eq_has]
    exact halias
  have hmarked : g.markedMethod? ty m preferred.name =
      some (g.inlinedMethod ty m (argument.getD "")) := by
    simp [TypeGraph.markedMethod?, hskip, hnone, hcode]
  rw [classifyMethod, if_neg hscriptable, if_neg hglobal, hmarked]
  rfl

/-- **Inline code is emitted only if every hole in it is bound.** Whatever the state `s`, the method
`m` is classified, no name is entered, and nothing but the diagnostics changes. The `argument` is
kept as code exactly if each of its holes stands for something. -/
theorem inline_code_bound {argument : Option String}
    (hcode : m.markerText? .inlineCode = some argument) (hscriptable : ¬m.has .nonScriptable)
    (hskip : ¬m.has .scriptSkip) (halias : ¬m.has .scriptAlias)
    (hglobal : ¬resolved.hasGlobalMembers) (s : ResolutionState) :
    ∃ x bag, classifyMethod g semanticsOf ty resolved m preferred names s =
        .ok ((x, names), { s with diagnostics := bag }) ∧
      g.InlinesCode ty m (argument.getD "") s.diagnostics x bag := by
  refine ⟨_, _, classifyMethod_of_inlineCode hcode hscriptable hskip halias hglobal s, ?_⟩
  by_cases hrole : HasHierarchyRole ty m
  · obtain ⟨d, heq, hentity, hkind, hcategory⟩ := g.inlinedMethod_of_role hrole
    rw [heq]
    refine .misplaced hrole d hentity hkind hcategory (DiagnosticBag.find?_add_of_ne ?_)
    rw [Diagnostic.key, hentity, ne_eq, diagnosticKey_inj]
    intro hinvalid
    rw [hinvalid] at hcategory
    exact absurd hcategory (by decide)
  by_cases hbound : ∀ hole ∈ Template.placeholders (argument.getD ""), BindsHole ty m hole
  · rw [g.inlinedMethod_of_bound hrole hbound]
    exact .bound hrole hbound
  · obtain ⟨before, hole, after, hholes, hhole, hafter⟩ := exists_last_unbound hbound
    obtain ⟨strays, heq⟩ := g.inlinedMethod_of_unbound hrole hholes hhole hafter
    rw [heq]
    refine .unbound hrole before after hole hholes hhole hafter _ ?_ fun entity category hne => ?_
    · rw [List.map_append, DiagnosticBag.addAll_append]
      exact DiagnosticBag.find?_add_self (key_placeholderProblem g m hole)
    · refine DiagnosticBag.find?_addAll_of_ne fun d hd => ?_
      obtain ⟨p, -, rfl⟩ := List.mem_map.1 hd
      rw [key_placeholderProblem]
      exact hne.symm

end

/-- A generic class. -/
def listType : TypeSymbol where
  id := ⟨0⟩
  name := "List"
  space := ""
  fullName := "List"
  kind := .class
  accessibility := .public
  isStatic := false
  assembly := ⟨0⟩
  typeParameters := ["T"]
  declaringType := none
  baseTypes := []
  members := [⟨0⟩]
  attributes := []

/-- Inline code with a hole for something called `count`. -/
def addRangeCode : String := "add(\x7bthis\x7d, \x7bitems\x7d, \x7bcount\x7d, \x7bT\x7d)"

/-- A method of the class with this code, which has no parameter `count`. -/
def addRangeMethod : MemberSymbol where
  id := ⟨0⟩
  name := "AddRange"
  declaringType := ⟨0⟩
  accessibility := .public
  modifiers := {}
  overridden := none
  implements := []
  attributes := [.ofMarker .inlineCode [.str addRangeCode]]
  kind := .method ⟨[⟨"items", "System.Object"⟩], [], none⟩

/-- The code is given up because of this hole, although the one behind it is a type parameter. -/
theorem inline_code_of_addRange :
    ¬HasHierarchyRole listType addRangeMethod ∧ BindsHole listType addRangeMethod "this" ∧
      BindsHole listType addRangeMethod "items" ∧ ¬BindsHole listType addRangeMethod "count" ∧
      BindsHole listType addRangeMethod "T" ∧
      ∃ x bag, classifyMethod ∅ (fun _ => return none) listType ⟨.normalType "List" true, false⟩
          addRangeMethod ⟨some "addRange", false⟩ ∅ .initial =
          .ok ((x, ∅), { ResolutionState.initial with diagnostics := bag }) ∧
        TypeGraph.InlinesCode ∅ listType addRangeMethod addRangeCode ∅ x bag ∧
        x = .inlineCode "X" := by
  have hrole : ¬HasHierarchyRole listType addRangeMethod :=
    hierarchyRole?_eq_none_iff.1 (by decide)
  have hcount : ¬BindsHole listType addRangeMethod "count" :=
    mt isBoundPlaceholder_iff.2 (by decide)
  have hcode : addRangeMethod.markerText? .inlineCode = some (some addRangeCode) := by decide
  have hglobal : ¬(⟨.normalType "List" true, false⟩ : ResolvedType).hasGlobalMembers := by decide
  obtain ⟨x, bag, hclassify, houtcome⟩ :
      ∃ x bag, classifyMethod ∅ (fun _ => return none) listType ⟨.normalType "List" true, false⟩
          addRangeMethod ⟨some "addRange", false⟩ ∅ .initial =
          .ok ((x, ∅), { ResolutionState.initial with diagnostics := bag }) ∧
        TypeGraph.InlinesCode ∅ listType addRangeMethod addRangeCode ∅ x bag :=
    inline_code_bound hcode (by decide) (by decide) (by decide) hglobal .initial
  refine ⟨hrole, isBoundPlaceholder_iff.1 (by decide), isBoundPlaceholder_iff.1 (by decide), hcount,
    isBoundPlaceholder_iff.1 (by decide), x, bag, hclassify, houtcome, ?_⟩
  cases houtcome with
  | misplaced role => exact absurd role hrole
  | bound _ binds => exact absurd (binds "count" (by decide)) hcount
  | unbound => rfl

end ScriptNaming
