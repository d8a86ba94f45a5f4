import ScriptNaming.Resolution.PreferredName
import ScriptNaming.Template

/-!
# Methods whose markers decide

A marker may take a method out of naming altogether. `TypeGraph.markedMethod?` goes through these
markers in their order of precedence: `ScriptSkip`, `ScriptAlias`, `InlineCode` and
`InstanceMethodOnFirstArgument`. A misplaced one is reported, and the method becomes a normal method
with its source name.

`TypeGraph.blankNamedMethod` is the rule for a blank `ScriptName`, which drops the method's name
from its calls.
-/

namespace ScriptNaming

/-- What an entity's place in the hierarchy of types may be, where the entity cannot be treated on
its own. -/
inductive HierarchyRole where
  | interfaceMember
  | override
  | overridable
  | implementation
  deriving DecidableEq, Repr

/-- The role of the member `m` of `ty` in the hierarchy; of several the first. -/
def hierarchyRole? (ty : TypeSymbol) (m : MemberSymbol) : Option HierarchyRole :=
  if ty.isInterface then some .interfaceMember
  else if m.isOverride then some .override
  else if m.isOverridable then some .overridable
  else if !m.implements.isEmpty then some .implementation
  else none

/-- The part of a category that names the role of a method. -/
def HierarchyRole.methodCategory : HierarchyRole → String
  | .interfaceMember => "OnInterfaceMember"
  | .override | .overridable => "OnOverridable"
  | .implementation => "OnInterfaceImplementation"

/-- The role of a method as a reason. -/
def HierarchyRole.methodReason : HierarchyRole → String
  | .interfaceMember => "it is an interface method"
  | .override => "it overrides a base member"
  | .overridable => "it is overridable"
  | .implementation => "it implements an interface member"

/-- The report that the method `m` cannot have `marker` because of its `role`. -/
def TypeGraph.roleProblem (g : TypeGraph) (m : MemberSymbol) (article : String) (marker : Marker)
    (role : HierarchyRole) : Diagnostic :=
  memberDiagnostic g m (marker.shortName ++ role.methodCategory) .illegalPlacement fun m =>
    "The member " ++ m ++ " cannot have " ++ article ++ " [" ++ marker.shortName ++ "] because " ++
      role.methodReason ++ "."

/-! ## Skipped methods -/

/-- A method `m` that is left out of script: a static method comes to its parameter, another one to
its receiver. -/
def TypeGraph.skippedMethod (g : TypeGraph) (ty : TypeSymbol) (m : MemberSymbol) :
    MethodSemantics × List Diagnostic :=
  let countProblem (message : String → String) : List Diagnostic :=
    [memberDiagnostic g m "ScriptSkipParameterCount" .illegalPlacement message]
  match hierarchyRole? ty m with
  | some role => (.normal m.name, [g.roleProblem m "a" .scriptSkip role])
  | none =>
    if m.isStatic then
      (.inlineCode (m.parameters.head?.elim Template.invalid fun p => Template.hole p.name),
        if m.parameters.length = 1 then []
        else countProblem fun m => "The static method " ++ m ++
          " must have exactly one parameter to have a [ScriptSkip].")
    else
      (.inlineCode (Template.hole "this"),
        if m.parameters.isEmpty then []
        else countProblem fun m => "The instance method " ++ m ++
          " must have no parameters to have a [ScriptSkip].")

/-! ## Inline code -/

/-- Whether `placeholder` stands for a parameter of the method `m`, for one of its type parameters,
or for a type parameter of its type `ty`. -/
def isParameterName (ty : TypeSymbol) (m : MemberSymbol) (placeholder : String) : Bool :=
  m.parameters.any (·.name == placeholder) || m.typeParameters.contains placeholder ||
    ty.typeParameters.contains placeholder

/-- Whether a placeholder stands for something in the inline code of a method: `this` for the
receiver of an instance method, every other one for a parameter. -/
def isBoundPlaceholder (ty : TypeSymbol) (m : MemberSymbol) (placeholder : String) : Bool :=
  if placeholder = "this" then !m.isStatic else isParameterName ty m placeholder

/-- The report that `placeholder` stands for nothing in `m`. -/
def TypeGraph.placeholderProblem (g : TypeGraph) (m : MemberSymbol) (placeholder : String) :
    Diagnostic :=
  if placeholder = "this" then
    memberDiagnostic g m "InlineCodeInvalidPlaceholder" .illegalPlacement fun m =>
      "The placeholder " ++ Template.hole "this" ++
        " cannot be used in inline code for the static method " ++ m ++ "."
  else
    memberDiagnostic g m "InlineCodeInvalidPlaceholder" .invalidName fun m =>
      "Invalid placeholder " ++ Template.hole placeholder ++ " in inline code for the method " ++
        m ++ "."

/-- A method whose calls are replaced by `code`. -/
def TypeGraph.inlinedMethod (g : TypeGraph) (ty : TypeSymbol) (m : MemberSymbol) (code : String) :
    MethodSemantics × List Diagnostic :=
  match hierarchyRole? ty m with
  | some role => (.normal m.name, [g.roleProblem m "an" .inlineCode role])
  | none =>
    let unbound := (Template.placeholders code).filter (!isBoundPlaceholder ty m ·)
    (.inlineCode (if unbound.isEmpty then code else Template.invalid),
      unbound.map (g.placeholderProblem m))

/-! ## The markers in order -/

/-- A method `m` with the alias `callee`, which only static methods may have. -/
def TypeGraph.aliasedMethod (g : TypeGraph) (m : MemberSymbol) (callee : String) :
    MethodSemantics × List Diagnostic :=
  if m.isStatic then (.inlineCode (Template.call callee (m.parameters.map Parameter.name)), [])
  else (.normal m.name,
    [memberDiagnostic g m "NonStaticWithAlias" .illegalPlacement fun m =>
      "The method " ++ m ++ " must be static to have a [ScriptAlias]."])

/-- A method `m` that is called on its first argument by `name`, which only static methods can
be. -/
def TypeGraph.firstArgumentMethod (g : TypeGraph) (m : MemberSymbol) (name : String) :
    MethodSemantics × List Diagnostic :=
  if m.isStatic then (.instanceMethodOnFirstArgument name, [])
  else (.normal m.name,
    [memberDiagnostic g m "InstanceMethodOnFirstArgument" .illegalPlacement fun m =>
      "The method " ++ m ++ " cannot have an [InstanceMethodOnFirstArgument] because it is not " ++
        "static."])

/-- What the markers of the method `m` make of it, if they make anything of it. -/
def TypeGraph.markedMethod? (g : TypeGraph) (ty : TypeSymbol) (m : MemberSymbol)
    (preferred : Option String) : Option (MethodSemantics × List Diagnostic) :=
  if m.has .scriptSkip then some (g.skippedMethod ty m)
  else if let some callee := m.markerText? .scriptAlias then
    some (g.aliasedMethod m (callee.getD ""))
  else if let some code := m.markerText? .inlineCode then
    some (g.inlinedMethod ty m (code.getD ""))
  else if m.has .instanceMethodOnFirstArgument then
    some (g.firstArgumentMethod m (preferred.getD m.name))
  else none

/-! ## Blank names -/

/-- The reason why the method `m` of `ty` cannot have a blank name, with the category of the
report. -/
def blankNameProblem? (ty : TypeSymbol) (m : MemberSymbol) : Option (String × String) :=
  if ty.isInterface then some ("InterfaceMethodWithEmptyName", "it is an interface method")
  else if m.isOverridable then some ("OverridableWithEmptyName", "it is overridable")
  else if m.isStatic then some ("StaticWithEmptyName", "it is static")
  else none

/-- A method `m` with a blank name: its receiver is called. -/
def TypeGraph.blankNamedMethod (g : TypeGraph) (ty : TypeSymbol) (m : MemberSymbol) :
    MethodSemantics × List Diagnostic :=
  match blankNameProblem? ty m with
  | some (category, reason) =>
    (.normal m.name,
      [memberDiagnostic g m category .illegalPlacement fun m =>
        "The member " ++ m ++ " cannot have an empty name in its [ScriptName] because " ++ reason ++
          "."])
  | none =>
    (.inlineCode (Template.call (Template.hole "this") (m.parameters.map Parameter.name)), [])

end ScriptNaming
