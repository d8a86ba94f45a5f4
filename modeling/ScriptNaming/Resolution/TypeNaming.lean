import ScriptNaming.FreeName
import ScriptNaming.Identifier
import ScriptNaming.QualifiedName
import ScriptNaming.Resolution.State

/-!
# The names of types

A type's script name has a namespace, which the markers of the outermost type around it decide, and
a simple name. That is, in this order of precedence:

1. the argument of a valid `ScriptName`;
2. with minimization, the first free `$0`, `$1`, … for a type that other assemblies cannot see and
   whose name is not preserved;
3. the source name with its number of own type parameters after a `$`, behind the simple script
   name of the type around it and, for a type that other assemblies cannot see and whose name is
   not preserved, behind a `$`.

`GlobalMethods` moves a static type that declares only methods and is not nested to the top level.

The functions of this module are pure: they return diagnostics beside their result
(`TypeGraph.resolvedType`). `ensureType` runs them at most once for a type, after the type around
it.
-/

namespace ScriptNaming

/-! ## Namespaces -/

/-- The script namespace of `ty`, with diagnostics about the outermost type around it. -/
def TypeGraph.scriptSpace (g : TypeGraph) (ty : TypeSymbol) : String × List Diagnostic :=
  let outer := g.outermost ty
  match outer.markerText? .scriptNamespace with
  | none => (if outer.has .ignoreNamespace then "" else outer.space, [])
  | some argument =>
    let combined :=
      if outer.has .ignoreNamespace then
        [typeDiagnostic outer "Namespace" .illegalCombination fun t =>
          "The type " ++ t ++ " has both [IgnoreNamespace] and [ScriptNamespace]; " ++
            "at most one of them can be specified."]
      else []
    match argument.filter fun space => space == "" || isIdentifierPath space with
    | some space => (space, combined)
    | none =>
      (outer.space, combined ++
        [typeDiagnostic outer "Namespace" .invalidName fun t =>
          t ++ ": the argument of [ScriptNamespace] on a type must be a valid qualified " ++
            "identifier."])

/-! ## Simple names -/

/-- The generated name with the number `i`. -/
def minimizedName (i : Nat) : String := "$" ++ toString i

/-- The first of `$0`, `$1`, … that is not taken. Among one more name than there are taken ones, one
is free. -/
def firstMinimizedName (taken : NameSet) : String :=
  (firstFree? taken.contains minimizedName (taken.size + 1) 0).getD ""

/-- The number of own type parameters of `ty`, given the type `outer` around it. -/
def TypeSymbol.ownArity (ty : TypeSymbol) (outer : Option TypeSymbol) : Nat :=
  ty.typeParameters.length - (outer.elim 0 fun outer => outer.typeParameters.length)

/-- The source name of `ty` with its number of own type parameters, if it has any. -/
def TypeGraph.arityName (g : TypeGraph) (ty : TypeSymbol) : String :=
  let arity := ty.ownArity (ty.declaringType.bind g.type?)
  if 0 < arity then ty.name ++ "$" ++ toString arity else ty.name

/-- The name that a type has without markers and minimization, before it is told apart from public
names. `outer` is what is known of the type around it. -/
def TypeGraph.defaultTypeName (g : TypeGraph) (ty : TypeSymbol) (outer : Option ResolvedType) :
    QualifiedName × List Diagnostic :=
  match outer with
  | some outer =>
    let around := QualifiedName.ofText (outer.semantics.name?.getD "")
    (⟨around.space, around.simple ++ "$" ++ g.arityName ty⟩, [])
  | none =>
    let (space, ds) := g.scriptSpace ty
    (⟨space, g.arityName ty⟩, ds)

/-- Puts a `$` before a name that does not begin with one. -/
def withDollar (name : String) : String :=
  if name.toList.head? == some '$' then name else "$" ++ name

/-- Whether `ty` keeps its source name although other assemblies cannot see it. -/
def TypeSymbol.preservesName (ty : TypeSymbol) : Bool := ty.has .imported || ty.has .preserveName

/-- The name of a type without a valid `ScriptName`. `taken` are the simple names already taken in
a namespace. -/
def TypeGraph.derivedTypeName (g : TypeGraph) (options : Options) (taken : String → NameSet)
    (ty : TypeSymbol) (outer : Option ResolvedType) : QualifiedName × List Diagnostic :=
  let isHidden := !g.isPublicType ty && !ty.preservesName
  if options.minimizeNames && isHidden then
    let (space, ds) := g.scriptSpace ty
    (⟨space, firstMinimizedName (taken space)⟩, ds)
  else
    let (name, ds) := g.defaultTypeName ty outer
    (if isHidden then { name with simple := withDollar name.simple } else name, ds)

/-- The name of a type, apart from `GlobalMethods`. -/
def TypeGraph.scriptTypeName (g : TypeGraph) (options : Options) (taken : String → NameSet)
    (ty : TypeSymbol) (outer : Option ResolvedType) : QualifiedName × List Diagnostic :=
  match ty.markerText? .scriptName with
  | none => g.derivedTypeName options taken ty outer
  | some argument =>
    match argument.filter isIdentifier with
    | some name =>
      let (space, ds) := g.scriptSpace ty
      (⟨space, name⟩, ds)
    | none =>
      let (name, ds) := g.derivedTypeName options taken ty outer
      (name, typeDiagnostic ty "Name" .invalidName (fun t =>
        t ++ ": the argument of [ScriptName] on a type must be a valid identifier.") :: ds)

/-! ## Types -/

/-- Whether the methods of `ty` become global functions, with the reason why they do not where a
marker asks for it in vain. -/
def TypeGraph.globalMethods (g : TypeGraph) (ty : TypeSymbol) : Bool × List Diagnostic :=
  let refused (message : String → String) : Bool × List Diagnostic :=
    (false, [typeDiagnostic ty "GlobalMethods" .illegalPlacement message])
  if !ty.has .globalMethods then (false, [])
  else if !ty.isStatic then
    refused fun t => "The type " ++ t ++ " must be static to have a [GlobalMethods] attribute."
  else if g.declaresData ty then
    refused fun t =>
      "The type " ++ t ++ " cannot declare fields, events or properties to have a " ++
        "[GlobalMethods] attribute."
  else if ty.declaringType.isSome then
    refused fun t => "[GlobalMethods] cannot be applied to the nested type " ++ t ++ "."
  else (true, [])

/-- The diagnostics about namespace markers on a nested type `ty`, where they mean nothing. -/
def TypeSymbol.nestedMarkerProblems (ty : TypeSymbol) : List Diagnostic :=
  if ty.declaringType.isSome && (ty.has .ignoreNamespace || ty.has .scriptNamespace) then
    [typeDiagnostic ty "Namespace" .illegalPlacement fun t =>
      "[IgnoreNamespace] or [ScriptNamespace] cannot be specified for the nested type " ++ t ++ "."]
  else []

/-- What a type `ty` that has a place in script comes to, given the type `outer` around it and the
names that are `taken` in namespaces. -/
def TypeGraph.resolvedType (g : TypeGraph) (options : Options) (taken : String → NameSet)
    (ty : TypeSymbol) (outer : Option ResolvedType) : ResolvedType × List Diagnostic :=
  let (name, nameProblems) := g.scriptTypeName options taken ty outer
  let (isGlobal, globalProblems) := g.globalMethods ty
  let name := if isGlobal then { name with space := "" } else name
  (⟨.normalType name.text (!ty.has .imported), isGlobal⟩,
    ty.nestedMarkerProblems ++ nameProblems ++ globalProblems)

/-- The table `typeNames` of taken names with the name of the type `resolved` entered. -/
def enterTypeName (typeNames : Table String NameSet) (resolved : ResolvedType) :
    Table String NameSet :=
  match resolved.semantics.name? with
  | none => typeNames
  | some text =>
    let name := QualifiedName.ofText text
    typeNames.insert name.space (((typeNames.find? name.space).getD ∅).insert name.simple)

/-- Works out a type by means of `outerType`, which resolves the type around it. A marker, or a type
around it without a place in script, takes the type its own. -/
def computeTypeBy (g : TypeGraph) (options : Options) (outerType : TypeId → Resolve ResolvedType)
    (ty : TypeSymbol) : Resolve ResolvedType :=
  if ty.has .nonScriptable then return .notUsable
  else do
    let outer ← ty.declaringType.mapM outerType
    if outer.any (!·.isUsable) then return .notUsable
    else do
      let (resolved, ds) := g.resolvedType options (← get).takenTypeNames ty outer
      report ds
      return resolved

/-- Resolves `t`, which is not resolved yet, by means of `outerType`. If the guard does not admit
`t`, a debug assertion fails, which is a fault; that a release build takes `t` for a type without a
place in script then is not modelled. -/
def resolveTypeBy (g : TypeGraph) (options : Options) (outerType : TypeId → Resolve ResolvedType)
    (t : TypeId) : Resolve Unit := do
  let ty ← g.typeOrFault t
  match (← get).typeGuard.enter t with
  | .entered guard =>
    modify fun s => { s with typeGuard := guard }
    let resolved ← computeTypeBy g options outerType ty
    let guard ← (← get).typeGuard.leaveOrFault t
    modify fun s => { s with
      typeGuard := guard
      typeNames := enterTypeName s.typeNames resolved
      types := s.types.insert t resolved }
  | .cycle | .tooDeep => throw (.nestingDenied ty.fullName)

/-- Looks a type up, or resolves it, within the given number of nested types. -/
def ensureTypeWithin (g : TypeGraph) (options : Options) : Nat → TypeId → Resolve ResolvedType
  | 0, _ => throw .stepsExhausted
  | steps + 1, t => do
    match (← get).types.find? t with
    | some resolved => return resolved
    | none =>
      resolveTypeBy g options (ensureTypeWithin g options steps) t
      entryOrFault t

/-- Looks the type `t` up, or resolves it after the types around it. -/
def ensureType (g : TypeGraph) (options : Options) (t : TypeId) : Resolve ResolvedType :=
  ensureTypeWithin g options (g.types.size + 1) t

end ScriptNaming
