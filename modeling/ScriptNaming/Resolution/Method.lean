import ScriptNaming.Resolution.MethodRules

/-!
# Methods

`resolveMethod` settles how a method, or an accessor, is called. The first rule that applies wins:

1. `NonScriptable` leaves the method without a place in script;
2. the methods of a type with global members are global functions;
3. the markers of `TypeGraph.markedMethod?`;
4. an override is called like what it overrides, and an interface implementation like the first
   method that it implements, as far as those have semantics;
5. a blank name;
6. the preferred name: as it is where it was chosen explicitly, otherwise made unique.

The methods of rule 4 belong to other types, whose members are resolved on demand. The functions
here get the semantics of a method from `semanticsOf`, which does so.

A step that names a method takes the registry of the type in progress and returns it with the new
name entered.
-/

namespace ScriptNaming

/-- A name that is not chosen explicitly. Interface members without a preferred name are counted
through the whole assembly; the others are told apart within the registry. -/
def uniqueName (ty : TypeSymbol) (preferred : Option String) (names : NameRegistry) :
    Resolve (String × NameOrigin) :=
  if preferred.isNone && ty.isInterface then do
    let (name, interfaceNames) := (← get).interfaceNames.next ty.assembly
    modify fun s => { s with interfaceNames := interfaceNames }
    return (name, .counted)
  else do
    let name ← names.allocate preferred
    return (name, .allocated)

/-- The name that the `preferred` name leads to. -/
def finalName (ty : TypeSymbol) (preferred : PreferredName) (names : NameRegistry) :
    Resolve (String × NameOrigin) :=
  match preferred with
  | ⟨some name, true⟩ => return (name, .chosen)
  | ⟨name, _⟩ => uniqueName ty name names

/-- Names a method or a field `m` of `ty` and enters the name in the registry `names`. -/
def nameMember (ty : TypeSymbol) (m : MemberSymbol) (preferred : PreferredName)
    (names : NameRegistry) : Resolve (String × NameRegistry) := do
  let (name, origin) ← finalName ty preferred names
  recordOrigin m.id origin
  return (name, names.add name m.id)

/-! ## Overrides and implementations -/

/-- The first of several methods that has another name than the given `name`. -/
def firstDisagreement (semanticsOf : MemberId → Resolve (Option MethodSemantics))
    (name : Option String) : List MemberId → Resolve (Option MemberId)
  | [] => return none
  | m :: rest => do
    let semantics ← semanticsOf m
    if semantics.bind MethodSemantics.name? ≠ name then return some m
    else firstDisagreement semanticsOf name rest

/-- The diagnostics about markers that an override `m` leaves to what it overrides. -/
def TypeGraph.overrideMarkerProblems (g : TypeGraph) (m : MemberSymbol) (isSpecified : Bool) :
    List Diagnostic :=
  (if isSpecified then
    [memberDiagnostic g m "CannotSpecifyName" .illegalPlacement fun m =>
      "[ScriptName], [PreserveName] and [PreserveCase] cannot be specified on the method " ++ m ++
        " because it overrides a base member. Specify the attribute on the base member instead."]
  else []) ++
  (if m.has .ignoreGenericArguments then
    [memberDiagnostic g m "CannotSpecifyIgnoreGenericArguments" .illegalPlacement fun m =>
      "[IgnoreGenericArguments] cannot be specified on the method " ++ m ++
        " because it overrides a base member. Specify the attribute on the base member instead."]
  else [])

/-- Reports an override `m` that implements an interface method with another name than the one it
takes over with `semantics`. -/
def reportDisagreement (g : TypeGraph) (semanticsOf : MemberId → Resolve (Option MethodSemantics))
    (m : MemberSymbol) (semantics : MethodSemantics) : Resolve Unit :=
  if semantics.isNormal then do
    match ← firstDisagreement semanticsOf semantics.name? m.implements with
    | none => return ()
    | some other =>
      let other ← g.memberOrFault other
      report [memberDiagnostic g m "MultipleInterfaceImplementations" .hierarchyConflict fun m =>
        "The overriding member " ++ m ++ " cannot implement the interface method " ++
          g.qualifiedName other ++ " because it has a different script name. Consider using " ++
          "explicit interface implementation."]
  else return ()

/-- The semantics that an override `m` takes over from the method that it overrides, if that one has
any. -/
def overridingMethod (g : TypeGraph) (semanticsOf : MemberId → Resolve (Option MethodSemantics))
    (m : MemberSymbol) (isSpecified : Bool) : Resolve (Option MethodSemantics) := do
  report (g.overrideMarkerProblems m isSpecified)
  match m.overridden with
  | none => return none
  | some overridden =>
    match ← semanticsOf overridden with
    | none => return none
    | some semantics =>
      reportDisagreement g semanticsOf m semantics
      return some semantics

/-- The diagnostics about markers that an implementation `m` leaves to what it implements. -/
def TypeGraph.implementationMarkerProblems (g : TypeGraph) (m : MemberSymbol)
    (isSpecified : Bool) : List Diagnostic :=
  if isSpecified then
    [memberDiagnostic g m "CannotSpecifyName" .illegalPlacement fun m =>
      "[ScriptName], [PreserveName] and [PreserveCase] cannot be specified on the method " ++ m ++
        " because it implements an interface member. Specify the attribute on the interface " ++
        "member instead, or consider using explicit interface implementation."]
  else []

/-- The diagnostics about methods that `m` implements with different names. -/
def TypeGraph.implementationProblems (g : TypeGraph) (m : MemberSymbol)
    (implemented : List (Option MethodSemantics)) : List Diagnostic :=
  let name (s : Option MethodSemantics) : Option String := s.bind MethodSemantics.name?
  if implemented.any fun s => name s != name implemented.head?.join then
    [memberDiagnostic g m "MultipleInterfaceImplementations" .hierarchyConflict fun m =>
      "The member " ++ m ++ " cannot implement multiple interface methods with differing script " ++
        "names. Consider using explicit interface implementation."]
  else []

/-- The semantics that the method `m` takes over from the first method that it implements, if that
one has any. -/
def implementingMethod (g : TypeGraph) (semanticsOf : MemberId → Resolve (Option MethodSemantics))
    (m : MemberSymbol) (isSpecified : Bool) : Resolve (Option MethodSemantics) := do
  report (g.implementationMarkerProblems m isSpecified)
  let implemented ← m.implements.mapM semanticsOf
  report (g.implementationProblems m implemented)
  return implemented.head?.join

/-- The semantics that the method `m` takes over from other types, if any: an override from what it
overrides, and any method from what it implements. -/
def inheritedMethod? (g : TypeGraph) (semanticsOf : MemberId → Resolve (Option MethodSemantics))
    (m : MemberSymbol) (isSpecified : Bool) : Resolve (Option MethodSemantics) := do
  let overriding ←
    if m.isOverride then overridingMethod g semanticsOf m isSpecified else pure none
  match overriding with
  | some semantics => return some semantics
  | none =>
    if m.implements.isEmpty then return none
    else implementingMethod g semanticsOf m isSpecified

/-! ## Classification -/

/-- A method `m` that is named by its `preferred` name. -/
def namedMethod (g : TypeGraph) (ty : TypeSymbol) (m : MemberSymbol) (preferred : PreferredName)
    (names : NameRegistry) : Resolve (MethodSemantics × NameRegistry) :=
  if preferred.name = some "" then do
    report (g.blankNamedMethod ty m).2
    return ((g.blankNamedMethod ty m).1, names)
  else do
    let (name, names) ← nameMember ty m preferred names
    return (.normalMethod name (!m.has .alternateSignature) (m.has .ignoreGenericArguments) false,
      names)

/-- The semantics of the method `m` of `ty`, by the first rule that applies. That `ty` is usable
need not be tested again: `processMembers` leaves out the members of other types before any comes
here. -/
def classifyMethod (g : TypeGraph) (semanticsOf : MemberId → Resolve (Option MethodSemantics))
    (ty : TypeSymbol) (resolved : ResolvedType) (m : MemberSymbol) (preferred : PreferredName)
    (names : NameRegistry) : Resolve (MethodSemantics × NameRegistry) :=
  if m.has .nonScriptable then return (.notUsable, names)
  else if resolved.hasGlobalMembers then
    return (.normalMethod (preferred.name.getD m.name) true false true, names)
  else match g.markedMethod? ty m preferred.name with
    | some (semantics, ds) => do
      report ds
      return (semantics, names)
    | none => do
      match ← inheritedMethod? g semanticsOf m preferred.isSpecified with
      | some semantics => return (semantics, names)
      | none => namedMethod g ty m preferred names

/-- Classifies the method `m` and records its semantics. -/
def resolveMethod (g : TypeGraph) (semanticsOf : MemberId → Resolve (Option MethodSemantics))
    (ty : TypeSymbol) (resolved : ResolvedType) (m : MemberSymbol) (preferred : PreferredName)
    (names : NameRegistry) : Resolve (MethodSemantics × NameRegistry) := do
  let (semantics, names) ← classifyMethod g semanticsOf ty resolved m preferred names
  recordMethod m.id semantics
  return (semantics, names)

/-- Records the semantics of the alternate signature `m`, which follow those of `main`. As with
`classifyMethod`, the type that declares `m` is known to be usable. -/
def resolveAlternate (m main : MemberSymbol) : Resolve Unit :=
  if m.has .nonScriptable then recordMethod m.id .notUsable
  else do
    let semantics := ((← get).methods.find? main.id).getD (.normal m.name)
    recordMethod m.id semantics.withoutCode

end ScriptNaming
