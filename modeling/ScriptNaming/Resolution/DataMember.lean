import ScriptNaming.Resolution.Method

/-!
# Properties, fields and events

A property with an alias or with an `IntrinsicProperty` has no accessor methods in script; other
properties, and all events, are used through theirs. An accessor without an explicit name of its own
would like to be named after its owner: by a stem such as `get_` and the owner's name, as it is
where the owner's name was chosen explicitly, otherwise made unique; the accessor of an owner with a
generated name has a generated name too.

The steps of this module are for members of usable types: `processMembers` leaves out the members of
other types before any comes here, so that no step tests again whether the type is usable.
-/

namespace ScriptNaming

/-- The tools that the members of one type are resolved with. -/
structure MemberContext where
  graph : TypeGraph
  options : Options
  /-- Gets the semantics of a method, also of another type. -/
  semanticsOf : MemberId → Resolve (Option MethodSemantics)
  /-- The type whose members are resolved. -/
  type : TypeSymbol
  /-- What is known of that type. -/
  resolved : ResolvedType

/-! ## Members without a place in script -/

/-- Records that the member `m` and its accessors have no place in script. -/
def markNotUsable (m : MemberSymbol) : Resolve Unit :=
  match m.kind with
  | .method _ => recordMethod m.id .notUsable
  | .field => recordField m.id .notUsable
  | .property _ => do
    recordProperty m.id .notUsable
    m.accessors.forM (recordMethod · .notUsable)
  | .event _ => do
    recordEvent m.id .notUsable
    m.accessors.forM (recordMethod · .notUsable)

namespace MemberContext

/-! ## Accessors -/

/-- The preferred name of an accessor of `owner` without an explicit name of its own. -/
def accessorName (c : MemberContext) (owner : MemberSymbol) (slot : AccessorSlot)
    (preferred : PreferredName) (names : NameRegistry) : Except Fault PreferredName :=
  let base := slot.stem ++ preferred.name.getD ""
  if preferred.isSpecified then .ok ⟨some base, false⟩
  else if c.options.minimizeNames && !c.graph.isPublicMember owner then .ok ⟨none, false⟩
  else (names.allocate (some base)).map fun name => ⟨some name, false⟩

/-- Names an accessor and resolves it as a method. `preferred` is the preferred name of its
owner. -/
def resolveAccessor (c : MemberContext) (owner : MemberSymbol) (slot : AccessorSlot)
    (preferred : PreferredName) (accessor : MemberId) (names : NameRegistry) :
    Resolve (MethodSemantics × NameRegistry) := do
  let m ← c.graph.memberOrFault accessor
  let (own, ds) := c.graph.preferredName c.options c.type c.resolved m
  report ds
  let name ← if own.isSpecified then pure own else c.accessorName owner slot preferred names
  resolveMethod c.graph c.semanticsOf c.type c.resolved m name names

/-- Resolves the accessor of a property or an event `owner` in the given place, if there is one. -/
def resolveAccessor? (c : MemberContext) (owner : MemberSymbol) (slot : AccessorSlot)
    (preferred : PreferredName) (names : NameRegistry) :
    Resolve (Option MethodSemantics × NameRegistry) :=
  match owner.accessor? slot with
  | none => return (none, names)
  | some accessor => do
    let (semantics, names) ← c.resolveAccessor owner slot preferred accessor names
    return (some semantics, names)

/-! ## Properties -/

/-- How reports refer to the property `m`. -/
def propertySubject (c : MemberContext) (m : MemberSymbol) : String :=
  if m.isIndexer then "The indexer on type " ++ c.graph.ownerName m
  else "The property " ++ c.graph.qualifiedName m

/-- A report about a property; `predicate` follows the way in which reports refer to it. -/
def propertyProblem (c : MemberContext) (m : MemberSymbol) (category predicate : String) :
    Diagnostic :=
  memberDiagnostic c.graph m category .illegalPlacement fun _ => c.propertySubject m ++ predicate

/-- A property `m` whose accessors are both replaced by the alias `callee`, or the report that it
cannot have one. -/
def aliasedProperty (c : MemberContext) (m : MemberSymbol) (callee : String) :
    Except Diagnostic PropertySemantics :=
  if m.isIndexer then
    .error (c.propertyProblem m "IndexerCannotHaveScriptAlias" " cannot have a [ScriptAlias].")
  else if !m.isStatic then
    .error (c.propertyProblem m "InstancePropertyCannotHaveScriptAlias"
      " cannot have a [ScriptAlias] because it is an instance member.")
  else
    .ok (.getAndSet ((m.accessor? .getter).map fun _ => .inlineCode callee)
      ((m.accessor? .setter).map fun _ => .inlineCode callee))

/-- The category of the report that a property of the given role cannot be intrinsic. -/
def intrinsicCategory : HierarchyRole → String
  | .interfaceMember => "InterfacePropertyCannotBeIntrinsic"
  | .override => "OverridingPropertyCannotBeIntrinsic"
  | .overridable => "OverridablePropertyCannotBeIntrinsic"
  | .implementation => "ImplementingPropertyCannotBeIntrinsic"

/-- The role of a property as a reason. -/
def intrinsicReason : HierarchyRole → String
  | .interfaceMember => "it is an interface member"
  | .override => "it overrides a base member"
  | .overridable => "it is overridable"
  | .implementation => "it implements an interface member"

/-- A property `m` that the script language itself provides for, with the name that it takes up, or
the report that it cannot be one. -/
def intrinsicProperty (c : MemberContext) (m : MemberSymbol) (preferred : Option String) :
    Except Diagnostic (PropertySemantics × Option String) :=
  match hierarchyRole? c.type m with
  | some role =>
    .error (c.propertyProblem m (intrinsicCategory role)
      (" cannot have an [IntrinsicProperty] because " ++ intrinsicReason role ++ "."))
  | none =>
    if !m.isIndexer then
      let name := preferred.getD (camelCase m.name)
      .ok (.field name, some name)
    else if m.parameters.length = 1 then
      .ok (.nativeIndexer (m.accessor? .getter).isSome (m.accessor? .setter).isSome, none)
    else
      .error (c.propertyProblem m "NativeIndexerArgument"
        " must have exactly one parameter to have an [IntrinsicProperty].")

/-- A property `m` that is used through its accessor methods. -/
def accessedProperty (c : MemberContext) (m : MemberSymbol) (preferred : PreferredName)
    (names : NameRegistry) : Resolve (PropertySemantics × NameRegistry) := do
  let (getter, names) ← c.resolveAccessor? m .getter preferred names
  let (setter, names) ← c.resolveAccessor? m .setter preferred names
  return (.getAndSet getter setter, names)

/-- What `IntrinsicProperty` makes of a property; without it, or where it is misplaced, the property
is used through its accessor methods. -/
def unaliasedProperty (c : MemberContext) (m : MemberSymbol) (preferred : PreferredName)
    (names : NameRegistry) : Resolve (PropertySemantics × NameRegistry) :=
  if m.has .intrinsicProperty then
    match c.intrinsicProperty m preferred.name with
    | .ok (semantics, name) => return (semantics, name.elim names (names.add · m.id))
    | .error d => do
      report [d]
      c.accessedProperty m preferred names
  else c.accessedProperty m preferred names

/-- The semantics of a property `m` that has a place in script. -/
def classifyProperty (c : MemberContext) (m : MemberSymbol) (preferred : PreferredName)
    (names : NameRegistry) : Resolve (PropertySemantics × NameRegistry) :=
  match (m.markerText? .scriptAlias).map fun callee => c.aliasedProperty m (callee.getD "") with
  | some (.ok semantics) => return (semantics, names)
  | some (.error d) => do
    report [d]
    c.unaliasedProperty m preferred names
  | none => c.unaliasedProperty m preferred names

/-! ## Members of all kinds -/

/-- Resolves `m`, which is no method of its own. Only the markers of `m` can leave it out here, as
`c.type` is known to be usable. -/
def resolveDataMember (c : MemberContext) (m : MemberSymbol) (preferred : PreferredName)
    (names : NameRegistry) : Resolve NameRegistry :=
  if m.has .nonScriptable then do
    markNotUsable m
    return names
  else match m.kind with
    | .method _ => return names
    | .property _ => do
      let (semantics, names) ← c.classifyProperty m preferred names
      recordProperty m.id semantics
      return names
    | .field => do
      let (name, names) ← nameMember c.type m preferred names
      recordField m.id (.field name)
      return names
    | .event _ => do
      let (adder, names) ← c.resolveAccessor? m .adder preferred names
      let (remover, names) ← c.resolveAccessor? m .remover preferred names
      recordEvent m.id (.addAndRemove adder remover)
      return names

/-- Resolves the member `m` with its `preferred` name. -/
def resolveMember (c : MemberContext) (m : MemberSymbol) (preferred : PreferredName)
    (names : NameRegistry) : Resolve NameRegistry :=
  if m.isMethod then do
    let (_, names) ← resolveMethod c.graph c.semanticsOf c.type c.resolved m preferred names
    return names
  else c.resolveDataMember m preferred names

end MemberContext

end ScriptNaming
