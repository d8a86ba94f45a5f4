import ScriptNaming.Document.Reading

/-!
# Linking graph documents

`GraphDocument.link` puts a graph together from a document, entry by entry in the order of the
document. A name refers to what has been declared so far: a type name to the latest type with that
full name, a member reference to the one own member of such a type that fits it. A name that refers
to nothing, and a member reference that several members fit, is a `LinkError`.
-/

namespace ScriptNaming

/-- Why a name in a document cannot be linked. -/
inductive LinkProblem where
  | unknownType (typeName : String)
  | noMember (reference : MemberReference)
  | ambiguousMember (reference : MemberReference)
  deriving DecidableEq, Repr

/-- Why a document does not describe a graph. -/
inductive DocumentError where
  /-- The text is not that of a document. -/
  | malformed
  /-- A name in the entry at `place` cannot be linked. -/
  | unlinked (place : String) (problem : LinkProblem)
  /-- A declaration came to a fault. -/
  | faulted (fault : Fault)
  deriving DecidableEq, Repr

/-- The wording of a problem. -/
def LinkProblem.message : LinkProblem → String
  | .unknownType typeName =>
    "unknown type '" ++ typeName ++ "' (types must be declared before use)"
  | .noMember reference =>
    "no member '" ++ reference.typeName ++ "." ++ reference.name ++ "' matches the reference"
  | .ambiguousMember reference =>
    "reference to '" ++ reference.typeName ++ "." ++ reference.name ++
      "' is ambiguous; list its parameter types"

/-- The wording of an error. -/
def DocumentError.message : DocumentError → String
  | .malformed => "failed to parse graph document"
  | .unlinked place problem => place ++ ": " ++ problem.message
  | .faulted fault => fault.message

/-! ## Places in a document -/

/-- How errors refer to the entry `t` of a type. -/
def TypeEntry.place (t : TypeEntry) : String :=
  if t.space = "" then "type '" ++ t.name ++ "'" else "type '" ++ t.space ++ "." ++ t.name ++ "'"

/-- How errors refer to the entry of a member called `name`, in the type that they refer to as
`typePlace`. -/
def memberPlace (kind : EntityKind) (name typePlace : String) : String :=
  kind.label ++ " '" ++ name ++ "' of " ++ typePlace

/-! ## References -/

/-- Whether `r` fits `m`, whatever type `m` belongs to: the names agree, and the parameter types do
where `r` states them. -/
def MemberReference.fits (r : MemberReference) (m : MemberSymbol) : Bool :=
  m.name == r.name && r.parameters.all (· == m.parameters.map Parameter.typeName)

/-- The own members of `ty` that `r` may mean. -/
def MemberReference.candidates (r : MemberReference) (g : TypeGraph) (kind : EntityKind)
    (ty : TypeSymbol) : List MemberSymbol :=
  (g.membersOf ty).filter fun m => m.entityKind == kind && r.fits m

/-- The type with a full name, looked up for the entry at `place`. -/
def linkType (g : TypeGraph) (place fullName : String) : Except DocumentError TypeId :=
  match g.typeNamed? fullName with
  | some t => .ok t
  | none => .error (.unlinked place (.unknownType fullName))

/-- The member that a reference means, looked up for the entry at `place`. -/
def linkMember (g : TypeGraph) (place : String) (kind : EntityKind) (r : MemberReference) :
    Except DocumentError MemberId := do
  let t ← linkType g place r.typeName
  let ty ← (g.typeOrFault t).mapError .faulted
  match r.candidates g kind ty with
  | [m] => .ok m.id
  | [] => .error (.unlinked place (.noMember r))
  | _ => .error (.unlinked place (.ambiguousMember r))

/-- The modifiers that the flags `f` stand for. Whether the member is an override follows from its
links, not from `f`. -/
def ModifierFlags.modifiers (f : ModifierFlags) (isOverride : Bool) : Modifiers where
  isStatic := f.isStatic
  isOverride := isOverride
  isVirtual := f.isVirtual
  isAbstract := f.isAbstract
  isSealed := f.isSealed

/-! ## Entries -/

/-- Declares the method `m` of a document in the type `t`. -/
def MethodEntry.link (m : MethodEntry) (typePlace : String) (t : TypeId) (g : TypeGraph) :
    Except DocumentError TypeGraph := do
  let place := memberPlace .method m.name typePlace
  let overrides ← m.overrides.mapM (linkMember g place .method)
  let implements ← m.implements.mapM (linkMember g place .method)
  let (g, _) ← (g.declareMethod t {
    name := m.name
    accessibility := m.accessibility
    modifiers := m.flags.modifiers overrides.isSome
    parameters := m.parameters
    typeParameters := m.typeParameters
    overrides := overrides
    implements := implements
    attributes := m.attributes }).mapError .faulted
  return g

/-- An accessor, if `isThere`. -/
def accessorDeclaration? (isThere : Bool) (accessibility : Option Accessibility)
    (attributes : List Attribute) : Option AccessorDeclaration :=
  if isThere then some ⟨accessibility, attributes⟩ else none

/-- Declares the property `p` of a document in the type `t`. -/
def PropertyEntry.link (p : PropertyEntry) (typePlace : String) (t : TypeId) (g : TypeGraph) :
    Except DocumentError TypeGraph := do
  let place := memberPlace .property p.name typePlace
  let overrides ← p.overrides.mapM (linkMember g place .property)
  let implements ← p.implements.mapM (linkMember g place .property)
  let (g, _) ← (g.declareProperty t {
    name := p.name
    typeName := p.typeName
    accessibility := p.accessibility
    modifiers := p.flags.modifiers overrides.isSome
    parameters := p.parameters
    getter := accessorDeclaration? p.hasGetter p.getterAccessibility p.getterAttributes
    setter := accessorDeclaration? p.hasSetter p.setterAccessibility p.setterAttributes
    overrides := overrides
    implements := implements
    attributes := p.attributes }).mapError .faulted
  return g

/-- Declares the field `f` of a document in the type `t`. -/
def FieldEntry.link (f : FieldEntry) (t : TypeId) (g : TypeGraph) :
    Except DocumentError TypeGraph := do
  let (g, _) ← (g.declareField t {
    name := f.name
    accessibility := f.accessibility
    modifiers := { isStatic := f.isStatic }
    attributes := f.attributes }).mapError .faulted
  return g

/-- Declares the event `e` of a document in the type `t`. -/
def EventEntry.link (e : EventEntry) (typePlace : String) (t : TypeId) (g : TypeGraph) :
    Except DocumentError TypeGraph := do
  let place := memberPlace .event e.name typePlace
  let overrides ← e.overrides.mapM (linkMember g place .event)
  let implements ← e.implements.mapM (linkMember g place .event)
  let (g, _) ← (g.declareEvent t {
    name := e.name
    typeName := e.typeName
    accessibility := e.accessibility
    modifiers := e.flags.modifiers overrides.isSome
    adder := ⟨none, e.adderAttributes⟩
    remover := ⟨none, e.removerAttributes⟩
    overrides := overrides
    implements := implements
    attributes := e.attributes }).mapError .faulted
  return g

/-- Declares the type `e` of a document with its members: methods, properties, fields and events,
each in their order. -/
def TypeEntry.link (e : TypeEntry) (g : TypeGraph) : Except DocumentError TypeGraph := do
  let (g, assembly) := g.declareAssembly e.assembly
  let declaringType ← e.declaringType.mapM (linkType g e.place)
  let baseTypes ← e.baseTypes.mapM (linkType g e.place)
  let (g, t) ← (g.declareType assembly {
    name := e.name
    space := e.space
    kind := e.kind
    accessibility := e.accessibility
    isStatic := e.isStatic
    typeParameters := e.typeParameters
    declaringType := declaringType
    baseTypes := baseTypes
    attributes := e.attributes }).mapError .faulted
  let g ← e.methods.foldlM (fun g m => m.link e.place t g) g
  let g ← e.properties.foldlM (fun g p => p.link e.place t g) g
  let g ← e.fields.foldlM (fun g f => f.link t g) g
  e.events.foldlM (fun g v => v.link e.place t g) g

/-- The graph that `d` describes. -/
def GraphDocument.link (d : GraphDocument) : Except DocumentError TypeGraph :=
  let g := d.assemblies.foldl (fun g name => (g.declareAssembly name).1) ∅
  d.types.foldlM (fun g e => e.link g) g

/-- The graph that the document with the text `text` describes. -/
def TypeGraph.ofText (text : String) : Except DocumentError TypeGraph :=
  match GraphDocument.ofText? text with
  | some d => d.link
  | none => .error .malformed

end ScriptNaming
