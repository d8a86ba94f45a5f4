import ScriptNaming.Graph

/-!
# Declaring types and members

A type graph grows by declarations. Each of them numbers what it declares and fills in what a
declaration leaves implicit:

* a nested type takes its namespace from the type around it, and that type's type parameters come
  before its own;
* members of interfaces are abstract;
* properties and events have accessor methods, with the modifiers of their owner, with links to
  the accessors in the same place of what the owner overrides and implements, and with the owner's
  accessibility unless they have one of their own.

References to base types and to other members are taken as they are; only where a declaration has
to look at the other end is a reference that leads out of the graph a fault.
-/

namespace ScriptNaming

/-- The type of properties and events that are declared without one. -/
def defaultMemberType : String := "System.Object"

/-! ## Declarations -/

/-- A type to be declared. -/
structure TypeDeclaration where
  name : String
  /-- The namespace; nested types do not use it. -/
  space : String := ""
  kind : TypeKind := .class
  accessibility : Accessibility := .public
  isStatic : Bool := false
  /-- The type's own type parameters. -/
  typeParameters : List String := []
  declaringType : Option TypeId := none
  baseTypes : List TypeId := []
  attributes : List Attribute := []

/-- A method to be declared. -/
structure MethodDeclaration where
  name : String
  accessibility : Accessibility := .public
  modifiers : Modifiers := {}
  parameters : List Parameter := []
  typeParameters : List String := []
  overrides : Option MemberId := none
  implements : List MemberId := []
  attributes : List Attribute := []

/-- What is declared of an accessor by itself. -/
structure AccessorDeclaration where
  /-- The accessibility, where it differs from the owner's. -/
  accessibility : Option Accessibility := none
  attributes : List Attribute := []

/-- A property or an indexer to be declared. -/
structure PropertyDeclaration where
  name : String
  typeName : String := defaultMemberType
  accessibility : Accessibility := .public
  modifiers : Modifiers := {}
  /-- The parameters of an indexer. -/
  parameters : List Parameter := []
  getter : Option AccessorDeclaration := some {}
  setter : Option AccessorDeclaration := some {}
  overrides : Option MemberId := none
  implements : List MemberId := []
  attributes : List Attribute := []

/-- A field to be declared. -/
structure FieldDeclaration where
  name : String
  accessibility : Accessibility := .public
  modifiers : Modifiers := {}
  attributes : List Attribute := []

/-- An event to be declared. -/
structure EventDeclaration where
  name : String
  typeName : String := defaultMemberType
  accessibility : Accessibility := .public
  modifiers : Modifiers := {}
  adder : AccessorDeclaration := {}
  remover : AccessorDeclaration := {}
  overrides : Option MemberId := none
  implements : List MemberId := []
  attributes : List Attribute := []

namespace TypeGraph

/-! ## Assemblies and types -/

/-- The assembly called `name`, declared now if it is new. -/
def declareAssembly (g : TypeGraph) (name : String) : TypeGraph × AssemblyId :=
  match g.assemblyNamed? name with
  | some a => (g, a)
  | none => ({ g with assemblies := g.assemblies.push name }, ⟨g.assemblies.size⟩)

/-- The type that `d` describes, with the number `id` and the type `outer` around it. -/
def typeOfDeclaration (id : TypeId) (assembly : AssemblyId) (outer : Option TypeSymbol)
    (d : TypeDeclaration) : TypeSymbol where
  id := id
  name := d.name
  space := outer.elim d.space TypeSymbol.space
  fullName :=
    match outer with
    | some outer => outer.fullName ++ "." ++ d.name
    | none => if d.space = "" then d.name else d.space ++ "." ++ d.name
  kind := d.kind
  accessibility := d.accessibility
  isStatic := d.isStatic
  assembly := assembly
  typeParameters := outer.elim [] TypeSymbol.typeParameters ++ d.typeParameters
  declaringType := d.declaringType
  baseTypes := d.baseTypes
  members := []
  attributes := d.attributes

/-- Declares the type that `d` describes in `assembly`. -/
def declareType (g : TypeGraph) (assembly : AssemblyId) (d : TypeDeclaration) :
    Except Fault (TypeGraph × TypeId) := do
  let id : TypeId := ⟨g.types.size⟩
  let outer ← d.declaringType.mapM g.typeOrFault
  return ({ g with types := g.types.push (typeOfDeclaration id assembly outer d) }, id)

/-! ## Members -/

/-- The modifiers of a member of `owner`: interface members are abstract. -/
def effectiveModifiers (owner : TypeSymbol) (modifiers : Modifiers) : Modifiers :=
  if owner.isInterface then { modifiers with isAbstract := true } else modifiers

/-- Appends `m` under the next number. -/
def appendMember (g : TypeGraph) (m : MemberSymbol) : TypeGraph × MemberId :=
  let id : MemberId := ⟨g.members.size⟩
  ({ g with members := g.members.push { m with id := id } }, id)

/-- Enters `m` as the last own member of `t`. -/
def listMember (g : TypeGraph) (t : TypeId) (m : MemberId) : TypeGraph :=
  { g with
    types := g.types.modify t.index fun ty => { ty with members := ty.members ++ [m] } }

/-- Makes `kind` the kind of `m`. -/
def setKind (g : TypeGraph) (m : MemberId) (kind : MemberKind) : TypeGraph :=
  { g with members := g.members.modify m.index fun member => { member with kind := kind } }

/-- Declares the method that `d` describes in the type `t`. -/
def declareMethod (g : TypeGraph) (t : TypeId) (d : MethodDeclaration) :
    Except Fault (TypeGraph × MemberId) := do
  let owner ← g.typeOrFault t
  let (g, id) := g.appendMember {
    id := ⟨0⟩
    name := d.name
    declaringType := t
    accessibility := d.accessibility
    modifiers := effectiveModifiers owner d.modifiers
    overridden := d.overrides
    implements := d.implements
    attributes := d.attributes
    kind := .method ⟨d.parameters, d.typeParameters, none⟩ }
  return (g.listMember t id, id)

/-- Declares the field that `d` describes in the type `t`. -/
def declareField (g : TypeGraph) (t : TypeId) (d : FieldDeclaration) :
    Except Fault (TypeGraph × MemberId) := do
  let _ ← g.typeOrFault t
  let (g, id) := g.appendMember {
    id := ⟨0⟩
    name := d.name
    declaringType := t
    accessibility := d.accessibility
    modifiers := d.modifiers
    overridden := none
    implements := []
    attributes := d.attributes
    kind := .field }
  return (g.listMember t id, id)

/-- Declares the accessor of `owner` in the given place. The parameters are those of the owner,
followed by the value that the accessor is passed, if it is passed one. -/
def declareAccessor (g : TypeGraph) (owner : MemberSymbol) (slot : AccessorSlot)
    (d : AccessorDeclaration) (value : Option Parameter) :
    Except Fault (TypeGraph × MemberId) := do
  let overridden ← owner.overridden.mapM g.memberOrFault
  let implemented ← owner.implements.mapM g.memberOrFault
  return g.appendMember {
    id := ⟨0⟩
    name := slot.stem ++ owner.name
    declaringType := owner.declaringType
    accessibility := d.accessibility.getD owner.accessibility
    modifiers := owner.modifiers
    overridden := overridden.bind (·.accessor? slot)
    implements := implemented.filterMap (·.accessor? slot)
    attributes := d.attributes
    kind := .method ⟨owner.parameters ++ value.toList, [], some owner.id⟩ }

/-- Declares the accessor of `owner` in `slot` that `d` describes, if there is one. -/
def declareAccessor? (g : TypeGraph) (owner : MemberSymbol) (slot : AccessorSlot)
    (d : Option AccessorDeclaration) (value : Option Parameter) :
    Except Fault (TypeGraph × Option MemberId) :=
  match d with
  | none => .ok (g, none)
  | some d => do
    let (g, id) ← g.declareAccessor owner slot d value
    return (g, some id)

/-- Declares the property that `d` describes in the type `t`, with its accessors, the getter
first. -/
def declareProperty (g : TypeGraph) (t : TypeId) (d : PropertyDeclaration) :
    Except Fault (TypeGraph × MemberId) := do
  let owner ← g.typeOrFault t
  let property : MemberSymbol := {
    id := ⟨g.members.size⟩
    name := d.name
    declaringType := t
    accessibility := d.accessibility
    modifiers := effectiveModifiers owner d.modifiers
    overridden := d.overrides
    implements := d.implements
    attributes := d.attributes
    kind := .property ⟨d.parameters, none, none⟩ }
  let (g, id) := g.appendMember property
  let g := g.listMember t id
  let (g, getter) ← g.declareAccessor? property .getter d.getter none
  let (g, setter) ← g.declareAccessor? property .setter d.setter (some ⟨"value", d.typeName⟩)
  return (g.setKind id (.property ⟨d.parameters, getter, setter⟩), id)

/-- Declares the event that `d` describes in the type `t`, with its accessors, the adder first. -/
def declareEvent (g : TypeGraph) (t : TypeId) (d : EventDeclaration) :
    Except Fault (TypeGraph × MemberId) := do
  let owner ← g.typeOrFault t
  let event : MemberSymbol := {
    id := ⟨g.members.size⟩
    name := d.name
    declaringType := t
    accessibility := d.accessibility
    modifiers := effectiveModifiers owner d.modifiers
    overridden := d.overrides
    implements := d.implements
    attributes := d.attributes
    kind := .event ⟨none, none⟩ }
  let (g, id) := g.appendMember event
  let g := g.listMember t id
  let handler : Parameter := ⟨"value", d.typeName⟩
  let (g, adder) ← g.declareAccessor event .adder d.adder (some handler)
  let (g, remover) ← g.declareAccessor event .remover d.remover (some handler)
  return (g.setKind id (.event ⟨some adder, some remover⟩), id)

end TypeGraph

end ScriptNaming
