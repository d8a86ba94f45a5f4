import ScriptNaming.Attribute
import ScriptNaming.Fault

/-!
# Types and members of a source program

A type graph numbers its assemblies, types and members. `TypeSymbol` and `MemberSymbol` hold what
is declared about one type and one member; references between them are numbers.
-/

namespace ScriptNaming

/-! ## References -/

/-- The number of an assembly, that is, of a compilation unit. -/
structure AssemblyId where
  index : Nat
  deriving DecidableEq, Repr

/-- The number of a type. -/
structure TypeId where
  index : Nat
  deriving DecidableEq, Repr

/-- The number of a member, accessors included. -/
structure MemberId where
  index : Nat
  deriving DecidableEq, Repr

/-- A reference to a type as it is shown. -/
def TypeId.text (t : TypeId) : String := "type#" ++ toString t.index

/-- A reference to a member as it is shown. -/
def MemberId.text (m : MemberId) : String := "member#" ++ toString m.index

/-! ## Declared properties -/

/-- The declared accessibility of a type or a member. -/
inductive Accessibility where
  | «public»
  | «protected»
  | protectedOrInternal
  | internal
  | protectedAndInternal
  | «private»
  deriving DecidableEq, Repr

/-- Whether code of another assembly sees the entity, provided it sees what the entity is declared
in. -/
def Accessibility.isExternallyVisible : Accessibility → Bool
  | .public | .protected | .protectedOrInternal => true
  | .internal | .protectedAndInternal | .private => false

/-- The kinds of types. -/
inductive TypeKind where
  | «class»
  | struct
  | interface
  | enum
  | delegate
  deriving DecidableEq, Repr

/-- The member modifiers that bear on naming. -/
structure Modifiers where
  isStatic : Bool := false
  isOverride : Bool := false
  isVirtual : Bool := false
  isAbstract : Bool := false
  isSealed : Bool := false
  deriving DecidableEq, Repr

/-- A parameter of a method or an indexer, with the full name of its type. -/
structure Parameter where
  name : String
  typeName : String
  deriving DecidableEq, Repr

/-! ## Types -/

/-- A declared type. -/
structure TypeSymbol where
  id : TypeId
  /-- The source identifier. -/
  name : String
  /-- The source namespace, for a nested type that of its outermost type. -/
  space : String
  /-- The source name with namespace and enclosing types, joined by dots. -/
  fullName : String
  kind : TypeKind
  accessibility : Accessibility
  isStatic : Bool
  assembly : AssemblyId
  /-- The type parameters, those of the declaring type first. -/
  typeParameters : List String
  declaringType : Option TypeId
  /-- The base class and the implemented interfaces. -/
  baseTypes : List TypeId
  /-- The own members in the order of declaration, without accessors. -/
  members : List MemberId
  attributes : List Attribute
  deriving DecidableEq, Repr

namespace TypeSymbol

/-- Whether `ty` is an interface. -/
def isInterface (ty : TypeSymbol) : Bool := ty.kind == .interface

/-- Whether the marker `m` is attached to `ty`. -/
def has (ty : TypeSymbol) (m : Marker) : Bool := Attribute.has ty.attributes m

/-- The text of a marker's first argument, as for `Attribute.text?`. -/
def markerText? (ty : TypeSymbol) (m : Marker) : Option (Option String) :=
  Attribute.text? ty.attributes m

end TypeSymbol

/-! ## Members -/

/-- The four places for accessors: two of a property, two of an event. -/
inductive AccessorSlot where
  | getter
  | setter
  | adder
  | remover
  deriving DecidableEq, Repr

/-- What an accessor's name puts before the name of its property or event. -/
def AccessorSlot.stem : AccessorSlot → String
  | .getter => "get_"
  | .setter => "set_"
  | .adder => "add_"
  | .remover => "remove_"

/-- What is declared of a method besides what all members have. -/
structure MethodData where
  parameters : List Parameter
  typeParameters : List String
  /-- The property or event that the method is an accessor of. -/
  accessorOf : Option MemberId
  deriving DecidableEq, Repr

/-- What is declared of a property. An indexer is a property with parameters. -/
structure PropertyData where
  parameters : List Parameter
  getter : Option MemberId
  setter : Option MemberId
  deriving DecidableEq, Repr

/-- What is declared of an event. -/
structure EventData where
  adder : Option MemberId
  remover : Option MemberId
  deriving DecidableEq, Repr

/-- The kinds of members, each with its own data. -/
inductive MemberKind where
  | method (data : MethodData)
  | property (data : PropertyData)
  | field
  | event (data : EventData)
  deriving DecidableEq, Repr

/-- A member of a type. -/
structure MemberSymbol where
  id : MemberId
  name : String
  declaringType : TypeId
  accessibility : Accessibility
  modifiers : Modifiers
  /-- The member of a base class that this member overrides. -/
  overridden : Option MemberId
  /-- The interface members that this member implements. -/
  implements : List MemberId
  attributes : List Attribute
  kind : MemberKind
  deriving DecidableEq, Repr

namespace MemberSymbol

/-- Whether `marker` is attached to `m`. -/
def has (m : MemberSymbol) (marker : Marker) : Bool := Attribute.has m.attributes marker

/-- The text of a marker's first argument, as for `Attribute.text?`. -/
def markerText? (m : MemberSymbol) (marker : Marker) : Option (Option String) :=
  Attribute.text? m.attributes marker

/-- Whether the member is static. -/
def isStatic (m : MemberSymbol) : Bool := m.modifiers.isStatic

/-- Whether the member is declared as an override. -/
def isOverride (m : MemberSymbol) : Bool := m.modifiers.isOverride

/-- Whether a derived type may override `m`: it is virtual, abstract or an override, and not
sealed. -/
def isOverridable (m : MemberSymbol) : Bool :=
  (m.modifiers.isVirtual || m.modifiers.isAbstract || m.modifiers.isOverride)
    && !m.modifiers.isSealed

/-- Whether the member is a method. -/
def isMethod (m : MemberSymbol) : Bool :=
  match m.kind with
  | .method _ => true
  | _ => false

/-- The parameters of a method or an indexer; other members have none. -/
def parameters (m : MemberSymbol) : List Parameter :=
  match m.kind with
  | .method data => data.parameters
  | .property data => data.parameters
  | .field | .event _ => []

/-- Whether the member is an indexer. -/
def isIndexer (m : MemberSymbol) : Bool :=
  match m.kind with
  | .property data => !data.parameters.isEmpty
  | _ => false

/-- The type parameters of a method; other members have none. -/
def typeParameters (m : MemberSymbol) : List String :=
  match m.kind with
  | .method data => data.typeParameters
  | _ => []

/-- The property or event that `m` is an accessor of. -/
def accessorOf (m : MemberSymbol) : Option MemberId :=
  match m.kind with
  | .method data => data.accessorOf
  | _ => none

/-- The accessor of the property or event `m` in `slot`. -/
def accessor? (m : MemberSymbol) (slot : AccessorSlot) : Option MemberId :=
  match m.kind, slot with
  | .property data, .getter => data.getter
  | .property data, .setter => data.setter
  | .event data, .adder => data.adder
  | .event data, .remover => data.remover
  | _, _ => none

/-- The accessors of the property or event `m`, in the order of their places. -/
def accessors (m : MemberSymbol) : List MemberId :=
  [AccessorSlot.getter, .setter, .adder, .remover].filterMap m.accessor?

/-- The kind of the member. -/
def entityKind (m : MemberSymbol) : EntityKind :=
  match m.kind with
  | .method _ => .method
  | .property _ => .property
  | .field => .field
  | .event _ => .event

/-- The place of the kind of `m` in the canonical order. -/
def kindRank (m : MemberSymbol) : Nat :=
  match m.kind with
  | .method _ => 0
  | .property _ => 1
  | .field => 2
  | .event _ => 3

/-- The full names of the parameter types, joined by commas. -/
def parameterTypeList (m : MemberSymbol) : String :=
  ",".intercalate (m.parameters.map Parameter.typeName)

end MemberSymbol

end ScriptNaming
