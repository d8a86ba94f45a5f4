import ScriptNaming.Graph.Symbol

/-!
# Type graphs

A `TypeGraph` holds all assemblies, types and members that a resolution looks at, each at the
position of its number. This module has the lookups; `ScriptNaming.Graph.Hierarchy` has what
follows from nesting and inheritance, and `ScriptNaming.Graph.Declaration` puts graphs together.
-/

namespace ScriptNaming

/-- Assemblies, types and members, each at the position of its number. -/
structure TypeGraph where
  assemblies : Array String
  types : Array TypeSymbol
  members : Array MemberSymbol
  deriving DecidableEq, Repr

namespace TypeGraph

/-- The graph without types. -/
def empty : TypeGraph := ⟨#[], #[], #[]⟩

instance : EmptyCollection TypeGraph := ⟨empty⟩

instance : Inhabited TypeGraph := ⟨empty⟩

/-! ## Lookup by number -/

/-- The type with the number `t`. -/
def type? (g : TypeGraph) (t : TypeId) : Option TypeSymbol := g.types[t.index]?

/-- The member with the number `m`. -/
def member? (g : TypeGraph) (m : MemberId) : Option MemberSymbol := g.members[m.index]?

/-- The type with the number `t`, which the caller knows to be in `g`. -/
def typeOrFault (g : TypeGraph) (t : TypeId) : Except Fault TypeSymbol :=
  elementOrFault g.types t.index

/-- The member with the number `m`, which the caller knows to be in `g`. -/
def memberOrFault (g : TypeGraph) (m : MemberId) : Except Fault MemberSymbol :=
  elementOrFault g.members m.index

/-- The name of the assembly `a`, which the caller knows to be in `g`. -/
def assemblyOrFault (g : TypeGraph) (a : AssemblyId) : Except Fault String :=
  elementOrFault g.assemblies a.index

/-- All types in the order of their numbers. -/
def typeIds (g : TypeGraph) : List TypeId := (List.range g.types.size).map TypeId.mk

theorem typeOrFault_eq_ok_iff {g : TypeGraph} {t : TypeId} {ty : TypeSymbol} :
    g.typeOrFault t = .ok ty ↔ g.type? t = some ty :=
  elementOrFault_eq_ok_iff

theorem memberOrFault_eq_ok_iff {g : TypeGraph} {m : MemberId} {member : MemberSymbol} :
    g.memberOrFault m = .ok member ↔ g.member? m = some member :=
  elementOrFault_eq_ok_iff

/-! ## Lookup by name -/

/-- The assembly called `name`. -/
def assemblyNamed? (g : TypeGraph) (name : String) : Option AssemblyId :=
  (g.assemblies.toList.findIdx? (· == name)).map AssemblyId.mk

/-- The type with the full name `fullName`: of several, the one declared last. -/
def typeNamed? (g : TypeGraph) (fullName : String) : Option TypeId :=
  (g.types.toList.reverse.find? (·.fullName == fullName)).map TypeSymbol.id

/-! ## The members of a type -/

/-- The own members of `ty` in the order of declaration. -/
def membersOf (g : TypeGraph) (ty : TypeSymbol) : List MemberSymbol :=
  ty.members.filterMap g.member?

/-- The first own member of `ty` called `name`. -/
def memberNamed? (g : TypeGraph) (ty : TypeSymbol) (name : String) : Option MemberSymbol :=
  (g.membersOf ty).find? (·.name == name)

/-- The own methods of `ty` called `name`, in the order of declaration. -/
def methodsNamed (g : TypeGraph) (ty : TypeSymbol) (name : String) : List MemberSymbol :=
  (g.membersOf ty).filter fun m => m.isMethod && m.name == name

/-- Whether `ty` declares a property, a field or an event. -/
def declaresData (g : TypeGraph) (ty : TypeSymbol) : Bool :=
  (g.membersOf ty).any (!·.isMethod)

/-! ## Names of members in messages and reports -/

/-- The full name of the type that declares `m`. -/
def ownerName (g : TypeGraph) (m : MemberSymbol) : String :=
  ((g.type? m.declaringType).map TypeSymbol.fullName).getD ""

/-- The name of `m` after the full name of its type. -/
def qualifiedName (g : TypeGraph) (m : MemberSymbol) : String :=
  g.ownerName m ++ "." ++ m.name

/-- The name of `m` in reports: methods show their parameter types in parentheses, indexers in
brackets. -/
def memberKey (g : TypeGraph) (m : MemberSymbol) : String :=
  if m.isMethod then g.qualifiedName m ++ "(" ++ m.parameterTypeList ++ ")"
  else if m.isIndexer then g.qualifiedName m ++ "[" ++ m.parameterTypeList ++ "]"
  else g.qualifiedName m

end TypeGraph

end ScriptNaming
