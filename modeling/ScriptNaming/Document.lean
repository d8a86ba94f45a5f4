import ScriptNaming.Graph.Symbol

/-!
# Graph documents

A graph document describes a type graph by names instead of numbers: types refer to each other by
full name, and members to what they override or implement by `MemberReference`. The entries are
in the order in which the graph is to be put together, and refer only to earlier ones.

`ScriptNaming.Document.Writing` and `ScriptNaming.Document.Reading` relate documents to JSON
values, and `ScriptNaming.Document.Linking` turns them into graphs.
-/

namespace ScriptNaming

/-- A reference to a member by the full name of its type and its own name, and by the names of its
parameter types where they are needed to tell it from others. -/
structure MemberReference where
  typeName : String
  name : String
  parameters : Option (List String)
  deriving DecidableEq, Repr

/-- The modifiers that a document states; that a member is an override follows from its links. -/
structure ModifierFlags where
  isStatic : Bool
  isVirtual : Bool
  isAbstract : Bool
  isSealed : Bool
  deriving DecidableEq, Repr

/-- A method in a document. -/
structure MethodEntry where
  name : String
  accessibility : Accessibility
  flags : ModifierFlags
  parameters : List Parameter
  typeParameters : List String
  overrides : Option MemberReference
  implements : List MemberReference
  attributes : List Attribute
  deriving DecidableEq, Repr

/-- A property or an indexer in a document. -/
structure PropertyEntry where
  name : String
  typeName : String
  accessibility : Accessibility
  flags : ModifierFlags
  /-- The parameters of an indexer. -/
  parameters : List Parameter
  hasGetter : Bool
  hasSetter : Bool
  getterAccessibility : Option Accessibility
  setterAccessibility : Option Accessibility
  getterAttributes : List Attribute
  setterAttributes : List Attribute
  overrides : Option MemberReference
  implements : List MemberReference
  attributes : List Attribute
  deriving DecidableEq, Repr

/-- A field in a document. -/
structure FieldEntry where
  name : String
  accessibility : Accessibility
  isStatic : Bool
  attributes : List Attribute
  deriving DecidableEq, Repr

/-- An event in a document. -/
structure EventEntry where
  name : String
  typeName : String
  accessibility : Accessibility
  flags : ModifierFlags
  adderAttributes : List Attribute
  removerAttributes : List Attribute
  overrides : Option MemberReference
  implements : List MemberReference
  attributes : List Attribute
  deriving DecidableEq, Repr

/-- A type in a document. -/
structure TypeEntry where
  name : String
  /-- The namespace. -/
  space : String
  assembly : String
  kind : TypeKind
  accessibility : Accessibility
  isStatic : Bool
  /-- The type's own type parameters. -/
  typeParameters : List String
  /-- The full name of the type around it. -/
  declaringType : Option String
  /-- The full names of the base class and the implemented interfaces. -/
  baseTypes : List String
  attributes : List Attribute
  methods : List MethodEntry
  properties : List PropertyEntry
  fields : List FieldEntry
  events : List EventEntry
  deriving DecidableEq, Repr

/-- A whole document. Assemblies that only types name need not be listed. -/
structure GraphDocument where
  assemblies : List String
  types : List TypeEntry
  deriving DecidableEq, Repr

/-! ## Names of kinds and accessibilities -/

/-- The accessibilities with their names in documents. -/
def Accessibility.names : List (String × Accessibility) :=
  [("public", .public), ("protected", .protected), ("protectedOrInternal", .protectedOrInternal),
   ("internal", .internal), ("protectedAndInternal", .protectedAndInternal),
   ("private", .private)]

/-- The name of an accessibility in documents. -/
def Accessibility.tag : Accessibility → String
  | .public => "public"
  | .protected => "protected"
  | .protectedOrInternal => "protectedOrInternal"
  | .internal => "internal"
  | .protectedAndInternal => "protectedAndInternal"
  | .private => "private"

/-- The kinds of types with their names in documents. -/
def TypeKind.names : List (String × TypeKind) :=
  [("class", .class), ("struct", .struct), ("interface", .interface), ("enum", .enum),
   ("delegate", .delegate)]

/-- The name of a kind of type in documents. -/
def TypeKind.tag : TypeKind → String
  | .class => "class"
  | .struct => "struct"
  | .interface => "interface"
  | .enum => "enum"
  | .delegate => "delegate"

theorem Accessibility.lookup_tag (a : Accessibility) : names.lookup a.tag = some a := by
  cases a <;> rfl

theorem TypeKind.lookup_tag (k : TypeKind) : names.lookup k.tag = some k := by
  cases k <;> rfl

end ScriptNaming
