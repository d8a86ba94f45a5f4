import ScriptNaming.Document
import ScriptNaming.Json.Value

/-!
# Writing graph documents

The JSON value of a document states every field, also those that have their usual value; an
optional value that is missing is `null`. The modifier flags stand among the fields of their
member.
-/

namespace ScriptNaming

/-- The JSON value of `value`, by means of `write` where there is one. -/
def Json.ofOption {α : Type} (write : α → Json) (value : Option α) : Json :=
  value.elim .null write

/-- The JSON value of `values`, each of them by means of `write`. -/
def Json.ofList {α : Type} (write : α → Json) (values : List α) : Json :=
  .arr (values.map write)

/-- The JSON value of an argument. -/
def AttributeValue.toJson : AttributeValue → Json
  | .null => .null
  | .bool value => .bool value
  | .int value => .int value.toInt
  | .str value => .str value

/-- The JSON value of an attribute. -/
def Attribute.toJson (a : Attribute) : Json :=
  .obj [("name", .str a.name), ("args", .ofList AttributeValue.toJson a.args)]

/-- The JSON value of a parameter. -/
def Parameter.toJson (p : Parameter) : Json :=
  .obj [("name", .str p.name), ("type", .str p.typeName)]

/-- The JSON value of an accessibility. -/
def Accessibility.toJson (a : Accessibility) : Json := .str a.tag

/-- The JSON value of a kind of type. -/
def TypeKind.toJson (k : TypeKind) : Json := .str k.tag

/-- The JSON value of a member reference. -/
def MemberReference.toJson (r : MemberReference) : Json :=
  .obj [
    ("type", .str r.typeName),
    ("name", .str r.name),
    ("parameters", .ofOption (.ofList .str) r.parameters)]

/-- The fields of the modifier flags. -/
def ModifierFlags.members (f : ModifierFlags) : List (String × Json) :=
  [("isStatic", .bool f.isStatic), ("isVirtual", .bool f.isVirtual),
   ("isAbstract", .bool f.isAbstract), ("isSealed", .bool f.isSealed)]

/-- The JSON value of a method. -/
def MethodEntry.toJson (m : MethodEntry) : Json :=
  .obj ([
    ("name", .str m.name),
    ("accessibility", m.accessibility.toJson)] ++ m.flags.members ++ [
    ("parameters", .ofList Parameter.toJson m.parameters),
    ("typeParameters", .ofList .str m.typeParameters),
    ("overrides", .ofOption MemberReference.toJson m.overrides),
    ("implements", .ofList MemberReference.toJson m.implements),
    ("attributes", .ofList Attribute.toJson m.attributes)])

/-- The JSON value of a property. -/
def PropertyEntry.toJson (p : PropertyEntry) : Json :=
  .obj ([
    ("name", .str p.name),
    ("type", .str p.typeName),
    ("accessibility", p.accessibility.toJson)] ++ p.flags.members ++ [
    ("parameters", .ofList Parameter.toJson p.parameters),
    ("hasGetter", .bool p.hasGetter),
    ("hasSetter", .bool p.hasSetter),
    ("getterAccessibility", .ofOption Accessibility.toJson p.getterAccessibility),
    ("setterAccessibility", .ofOption Accessibility.toJson p.setterAccessibility),
    ("getterAttributes", .ofList Attribute.toJson p.getterAttributes),
    ("setterAttributes", .ofList Attribute.toJson p.setterAttributes),
    ("overrides", .ofOption MemberReference.toJson p.overrides),
    ("implements", .ofList MemberReference.toJson p.implements),
    ("attributes", .ofList Attribute.toJson p.attributes)])

/-- The JSON value of a field. -/
def FieldEntry.toJson (f : FieldEntry) : Json :=
  .obj [
    ("name", .str f.name),
    ("accessibility", f.accessibility.toJson),
    ("isStatic", .bool f.isStatic),
    ("attributes", .ofList Attribute.toJson f.attributes)]

/-- The JSON value of an event. -/
def EventEntry.toJson (e : EventEntry) : Json :=
  .obj ([
    ("name", .str e.name),
    ("type", .str e.typeName),
    ("accessibility", e.accessibility.toJson)] ++ e.flags.members ++ [
    ("adderAttributes", .ofList Attribute.toJson e.adderAttributes),
    ("removerAttributes", .ofList Attribute.toJson e.removerAttributes),
    ("overrides", .ofOption MemberReference.toJson e.overrides),
    ("implements", .ofList MemberReference.toJson e.implements),
    ("attributes", .ofList Attribute.toJson e.attributes)])

/-- The JSON value of a type. -/
def TypeEntry.toJson (t : TypeEntry) : Json :=
  .obj [
    ("name", .str t.name),
    ("namespace", .str t.space),
    ("assembly", .str t.assembly),
    ("kind", t.kind.toJson),
    ("accessibility", t.accessibility.toJson),
    ("isStatic", .bool t.isStatic),
    ("typeParameters", .ofList .str t.typeParameters),
    ("declaringType", .ofOption .str t.declaringType),
    ("baseTypes", .ofList .str t.baseTypes),
    ("attributes", .ofList Attribute.toJson t.attributes),
    ("methods", .ofList MethodEntry.toJson t.methods),
    ("properties", .ofList PropertyEntry.toJson t.properties),
    ("fields", .ofList FieldEntry.toJson t.fields),
    ("events", .ofList EventEntry.toJson t.events)]

/-- The JSON value of a document. -/
def GraphDocument.toJson (d : GraphDocument) : Json :=
  .obj [
    ("assemblies", .ofList .str d.assemblies),
    ("types", .ofList TypeEntry.toJson d.types)]

end ScriptNaming
