import ScriptNaming.Document
import ScriptNaming.Graph.Declaration
import ScriptNaming.Json.Reader
import ScriptNaming.Json.Record

/-!
# Reading graph documents

`GraphDocument.ofJson?` reads the JSON value of a document, and `GraphDocument.ofText?` a text.
Names and assemblies must be stated; everything else has a usual value. Methods, properties and
events are open records, because their modifier flags stand among their fields.
-/

namespace ScriptNaming

open Json (string? bool? list? named? fields? openFields? required? orElse? orEmpty? optional?)

/-- Reads an argument: `null`, a truth value, a whole number of 64 bits or a string. -/
def AttributeValue.ofJson? : Json → Option AttributeValue
  | .null => some .null
  | .bool value => some (.bool value)
  | .int value =>
    if Int64.minValue.toInt ≤ value ∧ value ≤ Int64.maxValue.toInt then some (.int (.ofInt value))
    else none
  | .str value => some (.str value)
  | _ => none

/-- Reads an attribute. -/
def Attribute.ofJson? (value : Json) : Option Attribute := do
  let field ← fields? ["name", "args"] value
  return {
    name := ← required? string? (field "name")
    args := ← orEmpty? AttributeValue.ofJson? (field "args") }

/-- Reads a parameter. -/
def Parameter.ofJson? (value : Json) : Option Parameter := do
  let field ← fields? ["name", "type"] value
  return {
    name := ← required? string? (field "name")
    typeName := ← required? string? (field "type") }

/-- Reads an accessibility. -/
def Accessibility.ofJson? : Json → Option Accessibility := named? names

/-- Reads a kind of type. -/
def TypeKind.ofJson? : Json → Option TypeKind := named? names

/-- Reads a member reference. -/
def MemberReference.ofJson? (value : Json) : Option MemberReference := do
  let field ← fields? ["type", "name", "parameters"] value
  return {
    typeName := ← required? string? (field "type")
    name := ← required? string? (field "name")
    parameters := ← optional? (list? string?) (field "parameters") }

/-- The names of the modifier flags. -/
def ModifierFlags.fieldNames : List String := ["isStatic", "isVirtual", "isAbstract", "isSealed"]

/-- Reads the modifier flags among the fields of a member, of which `field` gives one by its
name. -/
def ModifierFlags.ofFields? (field : Json.Fields) : Option ModifierFlags := do
  return {
    isStatic := ← orElse? bool? false (field "isStatic")
    isVirtual := ← orElse? bool? false (field "isVirtual")
    isAbstract := ← orElse? bool? false (field "isAbstract")
    isSealed := ← orElse? bool? false (field "isSealed") }

/-- How deep the unknown members of an open record may be: a text may have 127 levels, and the
open records of a document stand within five. -/
def openRecordLevels : Nat := 122

/-- Reads a method. -/
def MethodEntry.ofJson? (value : Json) : Option MethodEntry := do
  let field ← openFields? (["name", "accessibility", "parameters", "typeParameters", "overrides",
    "implements", "attributes"] ++ ModifierFlags.fieldNames) openRecordLevels value
  return {
    name := ← required? string? (field "name")
    accessibility := ← orElse? Accessibility.ofJson? .public (field "accessibility")
    flags := ← ModifierFlags.ofFields? field
    parameters := ← orEmpty? Parameter.ofJson? (field "parameters")
    typeParameters := ← orEmpty? string? (field "typeParameters")
    overrides := ← optional? MemberReference.ofJson? (field "overrides")
    implements := ← orEmpty? MemberReference.ofJson? (field "implements")
    attributes := ← orEmpty? Attribute.ofJson? (field "attributes") }

/-- Reads a property. -/
def PropertyEntry.ofJson? (value : Json) : Option PropertyEntry := do
  let field ← openFields? (["name", "type", "accessibility", "parameters", "hasGetter",
    "hasSetter", "getterAccessibility", "setterAccessibility", "getterAttributes",
    "setterAttributes", "overrides", "implements", "attributes"] ++ ModifierFlags.fieldNames)
    openRecordLevels value
  return {
    name := ← required? string? (field "name")
    typeName := ← orElse? string? defaultMemberType (field "type")
    accessibility := ← orElse? Accessibility.ofJson? .public (field "accessibility")
    flags := ← ModifierFlags.ofFields? field
    parameters := ← orEmpty? Parameter.ofJson? (field "parameters")
    hasGetter := ← orElse? bool? true (field "hasGetter")
    hasSetter := ← orElse? bool? true (field "hasSetter")
    getterAccessibility := ← optional? Accessibility.ofJson? (field "getterAccessibility")
    setterAccessibility := ← optional? Accessibility.ofJson? (field "setterAccessibility")
    getterAttributes := ← orEmpty? Attribute.ofJson? (field "getterAttributes")
    setterAttributes := ← orEmpty? Attribute.ofJson? (field "setterAttributes")
    overrides := ← optional? MemberReference.ofJson? (field "overrides")
    implements := ← orEmpty? MemberReference.ofJson? (field "implements")
    attributes := ← orEmpty? Attribute.ofJson? (field "attributes") }

/-- Reads a field. -/
def FieldEntry.ofJson? (value : Json) : Option FieldEntry := do
  let field ← fields? ["name", "accessibility", "isStatic", "attributes"] value
  return {
    name := ← required? string? (field "name")
    accessibility := ← orElse? Accessibility.ofJson? .public (field "accessibility")
    isStatic := ← orElse? bool? false (field "isStatic")
    attributes := ← orEmpty? Attribute.ofJson? (field "attributes") }

/-- Reads an event. -/
def EventEntry.ofJson? (value : Json) : Option EventEntry := do
  let field ← openFields? (["name", "type", "accessibility", "adderAttributes",
    "removerAttributes", "overrides", "implements", "attributes"] ++ ModifierFlags.fieldNames)
    openRecordLevels value
  return {
    name := ← required? string? (field "name")
    typeName := ← orElse? string? defaultMemberType (field "type")
    accessibility := ← orElse? Accessibility.ofJson? .public (field "accessibility")
    flags := ← ModifierFlags.ofFields? field
    adderAttributes := ← orEmpty? Attribute.ofJson? (field "adderAttributes")
    removerAttributes := ← orEmpty? Attribute.ofJson? (field "removerAttributes")
    overrides := ← optional? MemberReference.ofJson? (field "overrides")
    implements := ← orEmpty? MemberReference.ofJson? (field "implements")
    attributes := ← orEmpty? Attribute.ofJson? (field "attributes") }

/-- Reads a type. -/
def TypeEntry.ofJson? (value : Json) : Option TypeEntry := do
  let field ← fields? ["name", "namespace", "assembly", "kind", "accessibility", "isStatic",
    "typeParameters", "declaringType", "baseTypes", "attributes", "methods", "properties",
    "fields", "events"] value
  return {
    name := ← required? string? (field "name")
    space := ← orElse? string? "" (field "namespace")
    assembly := ← required? string? (field "assembly")
    kind := ← orElse? TypeKind.ofJson? .class (field "kind")
    accessibility := ← orElse? Accessibility.ofJson? .public (field "accessibility")
    isStatic := ← orElse? bool? false (field "isStatic")
    typeParameters := ← orEmpty? string? (field "typeParameters")
    declaringType := ← optional? string? (field "declaringType")
    baseTypes := ← orEmpty? string? (field "baseTypes")
    attributes := ← orEmpty? Attribute.ofJson? (field "attributes")
    methods := ← orEmpty? MethodEntry.ofJson? (field "methods")
    properties := ← orEmpty? PropertyEntry.ofJson? (field "properties")
    fields := ← orEmpty? FieldEntry.ofJson? (field "fields")
    events := ← orEmpty? EventEntry.ofJson? (field "events") }

/-- Reads a document. -/
def GraphDocument.ofJson? (value : Json) : Option GraphDocument := do
  let field ← fields? ["assemblies", "types"] value
  return {
    assemblies := ← orEmpty? string? (field "assemblies")
    types := ← orEmpty? TypeEntry.ofJson? (field "types") }

/-- Reads the text of a document. -/
def GraphDocument.ofText? (text : String) : Option GraphDocument :=
  (Json.ofText? text).bind GraphDocument.ofJson?

end ScriptNaming
