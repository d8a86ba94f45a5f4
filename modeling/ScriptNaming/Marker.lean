/-!
# Markers

The declarative markers that a source program attaches to its types and members, and the
attribute names that denote them.
-/

namespace ScriptNaming

/-- The markers that bear on script names and calling conventions. -/
inductive Marker where
  | scriptSkip
  | scriptAlias
  | inlineCode
  | instanceMethodOnFirstArgument
  | nonScriptable
  | ignoreGenericArguments
  | ignoreNamespace
  | scriptNamespace
  | alternateSignature
  | scriptName
  | preserveName
  | preserveCase
  | intrinsicProperty
  | globalMethods
  | imported
  deriving DecidableEq, Repr

namespace Marker

/-- All markers in the order of their declaration. -/
def all : List Marker :=
  [scriptSkip, scriptAlias, inlineCode, instanceMethodOnFirstArgument, nonScriptable,
   ignoreGenericArguments, ignoreNamespace, scriptNamespace, alternateSignature, scriptName,
   preserveName, preserveCase, intrinsicProperty, globalMethods, imported]

/-- The short name of a marker. -/
def shortName : Marker → String
  | scriptSkip => "ScriptSkip"
  | scriptAlias => "ScriptAlias"
  | inlineCode => "InlineCode"
  | instanceMethodOnFirstArgument => "InstanceMethodOnFirstArgument"
  | nonScriptable => "NonScriptable"
  | ignoreGenericArguments => "IgnoreGenericArguments"
  | ignoreNamespace => "IgnoreNamespace"
  | scriptNamespace => "ScriptNamespace"
  | alternateSignature => "AlternateSignature"
  | scriptName => "ScriptName"
  | preserveName => "PreserveName"
  | preserveCase => "PreserveCase"
  | intrinsicProperty => "IntrinsicProperty"
  | globalMethods => "GlobalMethods"
  | imported => "Imported"

/-- The namespace in which attribute types for markers are declared. -/
def attributeNamespace : String := "System.Runtime.CompilerServices."

/-- The attribute names that denote a marker: its short name, with or without the ending
`Attribute`, with or without the namespace. -/
def spellings (m : Marker) : List String :=
  [m.shortName, m.shortName ++ "Attribute", attributeNamespace ++ m.shortName,
   attributeNamespace ++ m.shortName ++ "Attribute"]

/-- Whether `attributeName` denotes `m`. -/
def isSpelled (m : Marker) (attributeName : String) : Bool :=
  m.spellings.contains attributeName

theorem mem_all (m : Marker) : m ∈ all := by
  cases m <;> simp [all]

theorem shortName_injective {m n : Marker} (h : m.shortName = n.shortName) : m = n := by
  revert h
  cases m <;> cases n <;> simp [shortName]

end Marker

end ScriptNaming
