import ScriptNaming.CamelCase
import ScriptNaming.Identifier
import ScriptNaming.Resolution.State

/-!
# Preferred names

Every member first gets a preferred name, with a flag that says whether it was chosen explicitly.
Explicit names are used as they are; the others are told apart by suffixes. A member without a
preferred name asks for a generated one.
-/

namespace ScriptNaming

/-- The name that a member would like to have. -/
structure PreferredName where
  /-- The name; `none` asks for a generated name. -/
  name : Option String
  /-- Whether the name was chosen explicitly, and so is used as it is. -/
  isSpecified : Bool
  deriving DecidableEq, Repr

/-- The method that a method with an `AlternateSignature` stands in for. -/
inductive MainMethod where
  /-- The method has no `AlternateSignature`. -/
  | none
  | unique (main : MemberSymbol)
  /-- There is no other method, or there are several, that it could stand in for. -/
  | missing
  deriving DecidableEq, Repr

/-- The other methods of a type with the name of `m` that have no `AlternateSignature`. -/
def TypeGraph.mainCandidates (g : TypeGraph) (ty : TypeSymbol) (m : MemberSymbol) :
    List MemberSymbol :=
  (g.methodsNamed ty m.name).filter fun other =>
    other.id != m.id && !other.has .alternateSignature

/-- The method of a type that `m`, a method of that type, stands in for. -/
def TypeGraph.mainMethod (g : TypeGraph) (ty : TypeSymbol) (m : MemberSymbol) : MainMethod :=
  if m.isMethod && m.has .alternateSignature then
    match g.mainCandidates ty m with
    | [main] => .unique main
    | _ => .missing
  else .none

/-- Whether a text may be the argument of a member's `ScriptName`. -/
def isMemberScriptName (name : String) : Bool := name == "" || isIdentifier name

/-- The preferred name that the member `m` has by its own markers and its own name. -/
def TypeGraph.ownPreferredName (g : TypeGraph) (options : Options) (resolved : ResolvedType)
    (m : MemberSymbol) : PreferredName × List Diagnostic :=
  match m.markerText? .scriptName with
  | some argument =>
    (⟨some (argument.getD m.name), true⟩,
      if argument.any isMemberScriptName then []
      else [memberDiagnostic g m "InvalidName" .invalidName fun m =>
        "The name in the [ScriptName] of " ++ m ++ " must be a valid identifier, or be blank."])
  | none =>
    if m.has .preserveCase then (⟨some m.name, true⟩, [])
    else if m.has .preserveName || m.has .instanceMethodOnFirstArgument ||
        m.has .intrinsicProperty || resolved.hasGlobalMembers then
      (⟨some (camelCase m.name), true⟩, [])
    else if g.isPublicMember m then (⟨some (camelCase m.name), false⟩, [])
    else if options.minimizeNames then (⟨none, false⟩, [])
    else (⟨some ("$" ++ camelCase m.name), false⟩, [])

/-- The preferred name of the member `m` of `ty`: for an alternate signature that of its main
method, and the source name when there is no such method. -/
def TypeGraph.preferredName (g : TypeGraph) (options : Options) (ty : TypeSymbol)
    (resolved : ResolvedType) (m : MemberSymbol) : PreferredName × List Diagnostic :=
  match g.mainMethod ty m with
  | .none => g.ownPreferredName options resolved m
  | .unique main => g.ownPreferredName options resolved main
  | .missing =>
    (⟨some m.name, false⟩,
      [memberDiagnostic g m "NoMainMethod" .missingBase fun m =>
        "The member " ++ m ++ " has an [AlternateSignature], but there is not exactly one other " ++
          "method with the same name without that attribute."])

end ScriptNaming
