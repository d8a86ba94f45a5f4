/-!
# Diagnostics

A problem in the source program never stops a resolution. It becomes a `Diagnostic` about a type
or a member, and the entity gets a harmless fallback.
-/

namespace ScriptNaming

/-- What is wrong, broadly. -/
inductive DiagnosticKind where
  /-- Two markers that cannot stand on one entity. -/
  | illegalCombination
  /-- A marker that asks for a context which the entity lacks. -/
  | illegalPlacement
  /-- A literal name that is not legal in script. -/
  | invalidName
  /-- An override or an interface implementation that would need two names. -/
  | hierarchyConflict
  /-- An alternate signature without a unique main method. -/
  | missingBase
  deriving DecidableEq, Repr

/-- The name of a kind in prose. -/
def DiagnosticKind.label : DiagnosticKind → String
  | .illegalCombination => "illegal-combination"
  | .illegalPlacement => "illegal-placement"
  | .invalidName => "invalid-name"
  | .hierarchyConflict => "hierarchy-conflict"
  | .missingBase => "missing-base"

/-- The name of a kind in reports. -/
def DiagnosticKind.tag : DiagnosticKind → String
  | .illegalCombination => "illegalCombination"
  | .illegalPlacement => "illegalPlacement"
  | .invalidName => "invalidName"
  | .hierarchyConflict => "hierarchyConflict"
  | .missingBase => "missingBase"

/-- A problem found during a resolution. -/
structure Diagnostic where
  /-- The qualified name of the type or member that the problem is about. -/
  entity : String
  /-- A short code for the problem, used at most once for an entity. -/
  category : String
  kind : DiagnosticKind
  message : String
  deriving DecidableEq, Repr

/-- The key of the diagnostics about `entity` under `category`. -/
def diagnosticKey (entity category : String) : String :=
  entity ++ ":" ++ category

/-- The key under which `d` is kept. -/
def Diagnostic.key (d : Diagnostic) : String :=
  diagnosticKey d.entity d.category

/-- The diagnostic `d` as one line. -/
def Diagnostic.line (d : Diagnostic) : String :=
  "error[" ++ d.category ++ "]: " ++ d.message

end ScriptNaming
