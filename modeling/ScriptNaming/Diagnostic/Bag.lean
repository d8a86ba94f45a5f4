import ScriptNaming.Diagnostic
import ScriptNaming.Table

/-!
# Bags of diagnostics

A `DiagnosticBag` collects the diagnostics of one resolution under their keys. Reporting a key
again keeps its place in the bag and replaces the diagnostic, so that an entity has at most one
entry for each category.
-/

namespace ScriptNaming

/-- Diagnostics in the order in which their keys were first reported. -/
structure DiagnosticBag where
  table : Table String Diagnostic
  deriving Inhabited

namespace DiagnosticBag

/-- The bag without diagnostics. -/
def empty : DiagnosticBag := ⟨∅⟩

instance : EmptyCollection DiagnosticBag := ⟨empty⟩

/-- Puts `d` in, in place of an earlier diagnostic with its key. -/
def add (bag : DiagnosticBag) (d : Diagnostic) : DiagnosticBag :=
  ⟨bag.table.insert d.key d⟩

/-- Puts `ds` in, one after the other. -/
def addAll (bag : DiagnosticBag) (ds : List Diagnostic) : DiagnosticBag :=
  ds.foldl add bag

/-- The diagnostic about `entity` under `category`, if there is one. -/
def find? (bag : DiagnosticBag) (entity category : String) : Option Diagnostic :=
  bag.table.find? (diagnosticKey entity category)

/-- Whether there is a diagnostic about `entity` under `category`. -/
def contains (bag : DiagnosticBag) (entity category : String) : Bool :=
  bag.table.contains (diagnosticKey entity category)

/-- The diagnostics in the order of their first report. -/
def toList (bag : DiagnosticBag) : List Diagnostic := bag.table.values

/-- The keys in the order of their first report. -/
def keys (bag : DiagnosticBag) : List String := bag.table.keys

/-- The number of diagnostics. -/
def size (bag : DiagnosticBag) : Nat := bag.table.size

/-- Whether there are no diagnostics. -/
def isEmpty (bag : DiagnosticBag) : Bool := bag.table.isEmpty

/-- Whether there are diagnostics; each of them is an error. -/
def hasErrors (bag : DiagnosticBag) : Bool := !bag.isEmpty

/-- The diagnostics of the kind `kind`. -/
def ofKind (bag : DiagnosticBag) (kind : DiagnosticKind) : List Diagnostic :=
  bag.toList.filter (·.kind == kind)

/-- The diagnostics about `entity`. -/
def forEntity (bag : DiagnosticBag) (entity : String) : List Diagnostic :=
  bag.toList.filter (·.entity == entity)

/-- All diagnostics of `bag`, and the bag that is left when they are taken out. -/
def take (bag : DiagnosticBag) : List Diagnostic × DiagnosticBag :=
  (bag.toList, ∅)

/-- All diagnostics, one a line. -/
def format (bag : DiagnosticBag) : String :=
  "\n".intercalate (bag.toList.map Diagnostic.line)

@[simp] theorem addAll_nil (bag : DiagnosticBag) : bag.addAll [] = bag := rfl

@[simp] theorem addAll_cons (bag : DiagnosticBag) (d : Diagnostic) (ds : List Diagnostic) :
    bag.addAll (d :: ds) = (bag.add d).addAll ds := rfl

theorem addAll_append (bag : DiagnosticBag) (ds es : List Diagnostic) :
    bag.addAll (ds ++ es) = (bag.addAll ds).addAll es := by
  simp [addAll]

end DiagnosticBag

end ScriptNaming
