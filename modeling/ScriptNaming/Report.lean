import ScriptNaming.Json.Writer
import ScriptNaming.Resolution
import Std.Data.TreeMap

/-!
# Reports

A report is a snapshot of a resolution under source names, sorted by name. Two resolutions of graphs
that declare the same entities in different orders give the same report.
-/

namespace ScriptNaming

/-- What a report says about a type. -/
structure TypeReport where
  semantics : TypeSemantics
  hasGlobalMembers : Bool
  deriving DecidableEq, Repr

/-- The tables of a resolution under source names. -/
structure Report where
  types : Std.TreeMap String TypeReport
  methods : Std.TreeMap String MethodSemantics
  properties : Std.TreeMap String PropertySemantics
  fields : Std.TreeMap String FieldSemantics
  events : Std.TreeMap String EventSemantics
  diagnostics : List Diagnostic

/-- A table under the names that `name?` gives to its keys. -/
def Table.named {κ α : Type} (t : Table κ α) (name? : κ → Option String) :
    Std.TreeMap String α :=
  t.entries.foldl
    (fun named (k, v) => (name? k).elim named fun name => named.insert name v)
    ∅

/-- The report on a resolution `r` of the graph `g`. -/
def Resolution.report (r : Resolution) (g : TypeGraph) : Report :=
  let memberKey? (m : MemberId) : Option String := (g.member? m).map g.memberKey
  { types := r.types.named (fun t => (g.type? t).map TypeSymbol.fullName)
      |>.map fun _ resolved => ⟨resolved.semantics, resolved.hasGlobalMembers⟩
    methods := r.methods.named memberKey?
    properties := r.properties.named memberKey?
    fields := r.fields.named memberKey?
    events := r.events.named memberKey?
    diagnostics := r.diagnostics.toList }

/-! ## The JSON value of a report -/

/-- The JSON value of type semantics. -/
def TypeSemantics.toJson : TypeSemantics → Json
  | .normalType name generatesCode =>
    .obj [("kind", .str "normalType"), ("name", .str name), ("generatesCode", .bool generatesCode)]
  | .notUsable => .obj [("kind", .str "notUsable")]

/-- The JSON value of method semantics. -/
def MethodSemantics.toJson : MethodSemantics → Json
  | .normalMethod name generatesCode ignoresGenericArgs isGlobal =>
    .obj [("kind", .str "normalMethod"), ("name", .str name),
      ("generatesCode", .bool generatesCode), ("ignoresGenericArgs", .bool ignoresGenericArgs),
      ("isGlobal", .bool isGlobal)]
  | .inlineCode template => .obj [("kind", .str "inlineCode"), ("template", .str template)]
  | .instanceMethodOnFirstArgument name =>
    .obj [("kind", .str "instanceMethodOnFirstArgument"), ("name", .str name)]
  | .notUsable => .obj [("kind", .str "notUsable")]

/-- The JSON value of the semantics of an accessor. -/
def MethodSemantics.optionToJson (s : Option MethodSemantics) : Json :=
  s.elim .null MethodSemantics.toJson

/-- The JSON value of property semantics. -/
def PropertySemantics.toJson : PropertySemantics → Json
  | .field name => .obj [("kind", .str "field"), ("name", .str name)]
  | .getAndSet getter setter =>
    .obj [("kind", .str "getAndSet"), ("getter", MethodSemantics.optionToJson getter),
      ("setter", MethodSemantics.optionToJson setter)]
  | .nativeIndexer canGet canSet =>
    .obj [("kind", .str "nativeIndexer"), ("can_get", .bool canGet), ("can_set", .bool canSet)]
  | .notUsable => .obj [("kind", .str "notUsable")]

/-- The JSON value of field semantics. -/
def FieldSemantics.toJson : FieldSemantics → Json
  | .field name => .obj [("kind", .str "field"), ("name", .str name)]
  | .notUsable => .obj [("kind", .str "notUsable")]

/-- The JSON value of event semantics. -/
def EventSemantics.toJson : EventSemantics → Json
  | .addAndRemove adder remover =>
    .obj [("kind", .str "addAndRemove"), ("adder", MethodSemantics.optionToJson adder),
      ("remover", MethodSemantics.optionToJson remover)]
  | .notUsable => .obj [("kind", .str "notUsable")]

/-- The JSON value of a diagnostic. -/
def Diagnostic.toJson (d : Diagnostic) : Json :=
  .obj [("entity", .str d.entity), ("category", .str d.category), ("kind", .str d.kind.tag),
    ("message", .str d.message)]

/-- The JSON value of what a report says about a type in `t`. -/
def TypeReport.toJson (t : TypeReport) : Json :=
  .obj [("semantics", t.semantics.toJson), ("globalMembers", .bool t.hasGlobalMembers)]

/-- The JSON value of a table of a report, whose values `write` takes to JSON. -/
def Report.tableToJson {α : Type} (write : α → Json) (t : Std.TreeMap String α) : Json :=
  .obj (t.toList.map fun (name, value) => (name, write value))

/-- The JSON value of a report. -/
def Report.toJson (r : Report) : Json :=
  .obj [
    ("types", tableToJson TypeReport.toJson r.types),
    ("methods", tableToJson MethodSemantics.toJson r.methods),
    ("properties", tableToJson PropertySemantics.toJson r.properties),
    ("fields", tableToJson FieldSemantics.toJson r.fields),
    ("events", tableToJson EventSemantics.toJson r.events),
    ("diagnostics", .arr (r.diagnostics.map Diagnostic.toJson))]

/-- The text of a report. -/
def Report.text (r : Report) : String := r.toJson.pretty

end ScriptNaming
