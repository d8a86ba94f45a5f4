import ScriptNaming.Document.Linking
import ScriptNaming.Report

/-!
# Jobs

A job resolves all types of a graph for a main assembly given by name. `TypeGraph.reportFor` starts
from a graph, `Job.run` from the files with the graph and the options.
-/

namespace ScriptNaming

/-- Why a graph cannot be resolved for a main assembly. -/
inductive ResolveError where
  | unknownMain (name : String)
  | faulted (fault : Fault)
  deriving DecidableEq, Repr

/-- The wording of an error. -/
def ResolveError.message : ResolveError → String
  | .unknownMain name => "unknown main assembly '" ++ name ++ "'"
  | .faulted fault => fault.message

/-- The main assembly called `name`. -/
def TypeGraph.mainAssembly (g : TypeGraph) (name : String) : Except ResolveError AssemblyId :=
  match g.assemblyNamed? name with
  | some a => .ok a
  | none => .error (.unknownMain name)

/-- The report on all types of `g`, of which the main assembly is called `main`. -/
def TypeGraph.reportFor (g : TypeGraph) (options : Options) (main : String) :
    Except ResolveError Report := do
  let main ← g.mainAssembly main
  let r ← (g.resolveAll options main).mapError .faulted
  return r.report g

/-- A file by name, with its text unless it cannot be read. -/
structure SourceFile where
  name : String
  text : Option String
  deriving DecidableEq, Repr

/-- What is to be resolved. -/
structure Job where
  graph : SourceFile
  /-- The options; without a file the usual ones. -/
  options : Option SourceFile
  /-- The name of the main assembly. -/
  main : String
  deriving DecidableEq, Repr

/-- Why a job has no report. -/
inductive JobError where
  | unreadableGraph (file : String)
  | invalidGraph (file : String) (error : DocumentError)
  | unreadableOptions (file : String)
  | invalidOptions (file : String) (error : OptionsError)
  | unresolved (file : String) (error : ResolveError)
  deriving DecidableEq, Repr

/-- The wording of an error. -/
def JobError.message : JobError → String
  | .unreadableGraph file => "failed to read graph document: " ++ file
  | .invalidGraph file error => "failed to load graph document: " ++ file ++ ": " ++ error.message
  | .unreadableOptions file => "failed to read resolver options: " ++ file
  | .invalidOptions file error =>
    "failed to load resolver options: " ++ file ++ ": " ++ error.message
  | .unresolved file error => "failed to resolve " ++ file ++ ": " ++ error.message

namespace Job

/-- The graph in `file`. -/
def loadGraph (file : SourceFile) : Except JobError TypeGraph :=
  match file.text with
  | none => .error (.unreadableGraph file.name)
  | some text => (TypeGraph.ofText text).mapError (.invalidGraph file.name)

/-- The options in `file`. -/
def loadOptions (file : SourceFile) : Except JobError Options :=
  match file.text with
  | none => .error (.unreadableOptions file.name)
  | some text => (Options.ofText text).mapError (.invalidOptions file.name)

/-- The report of `job`. The graph is read before the options. -/
def run (job : Job) : Except JobError Report := do
  let g ← loadGraph job.graph
  let options ← job.options.elim (pure {}) loadOptions
  (g.reportFor options job.main).mapError (.unresolved job.graph.name)

end Job

end ScriptNaming
