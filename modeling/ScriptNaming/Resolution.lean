import ScriptNaming.Resolution.Members

/-!
# Resolutions

`TypeGraph.resolve` resolves some root types and everything that they depend on, and returns the
tables as a `Resolution`. Roots are taken in the order of their full names, so that neither the
order nor the repetition of roots matters; a root of another assembly than the main one counts only
if it is public.

The functions `Resolution.typeSemantics` and so on are for entities that the caller knows to be
resolved: an entity without an answer is a fault.
-/

namespace ScriptNaming

/-- The outcome of a resolution. -/
structure Resolution where
  types : Table TypeId ResolvedType
  methods : Table MemberId MethodSemantics
  properties : Table MemberId PropertySemantics
  fields : Table MemberId FieldSemantics
  events : Table MemberId EventSemantics
  /-- Where the names of methods, accessors and fields come from that have one of their own. -/
  origins : Table MemberId NameOrigin
  diagnostics : DiagnosticBag
  deriving Inhabited

/-- The tables that the state `s` has come to. -/
def ResolutionState.toResolution (s : ResolutionState) : Resolution where
  types := s.types
  methods := s.methods
  properties := s.properties
  fields := s.fields
  events := s.events
  origins := s.origins
  diagnostics := s.diagnostics

/-! ## Roots -/

/-- Whether the type `a` comes before `b` by full name and, for the same full name, by number. -/
def rootLE (a b : TypeSymbol) : Bool :=
  ((compare a.fullName b.fullName).then (compare a.id.index b.id.index)).isLE

/-- The order in which roots are looked up for comparison: the second is compared with the first,
and each further one with those before it. -/
def lookupOrder : List TypeId → List TypeId
  | a :: b :: rest => b :: a :: rest
  | roots => roots

/-- The types of `roots` without repetitions, in the order in which they are resolved. -/
def TypeGraph.sortedRoots (g : TypeGraph) (roots : List TypeId) :
    Except Fault (List TypeSymbol) := do
  let types ← (lookupOrder roots).mapM g.typeOrFault
  return (sortBy rootLE types).eraseReps

/-- Whether a root `ty` is resolved: it belongs to the assembly `main`, or is public. -/
def TypeGraph.isResolvedRoot (g : TypeGraph) (main : AssemblyId) (ty : TypeSymbol) : Bool :=
  ty.assembly == main || g.isPublicType ty

/-- Resolves the type `t` and its members. -/
def resolveRoot (g : TypeGraph) (options : Options) (t : TypeId) : Resolve Unit := do
  let _ ← ensureType g options t
  ensureMembers g options t

/-- Resolves the given `roots`, as far as they belong to the assembly `main` or are public, with all
that they depend on. -/
def TypeGraph.resolve (g : TypeGraph) (options : Options) (roots : List TypeId)
    (main : AssemblyId) : Except Fault Resolution := do
  let roots ← g.sortedRoots roots
  let resolved := (roots.filter (g.isResolvedRoot main)).map TypeSymbol.id
  let ((), s) ← (resolved.forM (resolveRoot g options)).run .initial
  return s.toResolution

/-- Resolves every type of a graph. -/
def TypeGraph.resolveAll (g : TypeGraph) (options : Options) (main : AssemblyId) :
    Except Fault Resolution :=
  g.resolve options g.typeIds main

/-! ## Answers -/

namespace Resolution

/-- The answer `found` for an entity, or the fault that there is none. -/
def answer {α : Type} (found : Option α) (kind : EntityKind) (reference : String) :
    Except Fault α :=
  match found with
  | some a => .ok a
  | none => .error (.unresolved kind reference)

/-- The semantics of the type `t`, which is resolved. -/
def typeSemantics (r : Resolution) (t : TypeId) : Except Fault TypeSemantics :=
  answer ((r.types.find? t).map ResolvedType.semantics) .type t.text

/-- The semantics of the method `m`, which is resolved. -/
def methodSemantics (r : Resolution) (m : MemberId) : Except Fault MethodSemantics :=
  answer (r.methods.find? m) .method m.text

/-- The semantics of the property `m`, which is resolved. -/
def propertySemantics (r : Resolution) (m : MemberId) : Except Fault PropertySemantics :=
  answer (r.properties.find? m) .property m.text

/-- The semantics of the field `m`, which is resolved. -/
def fieldSemantics (r : Resolution) (m : MemberId) : Except Fault FieldSemantics :=
  answer (r.fields.find? m) .field m.text

/-- The semantics of the event `m`, which is resolved. -/
def eventSemantics (r : Resolution) (m : MemberId) : Except Fault EventSemantics :=
  answer (r.events.find? m) .event m.text

/-- Whether the methods of the type `t` are global functions. -/
def hasGlobalMembers (r : Resolution) (t : TypeId) : Bool :=
  (r.types.find? t).any ResolvedType.hasGlobalMembers

/-- Whether problems were reported in `r`. -/
def hasErrors (r : Resolution) : Bool := r.diagnostics.hasErrors

/-- The diagnostics of `r`, and the resolution that is left when they are taken out. -/
def takeDiagnostics (r : Resolution) : List Diagnostic × Resolution :=
  let (ds, bag) := r.diagnostics.take
  (ds, { r with diagnostics := bag })

end Resolution

end ScriptNaming
