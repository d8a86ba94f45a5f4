import ScriptNaming.Diagnostic.Bag
import ScriptNaming.FreeName
import ScriptNaming.Graph.Hierarchy
import ScriptNaming.NameRegistry
import ScriptNaming.Options
import ScriptNaming.Semantics

/-!
# The state of a resolution

A resolution fills tables: each of them is written once for an entity and then only read. Beside
the tables stand the names that are taken, the diagnostics, and two guards that know which types
are in progress. `Resolve` is the type of steps that change this state or end in a fault.
-/

namespace ScriptNaming

/-! ## Guards -/

/-- The types in progress, the latest first, and how many they are. The number is kept apart from
the types; that it is theirs is an invariant (`Guard.IsCounted`). -/
structure Guard where
  visiting : List TypeId
  depth : Nat
  deriving DecidableEq, Repr, Inhabited

namespace Guard

/-- No type is in progress. -/
def empty : Guard := ⟨[], 0⟩

instance : EmptyCollection Guard := ⟨empty⟩

/-- What comes of the attempt to begin with a type. -/
inductive Admission where
  /-- The type is now in progress. -/
  | entered (guard : Guard)
  /-- The type is in progress already. -/
  | cycle
  /-- Too many types are in progress. -/
  | tooDeep
  deriving DecidableEq, Repr

/-- The guard with `t` in progress as well. -/
def push (g : Guard) (t : TypeId) : Guard := ⟨t :: g.visiting, g.depth + 1⟩

/-- Begins with `t`. That too many types are in progress is noticed first. -/
def enter (g : Guard) (t : TypeId) : Admission :=
  if maxTypeNestingDepth ≤ g.depth then .tooDeep
  else if g.visiting.contains t then .cycle
  else .entered (g.push t)

/-- Is done with `t`. -/
def leave (g : Guard) (t : TypeId) : Guard := ⟨g.visiting.erase t, g.depth - 1⟩

/-- Is done with `t`, which the caller knows to be in progress. Otherwise a debug assertion fails,
which is a fault; that a release build leaves `visiting` alone and counts down all the same is not
modelled. -/
def leaveOrFault (g : Guard) (t : TypeId) : Except Fault Guard :=
  if g.visiting.contains t then .ok (g.leave t) else .error .notInProgress

variable {g g' : Guard} {t : TypeId}

theorem enter_eq_entered_iff :
    g.enter t = .entered g' ↔
      g.depth < maxTypeNestingDepth ∧ t ∉ g.visiting ∧ g' = g.push t := by
  unfold enter
  split
  · simp; omega
  · split <;> simp_all [eq_comm]

@[simp] theorem visiting_push (g : Guard) (t : TypeId) :
    (g.push t).visiting = t :: g.visiting :=
  rfl

@[simp] theorem leave_push (g : Guard) (t : TypeId) : (g.push t).leave t = g := by
  simp [leave, push]

theorem leaveOrFault_eq_ok_iff :
    g.leaveOrFault t = .ok g' ↔ t ∈ g.visiting ∧ g' = g.leave t := by
  unfold leaveOrFault
  split <;> simp_all [eq_comm]

/-! ### The number of types in progress -/

/-- The depth of `g` is the number of types in progress. -/
def IsCounted (g : Guard) : Prop := g.depth = g.visiting.length

theorem isCounted_empty : IsCounted ∅ := rfl

theorem IsCounted.push (h : g.IsCounted) (t : TypeId) : (g.push t).IsCounted :=
  congrArg (· + 1) h

theorem IsCounted.enter (h : g.IsCounted) (henter : g.enter t = .entered g') : g'.IsCounted := by
  obtain ⟨-, -, rfl⟩ := enter_eq_entered_iff.1 henter
  exact h.push t

theorem IsCounted.leave (h : g.IsCounted) (ht : t ∈ g.visiting) : (g.leave t).IsCounted := by
  rw [IsCounted, Guard.leave, List.length_erase_of_mem ht, h]

end Guard

/-! ## The tables -/

/-- What is known of a resolved type. -/
structure ResolvedType where
  semantics : TypeSemantics
  /-- Whether the methods of the type are global functions. -/
  hasGlobalMembers : Bool
  deriving DecidableEq, Repr

namespace ResolvedType

/-- A type without a place in script. -/
def notUsable : ResolvedType := ⟨.notUsable, false⟩

/-- Whether the type of the entry `r` has a place in script. -/
def isUsable (r : ResolvedType) : Bool := r.semantics.isUsable

end ResolvedType

/-- Where the name of a method or a field comes from, when it has one of its own. -/
inductive NameOrigin where
  /-- Its markers chose it. -/
  | chosen
  /-- It was told apart from other names in the registry of its type. -/
  | allocated
  /-- It was counted out among the interface members of its assembly. -/
  | counted
  deriving DecidableEq, Repr

/-- The tables of a resolution, and what else it keeps track of. -/
structure ResolutionState where
  types : Table TypeId ResolvedType
  /-- The simple names of types that are taken in each script namespace. -/
  typeNames : Table String NameSet
  /-- The registries of the types whose members are done. -/
  memberNames : Table TypeId NameRegistry
  methods : Table MemberId MethodSemantics
  properties : Table MemberId PropertySemantics
  fields : Table MemberId FieldSemantics
  events : Table MemberId EventSemantics
  /-- Where the names of methods, accessors and fields come from that have one of their own. -/
  origins : Table MemberId NameOrigin
  interfaceNames : InterfaceNames
  diagnostics : DiagnosticBag
  typeGuard : Guard
  memberGuard : Guard
  deriving Inhabited

namespace ResolutionState

/-- The state before anything is resolved. -/
def initial : ResolutionState where
  types := ∅
  typeNames := ∅
  memberNames := ∅
  methods := ∅
  properties := ∅
  fields := ∅
  events := ∅
  origins := ∅
  interfaceNames := ∅
  diagnostics := ∅
  typeGuard := ∅
  memberGuard := ∅

/-- The simple names of types that are taken in the script namespace `space`. -/
def takenTypeNames (s : ResolutionState) (space : String) : NameSet :=
  (s.typeNames.find? space).getD ∅

end ResolutionState

/-! ## Steps -/

/-- A step of a resolution: it changes the state, or ends in a fault. -/
abbrev Resolve := StateT ResolutionState (Except Fault)

/-- Reports the diagnostics `ds`, in order. -/
def report (ds : List Diagnostic) : Resolve Unit :=
  modify fun s => { s with diagnostics := s.diagnostics.addAll ds }

/-- Records the `semantics` of the method `m`. -/
def recordMethod (m : MemberId) (semantics : MethodSemantics) : Resolve Unit :=
  modify fun s => { s with methods := s.methods.insert m semantics }

/-- Records the `semantics` of the property `m`. -/
def recordProperty (m : MemberId) (semantics : PropertySemantics) : Resolve Unit :=
  modify fun s => { s with properties := s.properties.insert m semantics }

/-- Records the `semantics` of the field `m`. -/
def recordField (m : MemberId) (semantics : FieldSemantics) : Resolve Unit :=
  modify fun s => { s with fields := s.fields.insert m semantics }

/-- Records the `semantics` of the event `m`. -/
def recordEvent (m : MemberId) (semantics : EventSemantics) : Resolve Unit :=
  modify fun s => { s with events := s.events.insert m semantics }

/-- Records where the name of the method or field `m` comes from. -/
def recordOrigin (m : MemberId) (origin : NameOrigin) : Resolve Unit :=
  modify fun s => { s with origins := s.origins.insert m origin }

/-- The entry of a type `t` that the caller knows to be resolved. -/
def entryOrFault (t : TypeId) : Resolve ResolvedType := do
  match (← get).types.find? t with
  | some resolved => return resolved
  | none => throw (.unresolved .type t.text)

/-- A diagnostic about a type; `message` is given its full name. -/
def typeDiagnostic (ty : TypeSymbol) (category : String) (kind : DiagnosticKind)
    (message : String → String) : Diagnostic :=
  ⟨ty.fullName, category, kind, message ty.fullName⟩

/-- A diagnostic about a member; `message` is given its qualified name. -/
def memberDiagnostic (g : TypeGraph) (m : MemberSymbol) (category : String)
    (kind : DiagnosticKind) (message : String → String) : Diagnostic :=
  ⟨g.qualifiedName m, category, kind, message (g.qualifiedName m)⟩

end ScriptNaming
